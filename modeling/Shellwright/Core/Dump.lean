import Shellwright.Core.Basic
import Shellwright.Surface.Dump

/-!
# Showing resolved programs

The outline of a resolved program, node by node.
-/

namespace Shellwright.Core

open Text (Outline)

/-- The name of a type in a dump. -/
def Ty.name : Ty → String
  | .undef => "Undef"
  | .integer => "Integer"
  | .fractional => "Fractional"
  | .text => "String"
  | .boolean => "Boolean"

/-- The name of a connection in a dump. -/
def StreamOp.name : StreamOp → String
  | .pipe => "Pipe"
  | .output => "Output"
  | .input => "Input"

def Variable.outline (v : Variable) : Outline :=
  .record "Variable" [("name", .text v.name), ("global", .bool v.isGlobal)]

def Segment.outline : Segment → Outline
  | .text s => .tuple "Text" [.text s]
  | .var v => .tuple "Var" [v.outline]

/-- The outline of interpolated text. -/
def segmentsOutline (segments : List Segment) : Outline :=
  .record "InterpolatedString" [("segments", .list (segments.map Segment.outline))]

/-- A node with its type. -/
def typed (kind : Outline) (ty : Ty) : Outline :=
  .record "Expr" [("kind", kind), ("ty", .leaf ty.name)]

mutual

def Expr.outline : Expr → Outline
  | .int ty value => typed (.tuple "Int" [intOutline value]) ty
  | .fraction ty value => typed (.tuple "Fractional" [fractionOutline value]) ty
  | .bool ty value => typed (.tuple "Bool" [.bool value]) ty
  | .text ty segments => typed (.tuple "Str" [segmentsOutline segments]) ty
  | .command ty segments => typed (.tuple "Extern" [segmentsOutline segments]) ty
  | .var ty v => typed (.tuple "Var" [v.outline]) ty
  | .binary ty op left right =>
    typed (.record "Binary"
      [("op", .leaf op.name), ("left", left.outline), ("right", right.outline)]) ty
  | .unary ty op operand =>
    typed (.record "Unary" [("op", .leaf op.name), ("operand", operand.outline)]) ty
  | .call ty name args =>
    typed (.tuple "Call"
      [.record "FunctionCall" [("name", .text name), ("args", .list (Expr.outlines args))]]) ty
  | .stream ty op left right =>
    typed (.record "Io"
      [("op", .leaf op.name), ("left", left.outline), ("right", right.outline)]) ty

/-- The outlines of expressions. -/
def Expr.outlines : List Expr → List Outline
  | [] => []
  | e :: es => e.outline :: Expr.outlines es

end

/-- The outline of an assignment. -/
def assignmentOutline (v : Variable) (value : Expr) : Outline :=
  .record "Assignment" [("var", v.outline), ("value", value.outline)]

/-- The outline of statements that belong together. -/
def blockOutline (stmts : List Outline) : Outline := .record "Block" [("stmts", .list stmts)]

/-- The outline of a condition and what it guards. -/
def guardedOutline (cond : Expr) (stmts : List Outline) : Outline :=
  .record "PredicatedBlock" [("cond", cond.outline), ("body", blockOutline stmts)]

mutual

def Stmt.outline : Stmt → Outline
  | .assign v value => .tuple "Assign" [assignmentOutline v value]
  | .branch cond body otherwise =>
    .record "If"
      [("branch", guardedOutline cond (Stmt.outlines body)),
       ("elifs", .list otherwise.elseIfOutlines), ("else_body", otherwise.finalOutline)]
  | .loop v lower upper body =>
    .record "For"
      [("var", v.outline), ("lower", lower.outline), ("upper", .option Expr.outline upper),
       ("body", blockOutline (Stmt.outlines body))]
  | .ret value => .tuple "Return" [value.outline]
  | .jump jump => .tuple "LoopControl" [.leaf jump.name]
  | .load module => .tuple "Import" [.text module]
  | .expr expr => .tuple "Expr" [expr.outline]

/-- The outlines of statements. -/
def Stmt.outlines : List Stmt → List Outline
  | [] => []
  | s :: ss => s.outline :: Stmt.outlines ss

/-- The outlines of the branches with a condition. -/
def ElseChain.elseIfOutlines : ElseChain → List Outline
  | .elseIf cond body otherwise =>
    guardedOutline cond (Stmt.outlines body) :: otherwise.elseIfOutlines
  | _ => []

/-- The outline of the branch without condition. -/
def ElseChain.finalOutline : ElseChain → Outline
  | .done => .leaf "None"
  | .elseIf _ _ otherwise => otherwise.finalOutline
  | .final body => .tuple "Some" [blockOutline (Stmt.outlines body)]

end

def Function.outline (f : Function) : Outline :=
  .record "Function"
    [("name", .text f.name), ("params", .list (f.params.map Variable.outline)),
     ("body", .option (fun body => blockOutline (Stmt.outlines body)) f.body)]

def Module.outline (m : Module) : Outline :=
  .record "Module"
    [("functions", .list (m.functions.map Function.outline)),
     ("globals", .list (m.globals.map fun a => assignmentOutline a.var a.value)),
     ("main", .option Outline.text m.main)]

/-- The text that shows a resolved program. -/
def Module.dump (m : Module) : String := m.outline.toText

end Shellwright.Core
