import Shellwright.Number.Decimal
import Shellwright.Surface.Placeless
import Shellwright.Text.Outline

/-!
# Showing programs

The outline of a program as written, node by node.
-/

namespace Shellwright

open Text (Outline)

def Span.outline (s : Span) : Outline :=
  .record "Span" [("start", .nat s.start), ("end", .nat s.stop)]

/-- The name of an operator in a dump. -/
def BinaryOp.name : BinaryOp → String
  | .eq => "Eq"
  | .ne => "NotEq"
  | .lt => "Lt"
  | .le => "Le"
  | .gt => "Gt"
  | .ge => "Ge"
  | .and => "And"
  | .or => "Or"
  | .add => "Add"
  | .sub => "Sub"
  | .mul => "Mul"
  | .div => "Div"
  | .mod => "Mod"

/-- The name of an operator in a dump. -/
def UnaryOp.name : UnaryOp → String
  | .negate => "Negate"
  | .not => "Not"

/-- The name of a jump in a dump. -/
def Jump.name : Jump → String
  | .leave => "Break"
  | .next => "Continue"

/-- The outline of a literal of 64 bits. -/
def intOutline (v : Int64) : Outline := .leaf (toString v.toInt)

/-- The outline of a fractional literal. -/
def fractionOutline (v : Binary64) : Outline := .leaf (Layout.dump.write v)

namespace Surface

/-- A node with its place. -/
def spanned (node : Outline) (span : Span) : Outline :=
  .record "Spanned" [("node", node), ("span", span.outline)]

def Segment.outline : Segment → Outline
  | .text s => .tuple "Text" [.text s]
  | .ref name raw span =>
    .record "Var" [("name", .text name), ("raw", .text raw), ("span", span.outline)]

/-- The outline of interpolated text. -/
def segmentsOutline (segments : List Segment) : Outline := .list (segments.map Segment.outline)

mutual

def Expr.outline : Expr → Outline
  | .int span value => spanned (.tuple "Int" [intOutline value]) span
  | .fraction span value => spanned (.tuple "Fractional" [fractionOutline value]) span
  | .bool span value => spanned (.tuple "Bool" [.bool value]) span
  | .text span segments => spanned (.tuple "Str" [segmentsOutline segments]) span
  | .command span segments => spanned (.tuple "Extern" [segmentsOutline segments]) span
  | .var span name => spanned (.tuple "Var" [.text name]) span
  | .binary span op left right =>
    spanned (.record "Binary"
      [("op", .leaf op.name), ("left", left.outline), ("right", right.outline)]) span
  | .unary span op operand =>
    spanned (.record "Unary" [("op", .leaf op.name), ("expr", operand.outline)]) span
  | .call span name args =>
    spanned (.record "Call" [("name", .text name), ("args", .list (Expr.outlines args))]) span
  | .pipe span left right => spanned (.tuple "Pipe" [left.outline, right.outline]) span

/-- The outlines of expressions. -/
def Expr.outlines : List Expr → List Outline
  | [] => []
  | e :: es => e.outline :: Expr.outlines es

end

mutual

def Stmt.outline : Stmt → Outline
  | .assign span name value =>
    spanned (.record "Assign" [("name", .text name), ("value", value.outline)]) span
  | .branch span cond body otherwise =>
    spanned (.record "If"
      [("cond", cond.outline), ("then_body", .list (Stmt.outlines body)),
       ("elifs", .list otherwise.elseIfOutlines), ("else_body", otherwise.finalOutline)]) span
  | .loop span var lower upper body =>
    spanned (.record "For"
      [("var", .text var), ("lower", lower.outline), ("upper", .option Expr.outline upper),
       ("body", .list (Stmt.outlines body))]) span
  | .ret span value => spanned (.tuple "Return" [value.outline]) span
  | .jump span jump => spanned (.tuple "LoopControl" [.leaf jump.name]) span
  | .load span module => spanned (.tuple "Import" [.text module]) span
  | .expr span expr => spanned (.tuple "Expr" [expr.outline]) span

/-- The outlines of statements. -/
def Stmt.outlines : List Stmt → List Outline
  | [] => []
  | s :: ss => s.outline :: Stmt.outlines ss

/-- The outlines of the branches with a condition. -/
def ElseChain.elseIfOutlines : ElseChain → List Outline
  | .elseIf cond body otherwise =>
    .record "Elif" [("cond", cond.outline), ("body", .list (Stmt.outlines body))] ::
      otherwise.elseIfOutlines
  | _ => []

/-- The outline of the branch without condition. -/
def ElseChain.finalOutline : ElseChain → Outline
  | .done => .leaf "None"
  | .elseIf _ _ otherwise => otherwise.finalOutline
  | .final body => .tuple "Some" [.list (Stmt.outlines body)]

end

def Param.outline (p : Param) : Outline := spanned (.text p.name) p.span

def Function.outline (f : Function) : Outline :=
  .record "Function"
    [("name", .text f.name), ("params", .list (f.params.map Param.outline)),
     ("body", .option (fun body => .list (Stmt.outlines body)) f.body), ("span", f.span.outline),
     ("file", .text f.file)]

def TopLevel.outline (t : TopLevel) : Outline :=
  .record "TopLevel" [("stmt", t.stmt.outline), ("file", .text t.file)]

/-- The outline of a program without the texts of its files. -/
def Program.outline (p : Program) : Outline :=
  .record "Program"
    [("functions", .list (p.functions.map Function.outline)),
     ("top_level", .list (p.topLevel.map TopLevel.outline)), ("span", p.span.outline),
     ("source_maps", .leaf "\x7b\x7d"), ("entry_file", .text p.entryFile)]

/-- The text that shows a program, whatever its layout. -/
def Program.dump (p : Program) : String := p.placeless.outline.toText

end Surface

end Shellwright
