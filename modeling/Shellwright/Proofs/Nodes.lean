import Shellwright.Surface.Basic

/-!
# The parts of a program

Expressions, statements, parameters and functions are the parts of a program that have a place of
their own. Below a part stand other parts, in the order in which they are written.

* `Node`, `Node.span`, `Node.children`: a part, its place, and the parts directly below it.
* `Program.Part`: all parts of a program, at any depth.
-/

namespace Shellwright.Surface

/-- A part of a program that has a place of its own. -/
inductive Node where
  | expr (expr : Expr)
  | stmt (stmt : Stmt)
  | param (param : Param)
  | function (function : Function)

/-- The expressions directly below an expression. -/
def Expr.operands : Expr → List Expr
  | .binary _ _ left right => [left, right]
  | .unary _ _ operand => [operand]
  | .call _ _ args => args
  | .pipe _ left right => [left, right]
  | _ => []

/-- The conditions and statements of the branches after the first one. -/
def ElseChain.children : ElseChain → List Node
  | .done => []
  | .elseIf cond body otherwise => .expr cond :: (body.map .stmt ++ otherwise.children)
  | .final body => body.map .stmt

/-- The expressions and statements directly below a statement. -/
def Stmt.children : Stmt → List Node
  | .assign _ _ value => [.expr value]
  | .branch _ cond body otherwise => .expr cond :: (body.map .stmt ++ otherwise.children)
  | .loop _ _ lower upper body => .expr lower :: (upper.toList.map .expr ++ body.map .stmt)
  | .ret _ value => [.expr value]
  | .jump _ _ => []
  | .load _ _ => []
  | .expr _ e => [.expr e]

/-- The parameters of a function and the statements of its body. -/
def Function.children (f : Function) : List Node :=
  f.params.map .param ++ (f.body.getD []).map .stmt

namespace Node

def span : Node → Span
  | .expr e => e.span
  | .stmt s => s.span
  | .param p => p.span
  | .function f => f.span

/-- The parts directly below a part, as they are written. -/
def children : Node → List Node
  | .expr e => e.operands.map .expr
  | .stmt s => s.children
  | .param _ => []
  | .function f => f.children

end Node

/-- The part belongs to the program, at whatever depth. -/
inductive Program.Part (p : Program) : Node → Prop
  | function {f : Function} : f ∈ p.functions → Part p (.function f)
  | stmt {t : TopLevel} : t ∈ p.topLevel → Part p (.stmt t.stmt)
  | child {n c : Node} : Part p n → c ∈ n.children → Part p c

end Shellwright.Surface
