import Shellwright.Surface.Basic

/-!
# Programs without places

The same program with every span set to zero, for comparing and showing programs whatever their
layout.
-/

namespace Shellwright.Surface

/-- The segment without its place. -/
def Segment.placeless : Segment → Segment
  | .text s => .text s
  | .ref name raw _ => .ref name raw .zero

namespace Expr

mutual

/-- The expression without its places. -/
def placeless : Expr → Expr
  | .int _ value => .int .zero value
  | .fraction _ value => .fraction .zero value
  | .bool _ value => .bool .zero value
  | .text _ segments => .text .zero (segments.map Segment.placeless)
  | .command _ segments => .command .zero (segments.map Segment.placeless)
  | .var _ name => .var .zero name
  | .binary _ op left right => .binary .zero op left.placeless right.placeless
  | .unary _ op operand => .unary .zero op operand.placeless
  | .call _ name args => .call .zero name (placelessList args)
  | .pipe _ left right => .pipe .zero left.placeless right.placeless

/-- The expressions without their places. -/
def placelessList : List Expr → List Expr
  | [] => []
  | e :: es => e.placeless :: placelessList es

end

end Expr

mutual

/-- The statement without its places. -/
def Stmt.placeless : Stmt → Stmt
  | .assign _ name value => .assign .zero name value.placeless
  | .branch _ cond body otherwise =>
    .branch .zero cond.placeless (Stmt.placelessList body) otherwise.placeless
  | .loop _ var lower upper body =>
    .loop .zero var lower.placeless (upper.map Expr.placeless) (Stmt.placelessList body)
  | .ret _ value => .ret .zero value.placeless
  | .jump _ jump => .jump .zero jump
  | .load _ module => .load .zero module
  | .expr _ expr => .expr .zero expr.placeless

/-- The statements without their places. -/
def Stmt.placelessList : List Stmt → List Stmt
  | [] => []
  | s :: ss => s.placeless :: Stmt.placelessList ss

/-- The branches without their places. -/
def ElseChain.placeless : ElseChain → ElseChain
  | .done => .done
  | .elseIf cond body otherwise =>
    .elseIf cond.placeless (Stmt.placelessList body) otherwise.placeless
  | .final body => .final (Stmt.placelessList body)

end

/-- The function without its places. -/
def Function.placeless (f : Function) : Function :=
  { f with
    span := .zero
    params := f.params.map fun p => { p with span := .zero }
    body := f.body.map Stmt.placelessList }

/-- The program without its places; the texts of its files stay. -/
def Program.placeless (p : Program) : Program :=
  { p with
    span := .zero
    functions := p.functions.map Function.placeless
    topLevel := p.topLevel.map fun t => { t with stmt := t.stmt.placeless } }

/-- The program without the texts of its files. -/
def Program.withoutSources (p : Program) : Program := { p with sources := [] }

end Shellwright.Surface
