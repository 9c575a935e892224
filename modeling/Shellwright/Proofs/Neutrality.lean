import Shellwright.Proofs.Outcome
import Shellwright.Script.Text

/-!
# Writing leaves no trace but text

A writer goes through a tree with one mode that all parts share, opens scopes on the way, and may
fail at any depth. None of this can be seen afterwards: the writer has its mode again and has
only written some text. So what is written for a part is settled by the part and by the mode it
begins in, and nothing that was written before, a part beside it for one, has a say in it.

* `Node`, `Node.write`: what a writer can be asked for.
* `Node.children`: what is written inside a node, and the modes in which this begins.
* `Composed children t`: the text is put together from those of the children, in their order.
* `Node.text_composed`: so is the text of every node.
* `Node.write_neutral`: writing a node changes nothing but the text, and the text depends
  on the mode only.
-/

namespace Shellwright.Script

open Shellwright.Core

/-! ## Nodes -/

/-- What a writer can be asked for. -/
inductive Node where
  /-- Functions one after the other. -/
  | functions (fs : List Function)
  | function (f : Function)
  | block (stmts : List Stmt)
  | stmt (s : Stmt)
  | assignment (a : Assignment)
  | expr (e : Expr)

namespace Node

def write : Node → Writing Unit
  | .functions fs => writeFunctions fs
  | .function f => writeFunction f
  | .block stmts => writeBlock stmts (writeStmts stmts)
  | .stmt s => writeStmt s
  | .assignment a => writeAssign a.var a.value
  | .expr e => writeExpr e

def text (m : Mode) : Node → Except Fault String
  | .functions fs => functionsText m fs
  | .function f => functionText m f
  | .block stmts => do
    let lines ← stmtsText (Change.deeper.apply m) stmts
    return blockText m [] stmts lines
  | .stmt s => stmtText m s
  | .assignment a => assignText m a.var a.value
  | .expr e => exprText m e

/-- A node appends its text to what is written before it, and leaves the writer idle. -/
theorem appends (node : Node) (m : Mode) : AppendsIdle node.write m (node.text m) := by
  cases node with
  | functions fs => exact appends_writeFunctions fs m
  | function f => exact appends_writeFunction f m
  | block stmts => exact appends_writeBlock stmts (appends_writeStmts stmts _)
  | stmt s => exact appends_writeStmt s m
  | assignment a => exact (appends_writeAssign a.var a.value m).idle
  | expr e => exact (appends_writeExpr e m).idle

/-- From every writer in this mode that has nothing pending, the node is written, and its
text is this one. -/
def Writes (node : Node) (m : Mode) (t : String) : Prop :=
  ∀ w : Writer, w.mode = m → w.pending = none → node.write w = .ok () (w.append t)

/-- From every writer in this mode that has nothing pending, writing the node comes to this
fault, with some text written before it. -/
def Fails (node : Node) (m : Mode) (fault : Fault) : Prop :=
  ∀ w : Writer, w.mode = m → w.pending = none → ∃ t, node.write w = .error fault (w.append t)

/-- A node whose text is known is written as that text. -/
theorem writes_of_text {node : Node} {m : Mode} {t : String} (text : node.text m = .ok t) :
    node.Writes m t := by
  intro w hw idle
  have appends := node.appends m w hw idle
  rwa [text] at appends

theorem fails_of_text {node : Node} {m : Mode} {fault : Fault}
    (text : node.text m = .error fault) :
    node.Fails m fault := by
  intro w hw idle
  have appends := node.appends m w hw idle
  rwa [text] at appends

end Node

/-! ## Children -/

/-- What is written inside an expression, and in which modes. The operands of an operator have
one mode, and their types have a part in it: they tell whether texts are compared. -/
def exprChildren (m : Mode) : Expr → List (Node × Mode)
  | .binary _ op left right =>
    let inner := { m with
      decide := !op.isLogical, quote := comparesText op left right && !op.isArithmetic }
    [(.expr left, inner), (.expr right, inner)]
  | .unary _ .negate operand =>
    [(.expr operand, if operand.isNumber then m
      else { m with quote := false, substitute := true })]
  | .unary _ .not operand => [(.expr operand, { m with decide := false })]
  | .call _ _ args => args.map fun arg => (.expr arg, { m with substitute := true })
  | .stream _ _ left right =>
    [(.expr left, { m with substitute := false }), (.expr right, { m with substitute := false })]
  | _ => []

/-- What is written inside an expression that is run for its effect. -/
def effectChildren (m : Mode) : Expr → List (Node × Mode)
  | .stream _ _ left right =>
    [(.expr left, { m with substitute := false }), (.expr right, { m with substitute := false })]
  | e => [(.expr e, m)]

def boundChildren (m : Mode) (lower : Expr) : Option Expr → List (Node × Mode)
  | some upper =>
    [(.expr lower, { m with substitute := true }), (.expr upper, { m with substitute := true })]
  | none => [(.expr lower, { m with substitute := true, quote := false })]

/-- The conditions and the blocks of the branches after the first one. -/
def elseChildren (m : Mode) : ElseChain → List (Node × Mode)
  | .done => []
  | .elseIf cond body otherwise =>
    [(.expr cond, conditionMode m cond), (.block body, m)] ++ elseChildren m otherwise
  | .final body => [(.block body, m)]

def stmtChildren (m : Mode) : Stmt → List (Node × Mode)
  | .assign v value => [(.assignment ⟨v, value⟩, m)]
  | .branch cond body otherwise =>
    [(.expr cond, conditionMode m cond), (.block body, { m with braces := false })]
      ++ elseChildren { m with braces := false } otherwise
  | .loop _ lower upper body =>
    boundChildren m lower upper ++ [(.block body, { m with braces := false })]
  | .ret value => [(.expr value, { m with substitute := true })]
  | .jump _ | .load _ => []
  | .expr e => effectChildren m e

/-- The statements of a block, which stand one level further in. -/
def blockChildren (m : Mode) (stmts : List Stmt) : List (Node × Mode) :=
  stmts.map fun stmt => (.stmt stmt, Change.deeper.apply m)

/-- What is written inside a node that is written in a given mode, in order, and the modes
in which this begins. -/
def Node.children (m : Mode) : Node → List (Node × Mode)
  | .functions fs => fs.map fun f => (.function f, m)
  | .function f => blockChildren m (f.body.getD [])
  | .block stmts => blockChildren m stmts
  | .stmt s => stmtChildren m s
  | .assignment a => [(.expr a.value, { m with substitute := true })]
  | .expr e => exprChildren m e

/-! ## Texts put together -/

/-- A text that is put together from the texts of children, in their order, each of which is what
the child has written in its mode whatever was written before it. -/
inductive Composed : List (Node × Mode) → String → Prop
  | plain (t : String) : Composed [] t
  | child {node : Node} {m : Mode} {t : String} : node.Writes m t → Composed [(node, m)] t
  | join {cs ds : List (Node × Mode)} {t u : String} :
    Composed cs t → Composed ds u → Composed (cs ++ ds) (t ++ u)

namespace Composed

variable {cs : List (Node × Mode)} {t : String}

theorem after (h : Composed cs t) (u : String) : Composed cs (u ++ t) :=
  (Composed.plain u).join h

theorem before (h : Composed cs t) (u : String) : Composed cs (t ++ u) := by
  simpa using h.join (.plain u)

theorem ofExpr {e : Expr} {m : Mode} (text : exprText m e = .ok t) : Composed [(.expr e, m)] t :=
  .child (Node.writes_of_text text)

theorem ofBlock {stmts : List Stmt} {m : Mode}
    (lines : stmtsText (Change.deeper.apply m) stmts = .ok t) :
    Composed [(.block stmts, m)] (blockText m [] stmts t) := by
  refine .child (Node.writes_of_text ?_)
  rw [Node.text, lines]
  rfl

end Composed

theorem argsText_composed {m : Mode} {args : List Expr} {t : String}
    (h : argsText m args = .ok t) :
    Composed (args.map fun arg => (.expr arg, m)) t := by
  induction args generalizing t with
  | nil => exact .plain t
  | cons arg rest ih =>
    rw [argsText] at h
    obtain ⟨text, isText, h⟩ := bind_eq_ok.mp h
    obtain ⟨others, areOthers, h⟩ := bind_eq_ok.mp h
    cases h
    exact ((((Composed.ofExpr isText).after _).before _).after _).join (ih areOthers)

/-- The text of an expression is put together from those of its children. -/
theorem exprText_composed {m : Mode} {e : Expr} {t : String} (h : exprText m e = .ok t) :
    Composed (exprChildren m e) t := by
  cases e with
  | binary ty op left right =>
    rw [exprText] at h
    obtain ⟨l, isLeft, h⟩ := bind_eq_ok.mp h
    obtain ⟨r, isRight, h⟩ := bind_eq_ok.mp h
    cases h
    have first := (((Composed.ofExpr isLeft).after (operandOpen op left)).before
      (operandClose op left)).after (binaryOpen m op (comparesText op left right))
    have second := ((Composed.ofExpr isRight).after (operandOpen op right)).before
      (operandClose op right)
    exact ((first.before _).join second).before _
  | unary ty op operand =>
    cases op with
    | negate =>
      rw [exprText] at h
      rw [exprChildren]
      split at h
      case isTrue number =>
        obtain ⟨s, text, h⟩ := bind_eq_ok.mp h
        cases h
        rw [if_pos number]
        exact (Composed.ofExpr text).after _
      case isFalse other =>
        obtain ⟨s, text, h⟩ := bind_eq_ok.mp h
        cases h
        rw [if_neg other]
        exact ((Composed.ofExpr text).after _).before _
    | not =>
      rw [exprText] at h
      obtain ⟨s, text, h⟩ := bind_eq_ok.mp h
      cases h
      exact (((Composed.ofExpr text).after _).before _).before _
  | call ty name args =>
    rw [exprText] at h
    obtain ⟨s, text, h⟩ := bind_eq_ok.mp h
    cases h
    exact ((argsText_composed text).after _).before _
  | stream ty op left right =>
    rw [exprText] at h
    obtain ⟨word, -, h⟩ := bind_eq_ok.mp h
    obtain ⟨l, isLeft, h⟩ := bind_eq_ok.mp h
    obtain ⟨r, isRight, h⟩ := bind_eq_ok.mp h
    cases h
    have first := ((Composed.ofExpr isLeft).after "$(").before (" " ++ word ++ " ")
    exact (first.join (.ofExpr isRight)).before _
  | _ => exact .plain t

/-- So is the text of an expression that is run as a statement. -/
theorem effectText_composed {m : Mode} {e : Expr} {t : String} (h : effectText m e = .ok t) :
    Composed (effectChildren m e) t := by
  cases e with
  | stream ty op left right =>
    rw [effectText] at h
    obtain ⟨word, -, h⟩ := bind_eq_ok.mp h
    obtain ⟨l, isLeft, h⟩ := bind_eq_ok.mp h
    obtain ⟨r, isRight, h⟩ := bind_eq_ok.mp h
    cases h
    exact ((Composed.ofExpr isLeft).before (" " ++ word ++ " ")).join (.ofExpr isRight)
  | _ => exact .ofExpr h

theorem conditionText_composed {m : Mode} {cond : Expr} {t : String}
    (h : conditionText m cond = .ok t) : Composed [(.expr cond, conditionMode m cond)] t := by
  obtain ⟨s, text, h⟩ := bind_eq_ok.mp h
  cases h
  exact (Composed.ofExpr text).before _

theorem boundsText_composed {m : Mode} {lower : Expr} {upper : Option Expr} {t : String}
    (h : boundsText m lower upper = .ok t) : Composed (boundChildren m lower upper) t := by
  cases upper with
  | none => exact .ofExpr h
  | some upper =>
    obtain ⟨l, isLower, h⟩ := bind_eq_ok.mp h
    obtain ⟨u, isUpper, h⟩ := bind_eq_ok.mp h
    cases h
    have both := ((Composed.ofExpr isLower).before " ").join (.ofExpr isUpper)
    exact (both.after _).before _

/-- So is the text of the branches after the first one, by induction on them. -/
theorem elseText_composed : ∀ {chain : ElseChain} {m : Mode} {t : String},
    elseText m chain = .ok t → Composed (elseChildren m chain) t
  | .done, m, t, _ => .plain t
  | .elseIf cond body otherwise, m, t, h => by
    rw [elseText] at h
    obtain ⟨test, isTest, h⟩ := bind_eq_ok.mp h
    obtain ⟨lines, areLines, h⟩ := bind_eq_ok.mp h
    obtain ⟨rest, isRest, h⟩ := bind_eq_ok.mp h
    cases h
    have first :=
      ((conditionText_composed isTest).after (m.margin ++ "elif [[ ")).before " ]]; then\n"
    exact (first.join (.ofBlock areLines)).join (elseText_composed isRest)
  | .final body, m, t, h => by
    rw [elseText] at h
    obtain ⟨lines, areLines, h⟩ := bind_eq_ok.mp h
    cases h
    exact (Composed.ofBlock areLines).after _

/-- So is the text of a statement. -/
theorem stmtText_composed {m : Mode} {stmt : Stmt} {t : String} (h : stmtText m stmt = .ok t) :
    Composed (stmtChildren m stmt) t := by
  cases stmt with
  | assign v value => exact .child (Node.writes_of_text h)
  | branch cond body otherwise =>
    rw [stmtText] at h
    obtain ⟨test, isTest, h⟩ := bind_eq_ok.mp h
    obtain ⟨lines, areLines, h⟩ := bind_eq_ok.mp h
    obtain ⟨rest, isRest, h⟩ := bind_eq_ok.mp h
    cases h
    have first := ((conditionText_composed isTest).after "if [[ ").before " ]]; then\n"
    have branches := (Composed.ofBlock areLines).join (elseText_composed isRest)
    exact ((first.join branches).before _).before _
  | loop v lower upper body =>
    rw [stmtText] at h
    obtain ⟨bounds, areBounds, h⟩ := bind_eq_ok.mp h
    obtain ⟨lines, areLines, h⟩ := bind_eq_ok.mp h
    cases h
    have first :=
      ((boundsText_composed areBounds).after ("for " ++ v.name ++ " in ")).before "; do\n"
    exact ((first.join (.ofBlock areLines)).before _).before _
  | ret value =>
    rw [stmtText] at h
    obtain ⟨s, text, h⟩ := bind_eq_ok.mp h
    cases h
    exact (((Composed.ofExpr text).after _).before _).before _
  | jump | load => exact .plain t
  | expr e => exact effectText_composed h

/-- The lines of statements. An import has no line, and no text of its own either. -/
theorem stmtsText_composed {m : Mode} {stmts : List Stmt} {t : String}
    (h : stmtsText m stmts = .ok t) : Composed (stmts.map fun stmt => (.stmt stmt, m)) t := by
  induction stmts generalizing t with
  | nil => exact .plain t
  | cons stmt rest ih =>
    have line {s : String} (text : stmtText m stmt = .ok s) : Composed [(.stmt stmt, m)] s :=
      .child (Node.writes_of_text text)
    unfold stmtsText at h
    cases stmt
    case load => exact (line rfl).join (ih h)
    all_goals
      obtain ⟨s, text, h⟩ := bind_eq_ok.mp h
      obtain ⟨others, areOthers, h⟩ := bind_eq_ok.mp h
      cases h
      exact (((line text).after _).before _).join (ih areOthers)

theorem blockText_composed {m : Mode} {stmts : List Stmt} {t : String} (params : List String)
    (h : stmtsText (Change.deeper.apply m) stmts = .ok t) :
    Composed (blockChildren m stmts) (blockText m params stmts t) :=
  ((((stmtsText_composed h).after _).before _).after _).before _

/-- The text of functions is put together from theirs. -/
theorem functionsText_composed {m : Mode} {fs : List Function} {t : String}
    (h : functionsText m fs = .ok t) : Composed (fs.map fun f => (.function f, m)) t := by
  induction fs generalizing t with
  | nil => exact .plain t
  | cons f rest ih =>
    obtain ⟨s, text, h⟩ := bind_eq_ok.mp h
    obtain ⟨others, areOthers, h⟩ := bind_eq_ok.mp h
    cases h
    have first : Composed [(.function f, m)] s := .child (Node.writes_of_text text)
    exact first.join (ih areOthers)

/-- The text of a node is put together from those of its children. -/
theorem Node.text_composed {node : Node} {m : Mode} {t : String} (h : node.text m = .ok t) :
    Composed (node.children m) t := by
  cases node with
  | functions fs => exact functionsText_composed h
  | function f =>
    rw [Node.text, functionText] at h
    rw [Node.children]
    cases body : f.body with
    | none => exact .plain t
    | some stmts =>
      rw [body] at h
      obtain ⟨lines, areLines, h⟩ := bind_eq_ok.mp h
      cases h
      exact (blockText_composed _ areLines).after _
  | block stmts =>
    obtain ⟨lines, areLines, h⟩ := bind_eq_ok.mp h
    cases h
    exact blockText_composed [] areLines
  | stmt s => exact stmtText_composed h
  | assignment a =>
    obtain ⟨s, text, h⟩ := bind_eq_ok.mp h
    cases h
    exact (Composed.ofExpr text).after _
  | expr e => exact exprText_composed h

/-! ## Neutrality -/

/-- Writing a node ends with the writer as it was, apart from some text that is appended: in
its mode, with nothing pending, and with the same scopes open. So it is if it fails, at
whatever depth. If it succeeds, it does so from every writer in that mode, with the same
text, and this text is put together from those of the children of the node, whatever stands
beside each of them. -/
theorem Node.write_neutral (node : Node) (w : Writer) (idle : w.pending = none) :
    (∀ after, node.write w = .ok () after → ∃ t, after = w.append t ∧ node.Writes w.mode t ∧
      Composed (node.children w.mode) t) ∧
    ∀ fault after, node.write w = .error fault after →
      (∃ t, after = w.append t) ∧ node.Fails w.mode fault := by
  cases text : node.text w.mode with
  | ok t =>
    have written := Node.writes_of_text text w rfl idle
    constructor
    · intro after isAfter
      cases written.symm.trans isAfter
      exact ⟨t, rfl, Node.writes_of_text text, Node.text_composed text⟩
    · intro fault after failed
      cases written.symm.trans failed
  | error fault =>
    obtain ⟨t, failed⟩ := Node.fails_of_text text w rfl idle
    constructor
    · intro after isAfter
      cases failed.symm.trans isAfter
    · intro fault' after isAfter
      cases failed.symm.trans isAfter
      exact ⟨⟨t, rfl⟩, Node.fails_of_text text⟩

/-- A writer that has written something and stands inside an open scope, in a mode that no script
begins in. -/
def busyWriter : Writer :=
  { target := .bash, library := true, out := "# before", mode := ⟨false, true, false, true, 2⟩,
    scopes := [.initial] }

/-- A function in which an expression is an argument in a condition in a loop. -/
def busyFunction (arg : Expr) : Node :=
  let a : Variable := ⟨"a", false⟩
  let test :=
    Expr.binary .boolean .eq (.var (.undef) a) (.call (.undef) "g" [.var (.undef) a, arg])
  .function ⟨"f", [a], some [.loop ⟨"i", false⟩ (.int .integer 1) (some (.var (.undef) a))
    [.branch test [.jump .leave] (.final [.load "m"])]]⟩

/-- An expression that no target has a word for. -/
def redirected : Expr := .stream .text .output (.text .text []) (.text .text [])

/-- The function is written with a plain argument, and not with a redirection in its place. -/
theorem Node.write_neutral_busy : busyWriter.pending = none ∧
    (∃ t, (busyFunction (.bool .boolean true)).write busyWriter = .ok () (busyWriter.append t) ∧
      (busyFunction (.bool .boolean true)).Writes busyWriter.mode t ∧
      Composed ((busyFunction (.bool .boolean true)).children busyWriter.mode) t) ∧
    ∃ t, (busyFunction redirected).write busyWriter =
        .error .outputRedirection (busyWriter.append t) ∧
      (busyFunction redirected).Fails busyWriter.mode .outputRedirection := by
  refine ⟨rfl, ?_, ?_⟩
  · have runs : (match (busyFunction (.bool .boolean true)).write busyWriter with
        | .ok _ _ => true
        | .error _ _ => false) = true := by decide +kernel
    cases written : (busyFunction (.bool .boolean true)).write busyWriter with
    | ok _ after =>
      obtain ⟨t, rfl, writes, composed⟩ := (write_neutral _ busyWriter rfl).1 _ written
      exact ⟨t, rfl, writes, composed⟩
    | error fault after =>
      rw [written] at runs
      cases runs
  · have runs : (match (busyFunction redirected).write busyWriter with
        | .ok _ _ => none
        | .error fault _ => some fault) = some .outputRedirection := by decide +kernel
    cases failed : (busyFunction redirected).write busyWriter with
    | ok _ after =>
      rw [failed] at runs
      cases runs
    | error fault after =>
      rw [failed] at runs
      cases runs
      obtain ⟨⟨t, rfl⟩, fails⟩ := (write_neutral _ busyWriter rfl).2 _ _ failed
      exact ⟨t, rfl, fails⟩

end Shellwright.Script
