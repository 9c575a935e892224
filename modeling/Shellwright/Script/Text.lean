import Shellwright.Script.Writer

/-!
# What is written

The text of each part of a program as a function of the part and the mode, and of nothing else. A
writer that is asked for a part appends just this text and is otherwise as before; if the part
cannot be written, the writer has appended some text and fails with the same fault.
-/

namespace Shellwright.Script

open Shellwright.Core

/-! ## Texts -/

mutual

/-- The text of an expression. -/
def exprText (m : Mode) : Expr → Except Fault String
  | .int _ value => .ok (intText value)
  | .fraction _ value => .ok (fractionText value)
  | .bool _ value => .ok (boolText value)
  | .text _ segments => .ok ("\"" ++ segmentsText { m with quote := false } segments ++ "\"")
  | .command _ segments =>
    .ok (substitutionOpen m ++ segmentsText { m with quote := false } segments
      ++ substitutionClose m)
  | .var _ v => .ok (variableText m false v)
  | .binary _ op left right => do
    let asText := comparesText op left right
    let inner := { m with decide := !op.isLogical, quote := asText && !op.isArithmetic }
    let l ← exprText inner left
    let r ← exprText inner right
    return binaryOpen m op asText
      ++ (operandOpen op left ++ l ++ operandClose op left)
      ++ (" " ++ operatorWord asText op ++ " ")
      ++ (operandOpen op right ++ r ++ operandClose op right)
      ++ binaryClose m op
  | .unary _ .negate operand =>
    if operand.isNumber then do
      let text ← exprText m operand
      return "-" ++ text
    else do
      let text ← exprText { m with quote := false, substitute := true } operand
      return "$((-(" ++ text ++ ")))"
  | .unary _ .not operand => do
    let text ← exprText { m with decide := false } operand
    return "$(! [[ " ++ text ++ testClose operand ++ decisionClose
  | .call _ name args => do
    let text ← argsText { m with substitute := true } args
    return substitutionOpen m ++ name ++ text ++ substitutionClose m
  | .stream _ op left right => do
    let word ← streamWord op
    let l ← exprText { m with substitute := false } left
    let r ← exprText { m with substitute := false } right
    return "$(" ++ l ++ (" " ++ word ++ " ") ++ r ++ ")"

/-- The text of arguments, in the mode for arguments. -/
def argsText (m : Mode) : List Expr → Except Fault String
  | [] => .ok ""
  | arg :: rest => do
    let text ← exprText m arg
    let others ← argsText m rest
    return " " ++ (argMark m arg ++ text ++ argMark m arg) ++ others

end

/-- The text of an assignment. -/
def assignText (m : Mode) (v : Variable) (value : Expr) : Except Fault String := do
  let text ← exprText { m with substitute := true } value
  return assignOpen v ++ text

/-- The mode for a condition. -/
def conditionMode (m : Mode) (cond : Expr) : Mode :=
  { m with substitute := true, decide := m.decide && !cond.isComparison }

/-- The text of the test of a condition. -/
def conditionText (m : Mode) (cond : Expr) : Except Fault String := do
  let text ← exprText (conditionMode m cond) cond
  return text ++ testClose cond

/-- The text of what a loop runs over. -/
def boundsText (m : Mode) (lower : Expr) : Option Expr → Except Fault String
  | some upper => do
    let l ← exprText { m with substitute := true } lower
    let u ← exprText { m with substitute := true } upper
    return "$(seq " ++ (l ++ " " ++ u) ++ ")"
  | none => exprText { m with substitute := true, quote := false } lower

/-- The text of the return of a value. -/
def returnText (m : Mode) (value : Expr) : Except Fault String := do
  let text ← exprText { m with substitute := true } value
  return "echo " ++ returnMark value ++ text ++ returnMark value ++ "; exit"

/-- The text of an expression that is run for its effect. -/
def effectText (m : Mode) : Expr → Except Fault String
  | .stream _ op left right => do
    let word ← streamWord op
    let l ← exprText { m with substitute := false } left
    let r ← exprText { m with substitute := false } right
    return l ++ (" " ++ word ++ " ") ++ r
  | e => exprText m e

/-- The text of a block, given that of its lines, which stand one level further in. -/
def blockText (m : Mode) (params : List String) (stmts : List Stmt) (lines : String) : String :=
  let inner := Change.deeper.apply m
  blockOpen m ++ (paramLines inner 1 params ++ lines ++ placeholder inner stmts) ++ blockClose m

mutual

/-- The text of a statement. -/
def stmtText (m : Mode) : Stmt → Except Fault String
  | .assign v value => assignText m v value
  | .branch cond body otherwise => do
    let inner := { m with braces := false }
    let test ← conditionText m cond
    let lines ← stmtsText (Change.deeper.apply inner) body
    let rest ← elseText inner otherwise
    return "if [[ " ++ test ++ " ]]; then\n" ++ (blockText inner [] body lines ++ rest) ++
      m.margin ++ "fi"
  | .loop v lower upper body => do
    let inner := { m with braces := false }
    let bounds ← boundsText m lower upper
    let lines ← stmtsText (Change.deeper.apply inner) body
    return ("for " ++ v.name ++ " in ") ++ bounds ++ "; do\n" ++ blockText inner [] body lines
      ++ m.margin ++ "done"
  | .ret value => returnText m value
  | .jump jump => .ok jump.word
  | .load _ => .ok ""
  | .expr expr => effectText m expr

/-- The lines of statements. -/
def stmtsText (m : Mode) : List Stmt → Except Fault String
  | [] => .ok ""
  | .load _ :: rest => stmtsText m rest
  | stmt :: rest => do
    let text ← stmtText m stmt
    let others ← stmtsText m rest
    return m.margin ++ text ++ ";\n" ++ others

/-- The text of the branches after the first one. -/
def elseText (m : Mode) : ElseChain → Except Fault String
  | .done => .ok ""
  | .elseIf cond body otherwise => do
    let test ← conditionText m cond
    let lines ← stmtsText (Change.deeper.apply m) body
    let rest ← elseText m otherwise
    return m.margin ++ "elif [[ " ++ test ++ " ]]; then\n" ++ blockText m [] body lines ++ rest
  | .final body => do
    let lines ← stmtsText (Change.deeper.apply m) body
    return m.margin ++ "else\n" ++ blockText m [] body lines

end

/-- The text of a function. -/
def functionText (m : Mode) (f : Function) : Except Fault String :=
  match f.body with
  | none => .ok ""
  | some body => do
    let lines ← stmtsText (Change.deeper.apply m) body
    return ("function " ++ f.name ++ " () ") ++ blockText m (f.params.map (·.name)) body lines

/-- The text of functions. -/
def functionsText (m : Mode) : List Function → Except Fault String
  | [] => .ok ""
  | f :: rest => do
    let text ← functionText m f
    let others ← functionsText m rest
    return text ++ others

/-- The text of the values of global variables. -/
def globalsText (m : Mode) : List Assignment → Except Fault String
  | [] => .ok ""
  | a :: rest => do
    let text ← assignText m a.var a.value
    let others ← globalsText m rest
    return text ++ ";\n" ++ others

/-- The text of a script after its first line. -/
def moduleText (m : Mode) (library : Bool) (module : Module) : Except Fault String := do
  let functions ← functionsText m module.functions
  let globals ← globalsText m module.globals
  let entry ← entryCall library module
  return functions ++ globals ++ entry

/-- The text of a list of functions is that of its parts, one after the other. -/
theorem functionsText_append (m : Mode) (xs ys : List Function) :
    functionsText m (xs ++ ys) = do
      let first ← functionsText m xs
      let rest ← functionsText m ys
      return first ++ rest := by
  induction xs with
  | nil =>
    cases text : functionsText m ys with
    | error => simp [functionsText, text, bind, Except.bind]
    | ok t => simp [functionsText, text, bind, Except.bind, pure, Except.pure]
  | cons f xs ih =>
    rw [List.cons_append, functionsText, functionsText, ih]
    cases functionText m f with
    | error => rfl
    | ok t =>
      cases functionsText m xs with
      | error => rfl
      | ok first =>
        cases functionsText m ys with
        | error => rfl
        | ok rest => simp [bind, Except.bind, pure, Except.pure, String.append_assoc]

/-! ## Writers append texts -/

/-- From this writer an act appends a text, or appends some text and fails. Nothing else
of the writer changes. -/
def AppendsAt (act : Writing Unit) (w : Writer) (text : Except Fault String) : Prop :=
  match text with
  | .ok t => act w = .ok () (w.append t)
  | .error fault => ∃ t, act w = .error fault (w.append t)

/-- In a given mode an act appends a text, or appends some text and fails. Nothing else
of the writer changes. -/
def Appends (act : Writing Unit) (m : Mode) (text : Except Fault String) : Prop :=
  ∀ w : Writer, w.mode = m → AppendsAt act w text

/-- So it does where no parameters were handed to the block that comes next. -/
def AppendsIdle (act : Writing Unit) (m : Mode) (text : Except Fault String) : Prop :=
  ∀ w : Writer, w.mode = m → w.pending = none → AppendsAt act w text

theorem Writer.append_append (w : Writer) (s t : String) :
    (w.append s).append t = w.append (s ++ t) := by
  simp [Writer.append, String.append_assoc]

namespace AppendsAt

variable {act act' : Writing Unit} {w : Writer} {r r' : Except Fault String}

/-- One act after the other appends one text after the other. -/
theorem andThen (h : AppendsAt act w r) (h' : ∀ s, AppendsAt act' (w.append s) r') :
    AppendsAt (do act; act') w (do let s ← r; let t ← r'; return s ++ t) := by
  cases r with
  | error fault =>
    obtain ⟨t, eq⟩ := h
    exact ⟨t, by simp [bind, EStateM.bind, eq]⟩
  | ok s =>
    have first : act w = .ok () (w.append s) := h
    have second := h' s
    cases r' with
    | error fault =>
      obtain ⟨t, eq⟩ := second
      exact ⟨s ++ t, by simp [bind, EStateM.bind, first, eq, Writer.append_append]⟩
    | ok t =>
      have second : act' (w.append s) = .ok () ((w.append s).append t) := second
      show _ = _
      simp [bind, EStateM.bind, first, second, Writer.append_append]

/-- A scope is closed whatever happens in it. -/
theorem within {change : Change} (h : AppendsAt act (w.openScope change) r) :
    AppendsAt (within change act) w r := by
  cases r with
  | error fault =>
    obtain ⟨t, eq⟩ := h
    exact ⟨t, by simp only [Script.within, eq]; rfl⟩
  | ok t =>
    have eq : act (w.openScope change) = .ok () ((w.openScope change).append t) := h
    show _ = _
    simp only [Script.within, eq]
    rfl

/-- The same holds of an act that does the same from this writer. -/
theorem congr (h : AppendsAt act w r) (same : act' w = act w) : AppendsAt act' w r := by
  unfold AppendsAt
  rw [same]
  exact h

end AppendsAt

namespace Appends

variable {act act' : Writing Unit} {m : Mode} {r r' : Except Fault String}

theorem put (m : Mode) (t : String) : Appends (put t) m (.ok t) := fun _ _ => rfl

/-- One act after the other appends one text after the other. -/
theorem andThen (h : Appends act m r) (h' : Appends act' m r') :
    Appends (do act; act') m (do let s ← r; let t ← r'; return s ++ t) :=
  fun w hw => (h w hw).andThen fun s => h' (w.append s) hw

/-- An act in a changed mode appends what it appends in that mode. -/
theorem within {change : Change} (h : Appends act (change.apply m) r) :
    Appends (within change act) m r :=
  fun w hw => (h (w.openScope change) (by simp [Writer.openScope, hw])).within

/-- An act that looks at the mode first. -/
theorem ofMode {f : Mode → Writing Unit} (h : Appends (f m) m r) :
    Appends (do f (← currentMode)) m r := by
  intro w hw
  have := h w hw
  subst hw
  exact this

/-- An act that needs a value first. -/
theorem ofAttempt {α : Type} {a : Except Fault α} {f : α → Writing Unit}
    {g : α → Except Fault String} (h : ∀ x, a = .ok x → Appends (f x) m (g x)) :
    Appends (do f (← attempt a)) m (a >>= g) := by
  intro w hw
  cases a with
  | error fault => exact ⟨"", by simp [bind, EStateM.bind, attempt, Writer.append]⟩
  | ok x => exact h x rfl w hw

theorem congr (h : Appends act m r) (eq : r = r') : Appends act m r' := eq ▸ h

/-- What appends whatever was handed over does so where nothing was. -/
theorem idle (h : Appends act m r) : AppendsIdle act m r := fun w hw _ => h w hw

end Appends

namespace AppendsIdle

variable {act act' : Writing Unit} {m : Mode} {r r' : Except Fault String}

theorem put (m : Mode) (t : String) : AppendsIdle (put t) m (.ok t) := (Appends.put m t).idle

theorem andThen (h : AppendsIdle act m r) (h' : AppendsIdle act' m r') :
    AppendsIdle (do act; act') m (do let s ← r; let t ← r'; return s ++ t) :=
  fun w hw idle => (h w hw idle).andThen fun s => h' (w.append s) hw idle

theorem within {change : Change} (h : AppendsIdle act (change.apply m) r) :
    AppendsIdle (within change act) m r :=
  fun w hw idle => (h (w.openScope change) (by simp [Writer.openScope, hw]) idle).within

/-- An act that asks for the mode gets the one it is in. -/
theorem ofMode {f : Mode → Writing Unit} (h : AppendsIdle (f m) m r) :
    AppendsIdle (do f (← currentMode)) m r := by
  intro w hw idle
  have := h w hw idle
  subst hw
  exact this

theorem congr (h : AppendsIdle act m r) (eq : r = r') : AppendsIdle act m r' := eq ▸ h

end AppendsIdle

theorem appends_putSegments (segments : List Segment) (m : Mode) :
    Appends (putSegments segments) m (.ok (segmentsText m segments)) :=
  fun w hw => by subst hw; rfl

theorem appends_putMargin (m : Mode) : Appends putMargin m (.ok m.margin) :=
  fun w hw => by subst hw; rfl

mutual

/-- Writing an expression appends its text. An expression and the arguments in it are taken
together, by their structure. -/
theorem appends_writeExpr : ∀ (e : Expr) (m : Mode), Appends (writeExpr e) m (exprText m e)
  | .int _ _, m => .put m _
  | .fraction _ _, m => .put m _
  | .bool _ _, m => .put m _
  | .text _ segments, m =>
    (Appends.put _ _ |>.andThen <|
      (appends_putSegments segments _).within.andThen (.put _ _)).congr (by
        simp [exprText, Change.apply, bind, Except.bind, pure, Except.pure, String.append_assoc])
  | .command _ segments, m => by
    unfold writeExpr
    refine .ofMode <| (Appends.put _ _ |>.andThen <|
      (appends_putSegments segments _).within.andThen (.put _ _)).congr ?_
    simp [exprText, Change.apply, bind, Except.bind, pure, Except.pure, String.append_assoc]
  | .var _ v, m => by
    unfold writeExpr
    exact .ofMode (.put m _)
  | .binary _ op left right, m => by
    unfold writeExpr
    refine .ofMode <| (Appends.put _ _ |>.andThen <|
      (((Appends.put _ _).andThen <| (appends_writeExpr left _).andThen <|
        (Appends.put _ _).andThen <| (Appends.put _ _).andThen <| (Appends.put _ _).andThen <|
        (appends_writeExpr right _).andThen
          (.put _ _)).within.within).andThen (.put _ _)).congr ?_
    simp only [exprText, Change.apply]
    cases exprText _ left <;> cases exprText _ right <;>
      simp [bind, Except.bind, pure, Except.pure, String.append_assoc]
  | .unary _ .negate operand, m => by
    unfold writeExpr exprText
    split
    · refine ((Appends.put _ _).andThen <| appends_writeExpr operand _).congr ?_
      cases exprText m operand <;> simp [bind, Except.bind, pure, Except.pure]
    · refine ((Appends.put _ _).andThen <|
        (appends_writeExpr operand _).within.within.andThen (.put _ _)).congr ?_
      simp only [Change.apply]
      cases exprText _ operand <;>
        simp [bind, Except.bind, pure, Except.pure, String.append_assoc]
  | .unary _ .not operand, m => by
    unfold writeExpr
    refine ((Appends.put _ _).andThen <| (appends_writeExpr operand _).within.andThen <|
      (Appends.put _ _).andThen (.put _ _)).congr ?_
    simp only [exprText, Change.apply]
    cases exprText _ operand <;> simp [bind, Except.bind, pure, Except.pure, String.append_assoc]
  | .call _ name args, m => by
    unfold writeExpr
    refine .ofMode <| ((Appends.put _ _).andThen <| (Appends.put _ _).andThen <|
      (appends_writeArgs args m).andThen (.put _ _)).congr ?_
    simp only [exprText]
    cases argsText _ args <;> simp [bind, Except.bind, pure, Except.pure, String.append_assoc]
  | .stream _ op left right, m => by
    unfold writeExpr exprText
    refine .ofAttempt fun word _ => ((Appends.put _ _).andThen <|
      (((appends_writeExpr left _).andThen <| (Appends.put _ _).andThen <|
        appends_writeExpr right _).within).andThen (.put _ _)).congr ?_
    simp only [Change.apply]
    cases exprText _ left <;> cases exprText _ right <;>
      simp [bind, Except.bind, pure, Except.pure, String.append_assoc]

/-- Writing arguments appends their text, in the mode for arguments. -/
theorem appends_writeArgs : ∀ (args : List Expr) (m : Mode),
    Appends (writeArgs args) m (argsText { m with substitute := true } args)
  | [], m => .put m ""
  | arg :: rest, m => by
    unfold writeArgs
    refine ((Appends.put _ _).andThen <| Appends.andThen (Appends.within <|
      .ofMode <| (Appends.put _ _).andThen <| (appends_writeExpr arg _).andThen (.put _ _))
      (appends_writeArgs rest m)).congr ?_
    simp only [argsText, Change.apply]
    cases exprText _ arg <;> cases argsText _ rest <;>
      simp [bind, Except.bind, pure, Except.pure, String.append_assoc]

end

theorem appends_writeAssign (v : Variable) (value : Expr) (m : Mode) :
    Appends (writeAssign v value) m (assignText m v value) := by
  refine ((Appends.put _ _).andThen (appends_writeExpr value _).within).congr ?_
  simp only [assignText, Change.apply]
  cases exprText _ value <;> simp [bind, Except.bind, pure, Except.pure]

theorem appends_writeCondition (cond : Expr) (m : Mode) :
    Appends (writeCondition cond) m (conditionText m cond) := by
  unfold writeCondition conditionText conditionMode
  cases h : cond.isComparison
  · refine (((appends_writeExpr cond _).within).andThen (.put _ _)).congr ?_
    simp [Change.apply, bind, Except.bind, pure, Except.pure]
  · refine (((appends_writeExpr cond _).within.within).andThen (.put _ _)).congr ?_
    simp [Change.apply, bind, Except.bind, pure, Except.pure]

theorem appends_writeBounds (lower : Expr) (upper : Option Expr) (m : Mode) :
    Appends (writeBounds lower upper) m (boundsText m lower upper) := by
  cases upper with
  | none => exact (appends_writeExpr lower _).within.within
  | some upper =>
    refine ((Appends.put _ _).andThen <| Appends.andThen (.within <|
      (appends_writeExpr lower _).andThen <| (Appends.put _ _).andThen <|
      appends_writeExpr upper _) (.put _ _)).congr ?_
    simp only [boundsText, Change.apply]
    cases exprText _ lower <;> cases exprText _ upper <;>
      simp [bind, Except.bind, pure, Except.pure, String.append_assoc]

theorem appends_writeReturn (value : Expr) (m : Mode) :
    Appends (writeReturn value) m (returnText m value) := by
  refine ((Appends.put _ _).andThen <| (Appends.put _ _).andThen <|
    (appends_writeExpr value _).within.andThen <| (Appends.put _ _).andThen (.put _ _)).congr ?_
  simp only [returnText, Change.apply]
  cases exprText _ value <;> simp [bind, Except.bind, pure, Except.pure, String.append_assoc]

theorem appends_writeEffect (e : Expr) (m : Mode) :
    Appends (writeEffect e) m (effectText m e) := by
  cases e
  case stream ty op left right =>
    refine (Appends.ofAttempt fun word _ => (Appends.within <|
      (appends_writeExpr left _).andThen <| (Appends.put _ _).andThen <|
      appends_writeExpr right _).congr ?_).congr rfl
    simp only [Change.apply]
    cases exprText _ left <;> cases exprText _ right <;>
      simp [bind, Except.bind, pure, Except.pure, String.append_assoc]
  all_goals exact appends_writeExpr _ m

/-- A block with parameters takes those that were handed over, and no block
inside it gets them. -/
theorem appends_writeBody {lines : Writing Unit} {m : Mode} {text : Except Fault String}
    (params : List String) (stmts : List Stmt)
    (h : AppendsIdle lines (Change.deeper.apply m) text) :
    AppendsIdle (writeBody params stmts lines) m
      (do let t ← text; return blockText m params stmts t) := by
  unfold writeBody
  refine .ofMode <| ((AppendsIdle.put _ _).andThen <| AppendsIdle.andThen (.within <| .ofMode <|
    (AppendsIdle.put _ _).andThen <| h.andThen (.put _ _)) (.put _ _)).congr ?_
  cases text <;>
    simp [blockText, bind, Except.bind, pure, Except.pure, String.append_assoc]

/-- A block takes the parameters that are handed to it, and leaves none. -/
theorem expect_writeBlock {w : Writer} (idle : w.pending = none) (params : List String)
    (stmts : List Stmt) (lines : Writing Unit) :
    (do expect params; writeBlock stmts lines : Writing Unit) w =
      writeBody params stmts lines w := by
  have back : { w with pending := none } = w := by rw [← idle]
  show writeBody params stmts lines { w with pending := none } = _
  rw [back]

/-- So does a block without parameters. -/
theorem appends_writeBlock {lines : Writing Unit} {m : Mode} {text : Except Fault String}
    (stmts : List Stmt) (h : AppendsIdle lines (Change.deeper.apply m) text) :
    AppendsIdle (writeBlock stmts lines) m (do let t ← text; return blockText m [] stmts t) := by
  intro w hw idle
  have same : writeBlock stmts lines w = writeBody [] stmts lines w := by
    show writeBody (w.pending.getD []) stmts lines { w with pending := none } = _
    rw [idle, Option.getD_none, ← idle]
  exact (appends_writeBody [] stmts h w hw idle).congr same

mutual

/-- Writing a statement appends its text. Blocks hold statements again, so these are taken
together with their lists and their branches. -/
theorem appends_writeStmt : ∀ (s : Stmt) (m : Mode), AppendsIdle (writeStmt s) m (stmtText m s)
  | .assign v value, m => (appends_writeAssign v value m).idle
  | .branch cond body otherwise, m => by
    unfold writeStmt
    refine ((AppendsIdle.put _ _).andThen <| (appends_writeCondition cond m).idle.andThen <|
      (AppendsIdle.put _ _).andThen <| AppendsIdle.andThen
        (.within <| (appends_writeBlock body (appends_writeStmts body _)).andThen <|
          appends_writeElse otherwise _) <|
      (appends_putMargin m).idle.andThen (.put _ _)).congr ?_
    simp only [stmtText, Change.apply]
    cases conditionText m cond <;> cases stmtsText _ body <;> cases elseText _ otherwise <;>
      simp [bind, Except.bind, pure, Except.pure, String.append_assoc]
  | .loop v lower upper body, m => by
    unfold writeStmt
    refine ((AppendsIdle.put _ _).andThen <| (appends_writeBounds lower upper m).idle.andThen <|
      (AppendsIdle.put _ _).andThen <| AppendsIdle.andThen
        (.within <| appends_writeBlock body (appends_writeStmts body _)) <|
      (appends_putMargin m).idle.andThen (.put _ _)).congr ?_
    simp only [stmtText, Change.apply]
    cases boundsText m lower upper <;> cases stmtsText _ body <;>
      simp [bind, Except.bind, pure, Except.pure, String.append_assoc]
  | .ret value, m => (appends_writeReturn value m).idle
  | .jump _, m => .put m _
  | .load _, m => .put m _
  | .expr expr, m => (appends_writeEffect expr m).idle

theorem appends_writeStmts : ∀ (stmts : List Stmt) (m : Mode),
    AppendsIdle (writeStmts stmts) m (stmtsText m stmts)
  | [], m => .put m _
  | stmt :: rest, m => by
    have one := appends_writeStmt stmt m
    have more := appends_writeStmts rest m
    unfold writeStmts stmtsText
    cases stmt
    case load => exact more
    all_goals
      refine ((appends_putMargin m).idle.andThen <| one.andThen <|
        (AppendsIdle.put _ _).andThen more).congr ?_
      dsimp only
      generalize stmtText m _ = text
      cases text <;> cases stmtsText m rest <;>
        simp [bind, Except.bind, pure, Except.pure, String.append_assoc]

theorem appends_writeElse : ∀ (chain : ElseChain) (m : Mode),
    AppendsIdle (writeElse chain) m (elseText m chain)
  | .done, m => .put m _
  | .elseIf cond body otherwise, m => by
    unfold writeElse
    refine ((appends_putMargin m).idle.andThen <| (AppendsIdle.put _ _).andThen <|
      (appends_writeCondition cond m).idle.andThen <| (AppendsIdle.put _ _).andThen <|
      (appends_writeBlock body (appends_writeStmts body _)).andThen <|
      appends_writeElse otherwise m).congr ?_
    simp only [elseText]
    cases conditionText m cond <;> cases stmtsText _ body <;> cases elseText _ otherwise <;>
      simp [bind, Except.bind, pure, Except.pure, String.append_assoc]
  | .final body, m => by
    unfold writeElse
    refine ((appends_putMargin m).idle.andThen <| (AppendsIdle.put _ _).andThen <|
      appends_writeBlock body (appends_writeStmts body _)).congr ?_
    simp only [elseText]
    cases stmtsText _ body <;> simp [bind, Except.bind, pure, Except.pure, String.append_assoc]

end

/-- Writing a function hands its parameters to its block. -/
theorem appends_writeFunction (f : Function) (m : Mode) :
    AppendsIdle (writeFunction f) m (functionText m f) := by
  unfold writeFunction functionText
  cases f.body with
  | none => exact .put m _
  | some body =>
    have taken : AppendsIdle
        (do expect (f.params.map (·.name)); writeBlock body (writeStmts body)) m
        (do let t ← stmtsText (Change.deeper.apply m) body
            return blockText m (f.params.map (·.name)) body t) := by
      intro w hw idle
      have lines := appends_writeStmts body (Change.deeper.apply m)
      exact (appends_writeBody _ body lines w hw idle).congr (expect_writeBlock idle ..)
    refine ((AppendsIdle.put _ _).andThen taken).congr ?_
    dsimp only
    cases stmtsText (Change.deeper.apply m) body <;>
      simp [bind, Except.bind, pure, Except.pure, String.append_assoc]

theorem appends_writeFunctions : ∀ (fs : List Function) (m : Mode),
    AppendsIdle (writeFunctions fs) m (functionsText m fs)
  | [], m => .put m _
  | f :: rest, m => (appends_writeFunction f m).andThen (appends_writeFunctions rest m)

theorem appends_writeGlobals : ∀ (as : List Assignment) (m : Mode),
    Appends (writeGlobals as) m (globalsText m as)
  | [], m => .put m _
  | a :: rest, m => by
    refine ((appends_writeAssign a.var a.value m).andThen <| (Appends.put _ _).andThen <|
      appends_writeGlobals rest m).congr ?_
    simp only [globalsText]
    cases assignText m a.var a.value <;> cases globalsText m rest <;>
      simp [bind, Except.bind, pure, Except.pure, String.append_assoc]

/-- Writing a program appends functions, global variables and the call of the entry function. -/
theorem appends_writeModule (library : Bool) (module : Module) (m : Mode) :
    AppendsIdle (writeModule library module) m (moduleText m library module) := by
  have entry : Appends (do Script.put (← attempt (entryCall library module))) m
      (entryCall library module >>= .ok) := .ofAttempt fun entry _ => .put m entry
  unfold writeModule
  refine ((appends_writeFunctions module.functions m).andThen <|
    (appends_writeGlobals module.globals m).idle.andThen entry.idle).congr ?_
  simp only [moduleText]
  cases functionsText m module.functions <;> cases globalsText m module.globals <;>
    cases entryCall library module <;>
    simp [bind, Except.bind, pure, Except.pure, String.append_assoc]

/-! ## Scripts -/

/-- What a writer hands over depends on its target and on whether it writes a library, and on
nothing that happened before. After it the writer is as before a first script, and the open
scopes are still open. -/
theorem Writer.generate_eq (w : Writer) (module : Module) :
    w.generate module =
      (match moduleText .initial w.library module with
        | .ok t => .ok (w.target.shebang ++ "\n" ++ t)
        | .error fault => .error (fault.toError w.target),
      w.restart) := by
  have appends := (AppendsIdle.put .initial (w.target.shebang ++ "\n")).andThen
    (appends_writeModule w.library module .initial) w.restart rfl rfl
  rw [Writer.generate]
  cases text : moduleText .initial w.library module with
  | error fault =>
    rw [text] at appends
    obtain ⟨t, eq⟩ := appends
    simp only [eq]
    rfl
  | ok t =>
    rw [text] at appends
    simp only [AppendsAt, bind, Except.bind, pure, Except.pure] at appends
    simp only [bind, appends]
    simp [Writer.append, Writer.restart, Writer.clear]

/-- A script is a function of the program alone, whatever the writer was used for before. -/
theorem generate_eq (target : Target) (library : Bool) (module : Module) :
    generate target library module =
      match moduleText .initial library module with
      | .ok t => .ok (target.shebang ++ "\n" ++ t)
      | .error fault => .error (fault.toError target) := by
  rw [generate, Writer.generate_eq]

end Shellwright.Script
