import Shellwright.Proofs.Forms
import Shellwright.Proofs.Scopes

/-!
# Where values stand in a script

Three settings of the mode decide how an expression is written: whether comparisons become
values, whether calls and commands are run for their output, and whether variables are quoted. An
expression inherits them through all that stands around it, and only some frames set them.

* `generate_holds`: what is written for the outermost expressions of a program.
* `exists_gap`: the text of an outermost expression is that of any part of it, in the gap that
  all the frames around the part leave for it.
* `gapIn_mode`: in such a gap each setting is that of the innermost frame that sets it, and of
  the place of the outermost expression if none does.
* `ofProgram_effects`: what a program runs for its effect is a call, a command or a pipeline.
* `value_place_form`: in which places a value is written in the form of a value.
-/

namespace Shellwright.Core

open Shellwright.Script

/-! ## Frames -/

/-- What stands directly around an expression inside a larger one. -/
inductive Frame where
  | left (ty : Ty) (op : BinaryOp) (other : Expr)
  | right (ty : Ty) (op : BinaryOp) (other : Expr)
  | negated (ty : Ty)
  | inverted (ty : Ty)
  | argument (ty : Ty) (name : String) (before after : List Expr)
  | upstream (ty : Ty) (op : StreamOp) (other : Expr)
  | downstream (ty : Ty) (op : StreamOp) (other : Expr)

def Frame.fill : Frame → Expr → Expr
  | .left ty op other, e => .binary ty op e other
  | .right ty op other, e => .binary ty op other e
  | .negated ty, e => .unary ty .negate e
  | .inverted ty, e => .unary ty .not e
  | .argument ty name before after, e => .call ty name (before ++ e :: after)
  | .upstream ty op other, e => .stream ty op e other
  | .downstream ty op other, e => .stream ty op other e

/-- An expression with frames around it, the innermost one first. -/
def fill (frames : List Frame) (e : Expr) : Expr := frames.foldl (fun e f => f.fill e) e

/-- What a frame sets for comparisons: whether they become values. -/
def Frame.decides : Frame → Option Bool
  | .left _ op _ | .right _ op _ => some !op.isLogical
  | .inverted _ => some false
  | .negated _ | .argument .. | .upstream .. | .downstream .. => none

/-- What a frame sets for calls and commands: whether they are run for their output. -/
def Frame.substitutes : Frame → Option Bool
  | .negated _ | .argument .. => some true
  | .upstream .. | .downstream .. => some false
  | .left .. | .right .. | .inverted _ => none

/-- What a frame sets for variables: whether they are quoted. -/
def Frame.quotes (e : Expr) : Frame → Option Bool
  | .left _ op other => some (comparesText op e other && !op.isArithmetic)
  | .right _ op other => some (comparesText op other e && !op.isArithmetic)
  | .negated _ => some false
  | .inverted _ | .argument .. | .upstream .. | .downstream .. => none

/-- Whether variables are quoted inside frames, the innermost one first. What a frame sets may
depend on what it holds. -/
def quotesIn (quote : Bool) : List Frame → Expr → Bool
  | [], _ => quote
  | f :: frames, e => (f.quotes e).getD (quotesIn quote frames (f.fill e))

/-- What has a frame around it is no number. -/
@[simp] theorem Frame.fill_isNumber (f : Frame) (e : Expr) : (f.fill e).isNumber = false := by
  cases f <;> rfl

@[simp] theorem fill_nil (e : Expr) : fill [] e = e := rfl

theorem fill_cons (f : Frame) (frames : List Frame) (e : Expr) :
    fill (f :: frames) e = fill frames (f.fill e) := rfl

/-- The last frame of the list is the outermost one. -/
theorem fill_concat (frames : List Frame) (f : Frame) (e : Expr) :
    fill (frames ++ [f]) e = f.fill (fill frames e) := by
  simp [fill]

/-! ## Outermost expressions -/

/-- What an expression is there for that stands in no other one. -/
inductive Place where
  | assigned (v : Variable)
  | returned
  /-- A loop runs over it. -/
  | listed
  | lower
  | upper
  | condition
  | effect
  deriving DecidableEq, Repr

/-- The value of the expression is wanted. -/
def Place.isValue : Place → Bool
  | .condition | .effect => false
  | _ => true

def boundRoots (lower : Expr) : Option Expr → List (Place × Expr)
  | none => [(.listed, lower)]
  | some upper => [(.lower, lower), (.upper, upper)]

mutual

def Stmt.roots : Stmt → List (Place × Expr)
  | .assign v value => [(.assigned v, value)]
  | .branch cond body otherwise => (.condition, cond) :: (stmtsRoots body ++ otherwise.roots)
  | .loop _ lower upper body => boundRoots lower upper ++ stmtsRoots body
  | .ret value => [(.returned, value)]
  | .jump _ | .load _ => []
  | .expr expr => [(.effect, expr)]

def stmtsRoots : List Stmt → List (Place × Expr)
  | [] => []
  | stmt :: rest => stmt.roots ++ stmtsRoots rest

def ElseChain.roots : ElseChain → List (Place × Expr)
  | .done => []
  | .elseIf cond body otherwise => (.condition, cond) :: (stmtsRoots body ++ otherwise.roots)
  | .final body => stmtsRoots body

end

/-- The outermost expressions of a program. -/
def Module.roots (module : Module) : List (Place × Expr) :=
  module.functions.flatMap (fun f => stmtsRoots (f.body.getD []))
    ++ module.globals.map fun a => (.assigned a.var, a.value)

/-- The expression stands where its value is wanted: an operator that works on values has it for
operand, it is no test and an operator that works on tests has it, it is an argument, or it is
wanted for its value as a whole. -/
def isValuePlace (place : Place) (e : Expr) : List Frame → Bool
  | [] => place.isValue
  | .left _ op _ :: _ | .right _ op _ :: _ => !op.isLogical || !e.isComparison
  | .inverted _ :: _ => !e.isComparison
  | .negated _ :: _ | .argument .. :: _ => true
  | .upstream .. :: _ | .downstream .. :: _ => false

/-- A test is wanted: the expression is a condition, or an operator that works
on tests has it. -/
def isTestPlace (place : Place) : List Frame → Bool
  | [] => place = .condition
  | .left _ op _ :: _ | .right _ op _ :: _ => op.isLogical
  | .inverted _ :: _ => true
  | _ => false

/-! ## Frames and texts -/

/-- The mode in which a frame has its expression written. -/
def Frame.mode (m : Mode) (e : Expr) : Frame → Mode
  | .left _ op other =>
    { m with decide := !op.isLogical, quote := comparesText op e other && !op.isArithmetic }
  | .right _ op other =>
    { m with decide := !op.isLogical, quote := comparesText op other e && !op.isArithmetic }
  | .negated _ => { m with quote := false, substitute := true }
  | .inverted _ => { m with decide := false }
  | .argument .. => { m with substitute := true }
  | .upstream .. | .downstream .. => { m with substitute := false }

/-- What a frame has written directly before and after its expression. -/
def Frame.around (m : Mode) (e : Expr) (f : Frame) : Except Fault (String × String) :=
  match f with
  | .left _ op other => do
    let asText := comparesText op e other
    let right ← exprText (f.mode m e) other
    return ((if op.isArithmetic then "$((" else "") ++
      (if isOpposite asText op then "! " else "")
        ++ operandOpen op e,
      operandClose op e ++ (" " ++ operatorWord asText op ++ " ")
        ++ (operandOpen op other ++ right ++ operandClose op other)
        ++ (if op.isArithmetic then "))" else ""))
  | .right _ op other => do
    let asText := comparesText op other e
    let left ← exprText (f.mode m e) other
    return ((if op.isArithmetic then "$((" else "") ++
      (if isOpposite asText op then "! " else "")
        ++ (operandOpen op other ++ left ++ operandClose op other)
        ++ (" " ++ operatorWord asText op ++ " ") ++ operandOpen op e,
      operandClose op e ++ (if op.isArithmetic then "))" else ""))
  | .negated _ => .ok ("$((-(", ")))")
  | .inverted _ => .ok ("$(! [[ ", testClose e ++ decisionClose)
  | .argument _ name before after => do
    let inner := f.mode m e
    let first ← argsText inner before
    let last ← argsText inner after
    return (name ++ first ++ " " ++ argMark inner e, argMark inner e ++ last)
  | .upstream _ op other => do
    let word ← streamWord op
    let right ← exprText (f.mode m e) other
    return ("", " " ++ word ++ " " ++ right)
  | .downstream _ op other => do
    let word ← streamWord op
    let left ← exprText (f.mode m e) other
    return (left ++ (" " ++ word ++ " "), "")

/-- A frame that does not set how comparisons are written leaves it as it was. -/
theorem Frame.mode_decide (m : Mode) (e : Expr) (f : Frame) :
    (f.mode m e).decide = f.decides.getD m.decide := by
  cases f <;> rfl

/-- A frame that does not set how calls are written leaves it as it was. -/
theorem Frame.mode_substitute (m : Mode) (e : Expr) (f : Frame) :
    (f.mode m e).substitute = f.substitutes.getD m.substitute := by
  cases f <;> rfl

/-- A frame that does not set how variables are written leaves it as it was. -/
theorem Frame.mode_quote (m : Mode) (e : Expr) (f : Frame) :
    (f.mode m e).quote = (f.quotes e).getD m.quote := by
  cases f <;> rfl

/-- The text of arguments is cut at any one of them. -/
theorem argsText_around {m : Mode} {e : Expr} {after : List Expr} :
    ∀ {before : List Expr} {t : String}, argsText m (before ++ e :: after) = .ok t →
      ∃ first s last, argsText m before = .ok first ∧ exprText m e = .ok s ∧
        argsText m after = .ok last ∧
        t = first ++ " " ++ argMark m e ++ s ++ argMark m e ++ last
  | [], t, h => by
    rw [List.nil_append, argsText] at h
    obtain ⟨s, hs, h⟩ := bind_eq_ok.mp h
    obtain ⟨last, hlast, h⟩ := bind_eq_ok.mp h
    cases h
    exact ⟨"", s, last, rfl, hs, hlast, by simp [String.append_assoc]⟩
  | arg :: before, t, h => by
    rw [List.cons_append, argsText] at h
    obtain ⟨text, htext, h⟩ := bind_eq_ok.mp h
    obtain ⟨others, hothers, h⟩ := bind_eq_ok.mp h
    cases h
    obtain ⟨first, s, last, hfirst, hs, hlast, rfl⟩ := argsText_around hothers
    refine ⟨" " ++ (argMark m arg ++ text ++ argMark m arg) ++ first, s, last, ?_, hs, hlast, ?_⟩
    · rw [argsText, htext, hfirst]
      rfl
    · simp [String.append_assoc]

/-- A pipeline is written as it is run for its effect, in a substitution. -/
theorem exprText_stream (m : Mode) (ty : Ty) (op : StreamOp) (left right : Expr) :
    exprText m (.stream ty op left right) =
      (effectText m (.stream ty op left right)).map substituted := by
  rw [exprText, effectText]
  cases streamWord op with
  | error fault => rfl
  | ok word =>
    cases exprText { m with substitute := false } left with
    | error fault => rfl
    | ok l =>
      cases exprText { m with substitute := false } right with
      | error fault => rfl
      | ok r =>
        simp [substituted, Except.map, bind, Except.bind, pure, Except.pure, String.append_assoc]

/-- What a frame has written around its own text, to make a value of it. -/
def Frame.wrap (m : Mode) : Frame → String × String
  | .left _ op _ | .right _ op _ =>
    if op.isComparison && m.decide then ("$([[ ", decisionClose) else ("", "")
  | .argument .. => (substitutionOpen m, substitutionClose m)
  | .upstream .. | .downstream .. => ("$(", ")")
  | .negated _ | .inverted _ => ("", "")

/-- A text is that of an expression, with what a frame has written around it, in a wrap. -/
def Frame.Writes (f : Frame) (m : Mode) (e : Expr) (wrap : String × String) (t : String) :
    Prop :=
  ∃ first s last, f.around m e = .ok (first, last) ∧ exprText (f.mode m e) e = .ok s ∧
    t = wrap.1 ++ first ++ s ++ (last ++ wrap.2)

/-- What a pipeline has around the command it begins with. -/
theorem upstream_writes {m : Mode} {ty : Ty} {op : StreamOp} {e other : Expr} {t : String}
    (h : effectText m (.stream ty op e other) = .ok t) :
    (Frame.upstream ty op other).Writes m e ("", "") t := by
  rw [effectText] at h
  obtain ⟨word, hword, h⟩ := bind_eq_ok.mp h
  obtain ⟨l, hl, h⟩ := bind_eq_ok.mp h
  obtain ⟨r, hr, h⟩ := bind_eq_ok.mp h
  cases h
  exact ⟨_, l, _, by rw [Frame.around, Frame.mode, hword, hr]; rfl, hl,
    by simp [String.append_assoc]⟩

/-- What a pipeline has around the command it ends with. -/
theorem downstream_writes {m : Mode} {ty : Ty} {op : StreamOp} {e other : Expr} {t : String}
    (h : effectText m (.stream ty op other e) = .ok t) :
    (Frame.downstream ty op other).Writes m e ("", "") t := by
  rw [effectText] at h
  obtain ⟨word, hword, h⟩ := bind_eq_ok.mp h
  obtain ⟨l, hl, h⟩ := bind_eq_ok.mp h
  obtain ⟨r, hr, h⟩ := bind_eq_ok.mp h
  cases h
  exact ⟨_, r, _, by rw [Frame.around, Frame.mode, hword, hl]; rfl, hr,
    by simp [String.append_assoc]⟩

theorem Frame.Writes.substituted {f : Frame} {m : Mode} {e : Expr} {t : String}
    (h : f.Writes m e ("", "") t) : f.Writes m e ("$(", ")") (substituted t) := by
  obtain ⟨first, s, last, around, text, rfl⟩ := h
  exact ⟨first, s, last, around, text, by simp [Script.substituted, String.append_assoc]⟩

/-- The text of an expression is that of a part of it with all that the frame between has
written. -/
theorem Frame.writes {f : Frame} {m : Mode} {e : Expr} {t : String} (number : e.isNumber = false)
    (h : exprText m (f.fill e) = .ok t) : f.Writes m e (f.wrap m) t := by
  cases f with
  | left ty op other =>
    rw [fill, exprText] at h
    obtain ⟨l, hl, h⟩ := bind_eq_ok.mp h
    obtain ⟨r, hr, h⟩ := bind_eq_ok.mp h
    cases h
    refine ⟨_, l, _, by rw [around, mode, hr]; rfl, hl, ?_⟩
    cases on : op.isComparison && m.decide <;>
      simp [wrap, binaryOpen, binaryClose, on, String.append_assoc]
  | right ty op other =>
    rw [fill, exprText] at h
    obtain ⟨l, hl, h⟩ := bind_eq_ok.mp h
    obtain ⟨r, hr, h⟩ := bind_eq_ok.mp h
    cases h
    refine ⟨_, r, _, by rw [around, mode, hl]; rfl, hr, ?_⟩
    cases on : op.isComparison && m.decide <;>
      simp [wrap, binaryOpen, binaryClose, on, String.append_assoc]
  | negated ty =>
    rw [fill, exprText, if_neg (by simp [number])] at h
    obtain ⟨s, hs, h⟩ := bind_eq_ok.mp h
    cases h
    exact ⟨_, s, _, rfl, hs, by simp [wrap]⟩
  | inverted ty =>
    rw [fill, exprText] at h
    obtain ⟨s, hs, h⟩ := bind_eq_ok.mp h
    cases h
    exact ⟨_, s, _, rfl, hs, by simp [wrap, String.append_assoc]⟩
  | argument ty name first last =>
    rw [fill, exprText] at h
    obtain ⟨args, hargs, h⟩ := bind_eq_ok.mp h
    cases h
    obtain ⟨b, s, a, hb, hs, ha, rfl⟩ := argsText_around hargs
    exact ⟨_, s, _, by rw [around, mode, hb, ha]; rfl, hs, by simp [wrap, String.append_assoc]⟩
  | upstream ty op other =>
    rw [fill, exprText_stream] at h
    obtain ⟨line, hline, rfl⟩ := map_eq_ok.mp h
    exact (upstream_writes hline).substituted
  | downstream ty op other =>
    rw [fill, exprText_stream] at h
    obtain ⟨line, hline, rfl⟩ := map_eq_ok.mp h
    exact (downstream_writes hline).substituted

/-! ## Outermost expressions in a script -/

/-- What stands directly before and after an outermost expression. -/
def Place.around (e : Expr) : Place → String × String
  | .assigned v => (assignOpen v, "")
  | .returned => ("echo " ++ returnMark e, returnMark e ++ "; exit")
  | .listed => (" in ", "; do\n")
  | .lower => ("$(seq ", " ")
  | .upper => (" ", ")")
  | .condition => ("[[ ", testClose e ++ " ]]; then\n")
  | .effect => ("", "")

/-- Whether a comparison becomes a value that is an outermost expression. -/
def Place.decides (e : Expr) : Place → Bool
  | .condition => !e.isComparison
  | _ => true

def Place.substitutes : Place → Bool
  | .effect => false
  | _ => true

def Place.quotes : Place → Bool
  | .listed => false
  | _ => true

/-- The mode in which an outermost expression is written. -/
structure Place.Sets (place : Place) (e : Expr) (m : Mode) : Prop where
  decides : m.decide = place.decides e
  substitutes : m.substitute = place.substitutes
  quotes : m.quote = place.quotes

/-- The text of an outermost expression. -/
def Place.text (m : Mode) (e : Expr) : Place → Except Fault String
  | .effect => effectText m e
  | _ => exprText m e

/-- A text has in it that of an outermost expression, with what stands around it. -/
def Place.Holds (place : Place) (e : Expr) (t : String) : Prop :=
  ∃ m s, place.Sets e m ∧ place.text m e = .ok s ∧
    Inside ((place.around e).1 ++ s ++ (place.around e).2) t

/-- What stands in a part of a text stands in the text. -/
theorem Place.Holds.mono {place : Place} {e : Expr} {t u : String} (h : place.Holds e t)
    (inside : Inside t u) : place.Holds e u := by
  obtain ⟨m, s, sets, text, part⟩ := h
  exact ⟨m, s, sets, text, part.trans inside⟩

/-- The mode of a line: comparisons become values, calls are only run, and variables are
quoted. -/
def isLineMode (m : Mode) : Prop := m.decide = true ∧ m.substitute = false ∧ m.quote = true

theorem isLineMode.unbraced {m : Mode} (h : isLineMode m) :
    isLineMode { m with braces := false } := h

theorem isLineMode.deeper {m : Mode} (h : isLineMode m) : isLineMode (Change.deeper.apply m) := h

/-- The value of an assignment stands after the name and the sign. -/
theorem assignText_holds {m : Mode} {v : Variable} {e : Expr} {t : String} (line : isLineMode m)
    (h : assignText m v e = .ok t) : (Place.assigned v).Holds e t := by
  obtain ⟨s, text, h⟩ := bind_eq_ok.mp h
  cases h
  exact ⟨{ m with substitute := true }, s, ⟨line.1, rfl, line.2.2⟩, text,
    by simpa [Place.around] using .refl _⟩

/-- The value of a return stands between `echo` and `exit`. -/
theorem returnText_holds {m : Mode} {e : Expr} {t : String} (line : isLineMode m)
    (h : returnText m e = .ok t) : Place.returned.Holds e t := by
  obtain ⟨s, text, h⟩ := bind_eq_ok.mp h
  cases h
  exact ⟨{ m with substitute := true }, s, ⟨line.1, rfl, line.2.2⟩, text,
    by simpa [Place.around, String.append_assoc] using .refl _⟩

/-- A condition stands in double brackets, after the word that asks for it. -/
theorem conditionText_holds {m : Mode} {e : Expr} {t : String} (line : isLineMode m)
    (h : conditionText m e = .ok t) {lead : String} (word : String)
    (opens : lead = word ++ "[[ ") :
    Place.condition.Holds e (lead ++ t ++ " ]]; then\n") := by
  obtain ⟨s, text, h⟩ := bind_eq_ok.mp h
  cases h
  have sets : Place.condition.Sets e (conditionMode m e) :=
    ⟨by simp [conditionMode, line.1, Place.decides], rfl, line.2.2⟩
  exact ⟨conditionMode m e, s, sets, text, word, "",
    by simp [opens, Place.around, String.append_assoc]⟩

/-- What is run for its effect is a line by itself. -/
theorem effectText_holds {m : Mode} {e : Expr} {t : String} (line : isLineMode m)
    (h : effectText m e = .ok t) : Place.effect.Holds e t :=
  ⟨m, t, ⟨line.1, line.2.1, line.2.2⟩, h, by simpa [Place.around] using .refl _⟩

/-- The bounds of a loop stand after the word `in`, as they are or in a call of `seq`. -/
theorem boundsText_holds {m : Mode} {lower : Expr} {upper : Option Expr} {t : String}
    (line : isLineMode m) (h : boundsText m lower upper = .ok t) {place : Place} {e : Expr}
    (root : (place, e) ∈ boundRoots lower upper) : place.Holds e (" in " ++ t ++ "; do\n") := by
  cases upper with
  | none =>
    cases List.mem_singleton.mp root
    exact ⟨{ m with substitute := true, quote := false }, t, ⟨line.1, rfl, rfl⟩, h, .refl _⟩
  | some upper =>
    obtain ⟨l, hl, h⟩ := bind_eq_ok.mp h
    obtain ⟨u, hu, h⟩ := bind_eq_ok.mp h
    cases h
    rcases List.mem_cons.mp root with root | root
    · cases root
      exact ⟨{ m with substitute := true }, l, ⟨line.1, rfl, line.2.2⟩, hl, " in ",
        u ++ ")" ++ "; do\n", by simp only [Place.around, String.append_assoc]⟩
    · cases List.mem_singleton.mp root
      exact ⟨{ m with substitute := true }, u, ⟨line.1, rfl, line.2.2⟩, hu,
        " in " ++ "$(seq " ++ l, "; do\n", by simp only [Place.around, String.append_assoc]⟩

/-- The lines of a block stand in its text, after the lines for parameters. -/
theorem blockText_inside (m : Mode) (params : List String) (stmts : List Stmt) (lines : String) :
    Inside lines (blockText m params stmts lines) := by
  rw [blockText]
  exact ((((Inside.refl lines).after _).before _).after _).before _

mutual

/-- The outermost expressions of a statement stand in its text. Statements, their lists and their
branches hold each other, so the three are taken together. -/
theorem stmtText_holds : ∀ {stmt : Stmt} {m : Mode} {t : String}, isLineMode m →
    stmtText m stmt = .ok t → ∀ {place : Place} {e : Expr}, (place, e) ∈ stmt.roots →
    place.Holds e t
  | .assign v value, m, t, line, h, place, e, root => by
    cases List.mem_singleton.mp root
    exact assignText_holds line h
  | .branch cond body otherwise, m, t, line, h, place, e, root => by
    rw [stmtText] at h
    obtain ⟨test, htest, h⟩ := bind_eq_ok.mp h
    obtain ⟨lines, hlines, h⟩ := bind_eq_ok.mp h
    obtain ⟨rest, hrest, h⟩ := bind_eq_ok.mp h
    cases h
    rw [Stmt.roots, List.mem_cons, List.mem_append] at root
    rcases root with root | root | root
    · cases root
      have holds := conditionText_holds line htest "if " rfl
      exact holds.mono ((((Inside.refl _).before _).before _).before _)
    · have holds := stmtsText_holds line.unbraced.deeper hlines root
      have inside := (blockText_inside { m with braces := false } [] body lines).before rest
      exact holds.mono (((inside.after _).before _).before _)
    · have holds := elseText_holds line.unbraced hrest root
      exact holds.mono (((((Inside.refl rest).after _).after _).before _).before _)
  | .loop v lower upper body, m, t, line, h, place, e, root => by
    rw [stmtText] at h
    obtain ⟨bounds, hbounds, h⟩ := bind_eq_ok.mp h
    obtain ⟨lines, hlines, h⟩ := bind_eq_ok.mp h
    cases h
    rw [Stmt.roots, List.mem_append] at root
    rcases root with root | root
    · have holds := boundsText_holds line hbounds root
      exact holds.mono ⟨"for " ++ v.name, _, by simp only [String.append_assoc]; rfl⟩
    · have holds := stmtsText_holds line.unbraced.deeper hlines root
      have inside := blockText_inside { m with braces := false } [] body lines
      exact holds.mono (((inside.after _).before _).before _)
  | .ret value, m, t, line, h, place, e, root => by
    cases List.mem_singleton.mp root
    exact returnText_holds line h
  | .expr expr, m, t, line, h, place, e, root => by
    cases List.mem_singleton.mp root
    exact effectText_holds line h

theorem stmtsText_holds : ∀ {stmts : List Stmt} {m : Mode} {t : String}, isLineMode m →
    stmtsText m stmts = .ok t → ∀ {place : Place} {e : Expr}, (place, e) ∈ stmtsRoots stmts →
      place.Holds e t
  | stmt :: rest, m, t, line, h, place, e, root => by
    have first := @stmtText_holds stmt m
    have more := @stmtsText_holds rest m
    rw [stmtsRoots, List.mem_append] at root
    cases stmt
    case load module =>
      rcases root with root | root
      · cases root
      · exact more line h root
    all_goals
      simp only [stmtsText] at h
      obtain ⟨text, htext, h⟩ := bind_eq_ok.mp h
      obtain ⟨others, hothers, h⟩ := bind_eq_ok.mp h
      cases h
      rcases root with root | root
      · exact (first line htext root).mono ((((Inside.refl _).after _).before _).before _)
      · exact (more line hothers root).mono ((Inside.refl _).after _)

theorem elseText_holds : ∀ {chain : ElseChain} {m : Mode} {t : String}, isLineMode m →
    elseText m chain = .ok t → ∀ {place : Place} {e : Expr}, (place, e) ∈ chain.roots →
      place.Holds e t
  | .elseIf cond body otherwise, m, t, line, h, place, e, root => by
    rw [elseText] at h
    obtain ⟨test, htest, h⟩ := bind_eq_ok.mp h
    obtain ⟨lines, hlines, h⟩ := bind_eq_ok.mp h
    obtain ⟨rest, hrest, h⟩ := bind_eq_ok.mp h
    cases h
    rw [ElseChain.roots, List.mem_cons, List.mem_append] at root
    rcases root with root | root | root
    · cases root
      have holds :=
        conditionText_holds line htest (m.margin ++ "elif ") (String.append_assoc ..).symm
      exact holds.mono (((Inside.refl _).before _).before _)
    · have holds := stmtsText_holds line.deeper hlines root
      have inside := blockText_inside m [] body lines
      exact holds.mono ((inside.after _).before _)
    · have holds := elseText_holds line hrest root
      exact holds.mono ((Inside.refl rest).after _)
  | .final body, m, t, line, h, place, e, root => by
    rw [elseText] at h
    obtain ⟨lines, hlines, h⟩ := bind_eq_ok.mp h
    cases h
    have holds := stmtsText_holds line.deeper hlines root
    exact holds.mono ((blockText_inside m [] body lines).after _)

end

/-- The outermost expressions of a body stand in the text of the function. -/
theorem functionText_holds {f : Function} {m : Mode} {t : String} (line : isLineMode m)
    (h : functionText m f = .ok t) {place : Place} {e : Expr}
    (root : (place, e) ∈ stmtsRoots (f.body.getD [])) : place.Holds e t := by
  rw [functionText] at h
  cases body : f.body with
  | none =>
    rw [body] at root
    cases root
  | some stmts =>
    rw [body] at root h
    obtain ⟨lines, hlines, h⟩ := bind_eq_ok.mp h
    cases h
    have holds := stmtsText_holds line.deeper hlines root
    have inside := blockText_inside m (f.params.map (·.name)) stmts lines
    exact holds.mono (inside.after _)

theorem functionsText_holds {m : Mode} (line : isLineMode m) {place : Place} {e : Expr}
    {fs : List Function} {t : String} (h : functionsText m fs = .ok t) {f : Function}
    (mem : f ∈ fs) (root : (place, e) ∈ stmtsRoots (f.body.getD [])) : place.Holds e t := by
  induction fs generalizing t with
  | nil => cases mem
  | cons g fs ih =>
    obtain ⟨text, htext, h⟩ := bind_eq_ok.mp h
    obtain ⟨others, hothers, h⟩ := bind_eq_ok.mp h
    cases h
    rcases List.mem_cons.mp mem with rfl | mem
    · exact (functionText_holds line htext root).mono ((Inside.refl _).before _)
    · exact (ih hothers mem).mono ((Inside.refl _).after _)

/-- The values of global variables stand in the lines that assign them. -/
theorem globalsText_holds {m : Mode} (line : isLineMode m) {as : List Assignment} {t : String}
    (h : globalsText m as = .ok t) {a : Assignment} (mem : a ∈ as) :
    (Place.assigned a.var).Holds a.value t := by
  induction as generalizing t with
  | nil => cases mem
  | cons b as ih =>
    obtain ⟨text, htext, h⟩ := bind_eq_ok.mp h
    obtain ⟨others, hothers, h⟩ := bind_eq_ok.mp h
    cases h
    rcases List.mem_cons.mp mem with rfl | mem
    · exact (assignText_holds line htext).mono (((Inside.refl _).before _).before _)
    · exact (ih hothers mem).mono ((Inside.refl _).after _)

/-- A script is the first line and the text of the program. -/
theorem generate_eq_ok {target : Target} {library : Bool} {module : Module} {script : String}
    (h : generate target library module = .ok script) :
    ∃ t, moduleText .initial library module = .ok t ∧ script = target.shebang ++ "\n" ++ t := by
  rw [generate_eq] at h
  cases text : moduleText .initial library module with
  | error fault =>
    rw [text] at h
    cases h
  | ok t =>
    rw [text] at h
    cases h
    exact ⟨t, rfl, rfl⟩

/-- Every outermost expression of a program stands in its script. -/
theorem generate_holds {target : Target} {library : Bool} {module : Module} {script : String}
    (h : generate target library module = .ok script) {place : Place} {e : Expr}
    (root : (place, e) ∈ module.roots) : place.Holds e script := by
  obtain ⟨t, text, rfl⟩ := generate_eq_ok h
  obtain ⟨functions, hfunctions, text⟩ := bind_eq_ok.mp text
  obtain ⟨globals, hglobals, text⟩ := bind_eq_ok.mp text
  obtain ⟨entry, -, text⟩ := bind_eq_ok.mp text
  cases text
  have line : isLineMode .initial := ⟨rfl, rfl, rfl⟩
  rcases List.mem_append.mp root with root | root
  · obtain ⟨f, mem, root⟩ := List.mem_flatMap.mp root
    have holds := functionsText_holds line hfunctions mem root
    exact holds.mono ((((Inside.refl _).before _).before _).after _)
  · obtain ⟨a, mem, same⟩ := List.mem_map.mp root
    cases same
    have holds := globalsText_holds line hglobals mem
    exact holds.mono ((((Inside.refl _).after _).before _).after _)

/-! ## What is run for its effect -/

/-- The expression does something. -/
def Expr.hasEffect : Expr → Bool
  | .call .. | .command .. | .stream .. => true
  | _ => false

/-- Among outermost expressions, only those that do something stand for their effect. -/
def OnlyEffects (roots : List (Place × Expr)) : Prop :=
  ∀ e, (.effect, e) ∈ roots → e.hasEffect = true

theorem OnlyEffects.append {as bs : List (Place × Expr)} (ha : OnlyEffects as)
    (hb : OnlyEffects bs) : OnlyEffects (as ++ bs) := fun e mem =>
  (List.mem_append.mp mem).elim (ha e) (hb e)

/-- What does not stand for its effect may be anything. -/
theorem OnlyEffects.cons {place : Place} {e : Expr} {roots : List (Place × Expr)}
    (other : place ≠ .effect) (h : OnlyEffects roots) : OnlyEffects ((place, e) :: roots) := by
  intro e' mem
  rcases List.mem_cons.mp mem with same | mem
  · cases same
    exact absurd rfl other
  · exact h e' mem

theorem onlyEffects_nil : OnlyEffects [] := nofun

/-- Resolving keeps what an expression does. -/
theorem hasEffect_of_resolveExpr {s : Scope} {src : Surface.Expr} {e : Expr}
    (resolved : resolveExpr s src = .ok e) (effect : src.hasEffect = true) :
    e.hasEffect = true := by
  cases src with
  | command span segments =>
    cases resolved
    rfl
  | call span name args =>
    rw [resolveExpr] at resolved
    split at resolved
    · cases resolved
    · split at resolved
      · obtain ⟨args, -, resolved⟩ := bind_eq_ok.mp resolved
        cases resolved
        rfl
      · cases resolved
  | pipe span left right =>
    rw [resolveExpr] at resolved
    obtain ⟨l, -, resolved⟩ := bind_eq_ok.mp resolved
    obtain ⟨r, -, resolved⟩ := bind_eq_ok.mp resolved
    cases resolved
    rfl
  | _ => cases effect

/-- The outermost expressions of syntax. -/
abbrev Part.roots : (part : Part) → part.Tree → List (Place × Expr)
  | .stmt, tree => tree.roots
  | .stmts, tree => stmtsRoots tree
  | .chain, tree => tree.roots

theorem onlyEffects_bounds (lower : Expr) (upper : Option Expr) :
    OnlyEffects (boundRoots lower upper) := by
  cases upper with
  | none => exact onlyEffects_nil.cons nofun
  | some upper => exact .cons nofun (onlyEffects_nil.cons nofun)

/-- Resolved statements run only what does something for its effect. -/
theorem Resolves.effects {part : Part} {inLoop : Bool} {s s' : Scope} {src : part.Source}
    {tree : part.Tree} (h : Resolves part inLoop s src tree s') :
    OnlyEffects (part.roots tree) := by
  induction h with
  | assign | ret => exact onlyEffects_nil.cons nofun
  | branch _ _ _ body chain | elseIf _ _ _ body chain => exact .cons nofun (body.append chain)
  | loop _ _ _ body => exact (onlyEffects_bounds _ _).append body
  | expr effect value =>
    intro e mem
    cases List.mem_singleton.mp mem
    exact hasEffect_of_resolveExpr value effect
  | jump | load | nil | done => exact onlyEffects_nil
  | cons _ _ first rest => exact first.append rest
  | final _ body => exact body

/-- So do resolved functions. -/
theorem resolveFunctions_effects {s : Scope} {fs : List Surface.Function}
    {r : List Function × Scope} (h : resolveFunctions s fs = .ok r) :
    OnlyEffects (r.1.flatMap fun f => stmtsRoots (f.body.getD [])) := by
  induction fs generalizing s r with
  | nil =>
    cases h
    exact onlyEffects_nil
  | cons f fs ih =>
    obtain ⟨first, isFirst, h⟩ := bind_eq_ok.mp h
    obtain ⟨others, areOthers, h⟩ := bind_eq_ok.mp h
    cases h
    refine OnlyEffects.append ?_ (ih areOthers)
    rw [resolveFunction] at isFirst
    split at isFirst
    · cases isFirst
      exact onlyEffects_nil
    · obtain ⟨body, isBody, isFirst⟩ := bind_eq_ok.mp isFirst
      cases isFirst
      exact (resolves_stmts isBody).effects

theorem resolveEntry_effects {s : Scope} {ts : List Surface.TopLevel} {r : List Stmt × Scope}
    (h : resolveEntry s ts = .ok r) : OnlyEffects (stmtsRoots r.1) := by
  induction ts generalizing s r with
  | nil =>
    cases h
    exact onlyEffects_nil
  | cons t ts ih =>
    obtain ⟨first, isFirst, h⟩ := bind_eq_ok.mp h
    obtain ⟨others, areOthers, h⟩ := bind_eq_ok.mp h
    cases h
    exact (resolves_stmt isFirst).effects.append (ih areOthers)

/-- What a program runs for its effect does something. -/
theorem ofProgram_effects {library : Bool} {p : Surface.Program} {module : Module}
    (h : Module.ofProgram library p = .ok module) : OnlyEffects module.roots := by
  have globals : ∀ as : List Assignment,
      OnlyEffects (as.map fun a => (Place.assigned a.var, a.value)) := by
    intro as e mem
    obtain ⟨a, -, same⟩ := List.mem_map.mp mem
    cases same
  cases resolvesProgram_iff.mp h with
  | made stages _ _ entry =>
    obtain ⟨-, -, defined⟩ := stages
    refine .append ?_ (globals _)
    rw [List.flatMap_append]
    refine (resolveFunctions_effects defined).append ?_
    simpa using resolveEntry_effects entry
  | kept stages _ _ =>
    obtain ⟨-, -, defined⟩ := stages
    exact (resolveFunctions_effects defined).append (globals _)

/-! ## Inside frames -/

/-- What stands around the text of the outermost frame. A pipeline that is run for its effect
is in no substitution. -/
def Place.wrap (m : Mode) (f : Frame) : Place → String × String
  | .effect =>
    match f with
    | .upstream .. | .downstream .. => ("", "")
    | _ => f.wrap m
  | _ => f.wrap m

/-- A gap in a text: the mode in which it is filled, and what stands before and after. -/
structure Gap where
  mode : Mode
  before : String
  after : String

def Gap.fill (gap : Gap) (s : String) : String := gap.before ++ s ++ gap.after

/-- The gap that a frame leaves for its expression, if it fills a gap itself. -/
def Frame.gap (f : Frame) (wrap : String × String) (outer : Gap) (e : Expr) :
    Except Fault Gap := do
  let (first, last) ← f.around outer.mode e
  return ⟨f.mode outer.mode e, outer.before ++ (wrap.1 ++ first), last ++ wrap.2 ++ outer.after⟩

/-- The gap for an expression in an outermost one, with all that the frames around it, the
innermost one first, and the place have written. -/
def gapIn (place : Place) (m : Mode) : List Frame → Expr → Except Fault Gap
  | [], e => .ok ⟨m, (place.around e).1, (place.around e).2⟩
  | f :: frames, e => do
    let outer ← gapIn place m frames (f.fill e)
    f.gap (if frames.isEmpty then place.wrap outer.mode f else f.wrap outer.mode) outer e

/-- The outermost frame in a place, with the wrap that it has there. -/
theorem Place.writes {place : Place} {f : Frame} {m : Mode} {e : Expr} {t : String}
    (number : e.isNumber = false) (h : place.text m (f.fill e) = .ok t) :
    f.Writes m e (place.wrap m f) t := by
  cases place with
  | effect =>
    cases f with
    | upstream ty op other => exact upstream_writes h
    | downstream ty op other => exact downstream_writes h
    | _ => exact Frame.writes number h
  | _ => exact Frame.writes number h

/-- What a frame has written is the gap for its expression, filled with that expression's
text. -/
theorem Frame.Writes.exists_gap {f : Frame} {outer : Gap} {e : Expr} {wrap : String × String}
    {t : String} (h : f.Writes outer.mode e wrap t) :
    ∃ gap s, f.gap wrap outer e = .ok gap ∧ exprText gap.mode e = .ok s ∧
      gap.fill s = outer.fill t := by
  obtain ⟨first, s, last, around, text, rfl⟩ := h
  refine ⟨_, s, by rw [Frame.gap, around]; rfl, text, ?_⟩
  simp only [Gap.fill, String.append_assoc]

/-- The text of an outermost expression is that of any part of it, in the gap for the part. The
induction goes outwards, and what is inside the frames left over grows. -/
theorem exists_gap {place : Place} {m : Mode} {frames : List Frame} {e : Expr} {t : String}
    (text : place.text m (fill frames e) = .ok t) (number : e.isNumber = false)
    (inner : place ≠ .effect ∨ frames ≠ []) :
    ∃ gap s, gapIn place m frames e = .ok gap ∧ exprText gap.mode e = .ok s ∧
      gap.fill s = (place.around (fill frames e)).1 ++ t ++
        (place.around (fill frames e)).2 := by
  induction frames generalizing e with
  | nil =>
    have text : exprText m e = .ok t := by
      cases place with
      | effect => simp at inner
      | _ => exact text
    exact ⟨_, t, rfl, text, rfl⟩
  | cons f frames ih =>
    cases frames with
    | nil =>
      have writes : f.Writes (Gap.mode ⟨m, (place.around (f.fill e)).1,
          (place.around (f.fill e)).2⟩) e (place.wrap m f) t := Place.writes number text
      obtain ⟨gap, s, isGap, isText, same⟩ := writes.exists_gap
      exact ⟨gap, s, isGap, isText, same⟩
    | cons g frames =>
      obtain ⟨outer, u, isOuter, isWhole, whole⟩ := ih text (f.fill_isNumber e) (.inr nofun)
      obtain ⟨gap, s, isGap, isText, same⟩ := (Frame.writes number isWhole).exists_gap
      exact ⟨gap, s, by rw [gapIn, isOuter]; exact isGap, isText, same.trans whole⟩

/-- The innermost frame that sets a setting has the last word. -/
theorem gapIn_mode {place : Place} {m : Mode} {frames : List Frame} {e : Expr} {gap : Gap}
    (h : gapIn place m frames e = .ok gap) :
    gap.mode.decide = (frames.findSome? Frame.decides).getD m.decide ∧
      gap.mode.substitute = (frames.findSome? Frame.substitutes).getD m.substitute ∧
      gap.mode.quote = quotesIn m.quote frames e := by
  induction frames generalizing e gap with
  | nil =>
    cases h
    exact ⟨rfl, rfl, rfl⟩
  | cons f frames ih =>
    obtain ⟨outer, isOuter, h⟩ := bind_eq_ok.mp h
    obtain ⟨sides, -, h⟩ := bind_eq_ok.mp h
    cases h
    obtain ⟨decides, substitutes, quotes⟩ := ih isOuter
    rw [f.mode_decide, f.mode_substitute, f.mode_quote, decides, substitutes, quotes,
      List.findSome?_cons, List.findSome?_cons, quotesIn]
    cases f.decides <;> cases f.substitutes <;> exact ⟨rfl, rfl, rfl⟩

/-- In a script a text stands where an expression has its place: in the gap that the frames
around it leave in the outermost expression. -/
def StandsFor (script : String) (place : Place) (frames : List Frame) (e : Expr) (s : String) :
    Prop :=
  ∃ m gap, place.Sets (fill frames e) m ∧ gapIn place m frames e = .ok gap ∧
    Inside (gap.fill s) script

/-- An outermost expression stands directly in what its place has around it. -/
theorem StandsFor.inside {script : String} {place : Place} {e : Expr} {s : String}
    (h : StandsFor script place [] e s) :
    Inside ((place.around e).1 ++ s ++ (place.around e).2) script := by
  obtain ⟨m, gap, sets, isGap, inside⟩ := h
  cases isGap
  exact inside

/-- In the script of an outermost expression any part of it stands in its gap, written with the
settings that the frames give. A pipeline as a whole that is run for its effect is apart, for its
text is not that of a value. -/
theorem Place.Holds.stands {place : Place} {frames : List Frame} {e : Expr} {script : String}
    (h : place.Holds (fill frames e) script) (number : e.isNumber = false)
    (inner : place ≠ .effect ∨ frames ≠ []) :
    ∃ (m : Mode) (s : String), exprText m e = .ok s ∧ StandsFor script place frames e s ∧
      m.decide = (frames.findSome? Frame.decides).getD (place.decides (fill frames e)) ∧
      m.substitute = (frames.findSome? Frame.substitutes).getD place.substitutes ∧
      m.quote = quotesIn place.quotes frames e := by
  obtain ⟨m, t, sets, whole, inside⟩ := h
  obtain ⟨gap, s, isGap, text, same⟩ := exists_gap whole number inner
  have modes := gapIn_mode isGap
  rw [sets.decides, sets.substitutes, sets.quotes] at modes
  exact ⟨gap.mode, s, text, ⟨m, gap, sets, isGap, same ▸ inside⟩, modes⟩

/-- So does an outermost expression, whatever it is there for. -/
theorem Place.Holds.stands_whole {place : Place} {e : Expr} {script : String}
    (h : place.Holds e script) :
    ∃ (m : Mode) (s : String), place.Sets e m ∧ place.text m e = .ok s ∧
      StandsFor script place [] e s := by
  obtain ⟨m, s, sets, text, inside⟩ := h
  exact ⟨m, s, sets, text, m, _, sets, rfl, inside⟩

/-! ## Forms in places -/

/-- The text of an expression as a test that does not become a value. -/
def IsBareTest (e : Expr) (t : String) : Prop :=
  ∃ m : Mode, m.decide = false ∧ exprText m e = .ok t

/-- The text of an expression as a command line that is not run for its output. -/
def IsBareLine (e : Expr) (t : String) : Prop :=
  ∃ m : Mode, m.substitute = false ∧ exprText m e = .ok t

theorem isNumber_of_isComparison {e : Expr} (comparison : e.isComparison = true) :
    e.isNumber = false := by
  cases e <;> first | rfl | cases comparison

/-- The text of a comparison is a test, made into a value if the mode asks for one. -/
theorem comparison_form {e : Expr} {m : Mode} {s : String} (comparison : e.isComparison = true)
    (text : exprText m e = .ok s) :
    ∃ bare, IsBareTest e bare ∧ s = if m.decide then decided bare else bare := by
  rw [exprText_comparison comparison] at text
  obtain ⟨bare, bareText, rfl⟩ := map_eq_ok.mp text
  exact ⟨bare, ⟨{ m with decide := false }, rfl, bareText⟩, rfl⟩

/-- The text of a call or a command is its line, run for its output if the mode asks for that. -/
theorem run_form {e : Expr} {m : Mode} {s : String} (run : (e.isCall || e.isCommand) = true)
    (text : exprText m e = .ok s) :
    ∃ bare, IsBareLine e bare ∧ s = if m.substitute then substituted bare else bare := by
  rw [exprText_run run] at text
  obtain ⟨bare, bareText, rfl⟩ := map_eq_ok.mp text
  exact ⟨bare, ⟨{ m with substitute := false }, rfl, bareText⟩, rfl⟩

/-- Where no frame sets a setting, the outermost one does not either. -/
theorem outermost_unset {α : Type} {set : Frame → Option α} {frames : List Frame}
    (unset : frames.findSome? set = none) (some : frames ≠ []) :
    ∃ inner f, frames = inner ++ [f] ∧ set f = none := by
  obtain rfl | ⟨inner, f, rfl⟩ := List.eq_nil_or_concat frames
  · exact absurd rfl some
  · rw [List.concat_eq_append] at unset ⊢
    exact ⟨inner, f, rfl, List.findSome?_eq_none_iff.mp unset f (by simp)⟩

/-- Where no frame sets how comparisons are written, the outermost frame makes no comparison. -/
theorem fill_isComparison {frames : List Frame} (unset : frames.findSome? Frame.decides = none)
    (some : frames ≠ []) (e : Expr) : (fill frames e).isComparison = false := by
  obtain ⟨inner, f, rfl, outer⟩ := outermost_unset unset some
  rw [fill_concat]
  cases f <;> first | rfl | cases outer

/-- Where no frame sets how calls are written, the outermost frame makes nothing
that has an effect. -/
theorem fill_hasEffect {frames : List Frame} (unset : frames.findSome? Frame.substitutes = none)
    (some : frames ≠ []) (e : Expr) : (fill frames e).hasEffect = false := by
  obtain ⟨inner, f, rfl, outer⟩ := outermost_unset unset some
  rw [fill_concat]
  cases f <;> first | rfl | cases outer

/-- Where a value is wanted, a comparison is left bare only by a frame that asks for a test. -/
theorem decides_of_value {place : Place} {frames : List Frame} {e : Expr}
    (value : isValuePlace place e frames = true) :
    (frames.findSome? Frame.decides).getD (place.decides (fill frames e)) =
      !decide (frames.findSome? Frame.decides = some false) := by
  cases set : frames.findSome? Frame.decides with
  | some on => cases on <;> rfl
  | none =>
    cases place with
    | condition =>
      have inner : frames ≠ [] := by rintro rfl; cases value
      simp [Place.decides, fill_isComparison set inner e]
    | _ => rfl

/-- Where a test is wanted, no comparison becomes a value. -/
theorem decides_of_test {place : Place} {frames : List Frame} {e : Expr}
    (comparison : e.isComparison = true) (test : isTestPlace place frames = true) :
    (frames.findSome? Frame.decides).getD (place.decides (fill frames e)) = false := by
  cases frames with
  | nil =>
    cases of_decide_eq_true test
    simp [Place.decides, comparison]
  | cons f frames =>
    rw [List.findSome?_cons]
    cases f with
    | left ty op other | right ty op other =>
      have logical : op.isLogical = true := test
      simp [Frame.decides, logical]
    | inverted => rfl
    | _ => cases test

/-- What is run for its effect is no operator, so a pipeline, a call or a minus sign stands
between. -/
theorem substitutes_of_value {place : Place} {frames : List Frame} {e : Expr}
    (value : isValuePlace place e frames = true)
    (effect : place = .effect → (fill frames e).hasEffect = true) :
    (frames.findSome? Frame.substitutes).getD place.substitutes =
      !decide (frames.findSome? Frame.substitutes = some false) := by
  cases set : frames.findSome? Frame.substitutes with
  | some on => cases on <;> rfl
  | none =>
    cases place with
    | effect =>
      have inner : frames ≠ [] := by rintro rfl; cases value
      have none := fill_hasEffect set inner e
      rw [effect rfl] at none
      cases none
    | _ => rfl

/-- In the script of a program, a comparison that stands where its value is wanted is turned into
a value, unless the innermost frame that says how comparisons are written asks for a test: a
minus sign and a call pass that on to what they hold. One that stands where a test is wanted is
left bare. A call or a command whose value is wanted is run for its output, unless the innermost
frame that says how calls are written is a pipeline: operators pass that on to their operands. -/
theorem value_place_form {library : Bool} {p : Surface.Program} {module : Module}
    {target : Target} {script : String} (resolved : Module.ofProgram library p = .ok module)
    (written : generate target library module = .ok script) {place : Place} {frames : List Frame}
    {e : Expr} (root : (place, fill frames e) ∈ module.roots) :
    (e.isComparison = true → isValuePlace place e frames = true →
      ∃ bare, IsBareTest e bare ∧ StandsFor script place frames e
        (if frames.findSome? Frame.decides = some false then bare else decided bare)) ∧
    (e.isComparison = true → isTestPlace place frames = true →
      ∃ bare, IsBareTest e bare ∧ StandsFor script place frames e bare) ∧
    ((e.isCall || e.isCommand) = true → isValuePlace place e frames = true →
      ∃ bare, IsBareLine e bare ∧ StandsFor script place frames e
        (if frames.findSome? Frame.substitutes = some false then bare
          else substituted bare)) := by
  have holds := generate_holds written root
  have effect (h : place = .effect) : (fill frames e).hasEffect = true :=
    ofProgram_effects resolved _ (h ▸ root)
  have inner (value : isValuePlace place e frames = true) : place ≠ .effect ∨ frames ≠ [] := by
    cases frames with
    | nil => exact .inl (by rintro rfl; cases value)
    | cons => exact .inr nofun
  refine ⟨?_, ?_, ?_⟩
  · intro comparison value
    have number := isNumber_of_isComparison comparison
    obtain ⟨m, s, text, stands, decides, -⟩ := holds.stands number (inner value)
    obtain ⟨bare, isBare, rfl⟩ := comparison_form comparison text
    rw [decides, decides_of_value value] at stands
    exact ⟨bare, isBare, by simpa using stands⟩
  · intro comparison test
    have number := isNumber_of_isComparison comparison
    have inner : place ≠ .effect ∨ frames ≠ [] := by
      cases frames with
      | nil => exact .inl (by rintro rfl; cases test)
      | cons => exact .inr nofun
    obtain ⟨m, s, text, stands, decides, -⟩ := holds.stands number inner
    obtain ⟨bare, isBare, rfl⟩ := comparison_form comparison text
    rw [decides, decides_of_test comparison test] at stands
    exact ⟨bare, isBare, stands⟩
  · intro run value
    have number : e.isNumber = false := by cases e <;> first | rfl | cases run
    obtain ⟨m, s, text, stands, -, substitutes, -⟩ := holds.stands number (inner value)
    obtain ⟨bare, isBare, rfl⟩ := run_form run text
    rw [substitutes, substitutes_of_value value effect] at stands
    exact ⟨bare, isBare, by simpa using stands⟩

/-- The comparison in `x = f(1 < 2) && true` is left bare, though its value is wanted. -/
theorem value_place_form_argument :
    ∃ module script, Module.ofProgram true
        ⟨[⟨"f", [⟨"a", .zero⟩], none, .zero, ""⟩],
          [⟨.assign .zero "x" (.binary .zero .and
            (.call .zero "f" [.binary .zero .lt (.int .zero 1) (.int .zero 2)])
            (.bool .zero true)), ""⟩],
          .zero, [], ""⟩ = .ok module ∧
      generate .bash true module = .ok script ∧
      ∃ bare, IsBareTest (.binary .boolean .lt (.int .integer 1) (.int .integer 2)) bare ∧
        StandsFor script (.assigned ⟨"x", true⟩)
          [.argument (.undef) "f" [] [], .left .boolean .and (.bool .boolean true)]
          (.binary .boolean .lt (.int .integer 1) (.int .integer 2)) bare := by
  refine ⟨_, _, (and_iff_left_of_imp fun resolved =>
    (and_iff_left_of_imp fun written => ?_).mpr rfl).mpr rfl⟩
  exact (value_place_form resolved written (List.mem_append_right _ (.head _))).1 rfl rfl

end Shellwright.Core
