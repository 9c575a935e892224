import Shellwright.Proofs.Origins

/-!
# What the shell splits

The shell splits what an expansion gives at blanks and reads it as a pattern, unless the
expansion stands in double quotes. What stands in quotes depends on the kind of value, and for
variables and calls also on what is around them.

* `Kept`, `Loose`: the texts that are one word whatever they expand to, and those that are not.
* `Expr.opens`: which arguments of calls are loose.
* `argsText_words`, `passed_of_kept`, `passed_length`: what a call passes on.
* `words_of_calls_and_returns`: which arguments and which results the shell leaves as they are.
* `equality_operand_form`: which operands of a test for equality are read as patterns.
-/

namespace Shellwright.Core

open Shellwright.Script
open Surface.Segment (IsName)

/-! ## Command lines -/

/-- The text of an expression as a command line that is run for its effect. -/
def IsLine (e : Expr) (line : String) : Prop :=
  ∃ m : Mode, m.substitute = false ∧ effectText m e = .ok line

/-- What does something is written as its command line, in a substitution if its output is
wanted. A pipeline inside an expression is always in one. -/
theorem exprText_line {e : Expr} {m : Mode} {t : String} (effect : e.hasEffect = true)
    (text : exprText m e = .ok t) :
    ∃ line, IsLine e line ∧
      t = if (e.isCall || e.isCommand) && !m.substitute then line else substituted line := by
  cases e with
  | call | command =>
    obtain ⟨line, ⟨m', off, isLine⟩, rfl⟩ := run_form rfl text
    refine ⟨line, ⟨m', off, isLine⟩, ?_⟩
    cases m.substitute <;> rfl
  | stream ty op left right =>
    rw [exprText_stream] at text
    obtain ⟨line, isLine, rfl⟩ := map_eq_ok.mp text
    exact ⟨line, ⟨{ m with substitute := false }, rfl, isLine⟩, rfl⟩
  | _ => cases effect

/-- What is run for its output is a line in a substitution. -/
theorem exprText_output {e : Expr} {m : Mode} {t : String} (effect : e.hasEffect = true)
    (output : m.substitute = true) (text : exprText m e = .ok t) :
    ∃ line, IsLine e line ∧ t = substituted line := by
  obtain ⟨line, isLine, rfl⟩ := exprText_line effect text
  refine ⟨line, isLine, ?_⟩
  rw [output, Bool.not_true, Bool.and_false, if_neg Bool.false_ne_true]

/-! ## Words -/

/-- The text of the value is one word, whatever it expands to: what the shell would split stands
in quotes that end where the text ends, and all other expansions give numbers. -/
inductive Kept : Expr → String → Prop
  | int (ty : Ty) (value : Int64) : Kept (.int ty value) (intText value)
  | fraction (ty : Ty) (value : Binary64) : Kept (.fraction ty value) (fractionText value)
  | bool (ty : Ty) (value : Bool) : Kept (.bool ty value) (boolText value)
  | signed {ty : Ty} {e : Expr} {t : String} :
    e.isNumber = true → Kept e t → Kept (.unary ty .negate e) ("-" ++ t)
  | text {ty : Ty} {segments : List Segment} :
    Escaped '"' (segmentsText bareMode segments).toList →
      Kept (.text ty segments) ("\"" ++ segmentsText bareMode segments ++ "\"")
  | var {ty : Ty} {v : Variable} :
    IsName v.name.toList → Kept (.var ty v) ("\"" ++ "$" ++ v.name ++ "\"")
  | arithmetic {ty : Ty} {op : BinaryOp} {left right : Expr} {m : Mode} {l r : String} :
    op.isArithmetic = true → exprText m left = .ok l → exprText m right = .ok r →
      Kept (.binary ty op left right)
        ("$((" ++ l ++ (" " ++ operatorWord false op ++ " ") ++ r ++ "))")
  | negation {ty : Ty} {e : Expr} {m : Mode} {t : String} :
    exprText m e = .ok t → Kept (.unary ty .negate e) ("$((-(" ++ t ++ ")))")
  | decision {e : Expr} {test : String} :
    e.isComparison = true → IsBareTest e test → Kept e (decided test)
  | inversion {ty : Ty} {e : Expr} {test : String} :
    IsBareTest e test →
      Kept (.unary ty .not e) ("$(! [[ " ++ test ++ testClose e ++ decisionClose)
  | output {e : Expr} {line : String} :
    e.hasEffect = true → IsLine e line → Kept e ("\"" ++ substituted line ++ "\"")

/-- The shell splits what the text of the value expands to. -/
inductive Loose : Expr → String → Prop
  | var (ty : Ty) (v : Variable) : Loose (.var ty v) ("$" ++ v.name)
  | test {e : Expr} {test : String} : e.isComparison = true → IsBareTest e test → Loose e test
  | output {e : Expr} {line : String} :
    e.hasEffect = true → IsLine e line → Loose e (substituted line)

/-- What is written for a value where a command has a word. -/
structure Word where
  value : Expr
  text : String
  isLoose : Bool
  form : if isLoose then Loose value text else Kept value text

namespace Word

variable {e : Expr} {t : String}

def ofKept (h : Kept e t) : Word := ⟨e, t, false, by simpa using h⟩

def ofLoose (h : Loose e t) : Word := ⟨e, t, true, by simpa using h⟩

end Word

/-- Whether the argument of a call is loose, by whether variables and calls are quoted where the
call stands, and whether comparisons become values. -/
def Expr.opens (quote decide : Bool) : Expr → Bool
  | .var .. | .call .. => !quote
  | .command .. | .stream .. => true
  | .binary _ op _ _ => op.isComparison && !decide
  | _ => false

/-- Where all is quoted that can be and comparisons become values, only what
does something is loose. -/
theorem opens_of_idle {e : Expr} (idle : e.hasEffect = false) : e.opens true true = false := by
  cases e with
  | call | command | stream => cases idle
  | binary => exact Bool.and_false _
  | _ => rfl

theorem operatorWord_of_isArithmetic {op : BinaryOp} (h : op.isArithmetic = true)
    (asText : Bool) :
    operatorWord asText op = operatorWord false op := by
  cases op <;> first | rfl | cases h

theorem isLogical_of_isArithmetic {op : BinaryOp} (h : op.isArithmetic = true) :
    op.isLogical = false := by
  cases op <;> first | rfl | cases h

theorem isOpposite_of_isArithmetic {op : BinaryOp} (h : op.isArithmetic = true) (asText : Bool) :
    isOpposite asText op = false := by
  cases op <;> first | rfl | cases h

/-- A sum stands in an arithmetic expansion. -/
theorem kept_arithmetic {ty : Ty} {op : BinaryOp} {left right : Expr} {m : Mode} {t : String}
    (arithmetic : op.isArithmetic = true)
    (text : exprText m (.binary ty op left right) = .ok t) :
    Kept (.binary ty op left right) t := by
  rw [exprText] at text
  obtain ⟨l, isLeft, text⟩ := bind_eq_ok.mp text
  obtain ⟨r, isRight, text⟩ := bind_eq_ok.mp text
  cases text
  have kept : Kept (.binary ty op left right) _ := .arithmetic arithmetic isLeft isRight
  simpa [binaryOpen, binaryClose, operandOpen, operandClose, BinaryOp.isComparison, arithmetic,
    isLogical_of_isArithmetic arithmetic, isOpposite_of_isArithmetic arithmetic,
    operatorWord_of_isArithmetic arithmetic, String.append_assoc] using kept

/-- A value that does nothing is kept, apart from variables that are not quoted and comparisons
that do not become values. -/
theorem exprText_kept {e : Expr} {m : Mode} {t : String} (idle : e.hasEffect = false)
    (closed : e.Closed) (tight : e.opens m.quote m.decide = false)
    (text : exprText m e = .ok t) :
    Kept e t := by
  cases e with
  | int ty value =>
    cases text
    exact .int ty value
  | fraction ty value =>
    cases text
    exact .fraction ty value
  | bool ty value =>
    cases text
    exact .bool ty value
  | text ty segments =>
    have same : segmentsText { m with quote := false } segments =
        segmentsText bareMode segments := by
      apply segmentsText_of_quote
      rfl
    cases text
    rw [same]
    exact .text closed
  | var ty v =>
    have quote : m.quote = true := by simpa [Expr.opens] using tight
    have same : variableText m false v = "\"" ++ "$" ++ v.name ++ "\"" := by
      simp [variableText, quote]
    cases text
    rw [same]
    exact .var closed
  | binary ty op left right =>
    cases arithmetic : op.isArithmetic with
    | true => exact kept_arithmetic arithmetic text
    | false =>
      have comparison : op.isComparison = true := by rw [BinaryOp.isComparison, arithmetic]; rfl
      have decides : m.decide = true := by simpa [Expr.opens, comparison] using tight
      obtain ⟨test, isTest, rfl⟩ :=
        comparison_form (e := .binary ty op left right) comparison text
      rw [decides]
      exact .decision comparison isTest
  | unary ty op operand =>
    rw [exprText.eq_def] at text
    cases op with
    | not =>
      obtain ⟨test, isTest, text⟩ := bind_eq_ok.mp text
      cases text
      exact .inversion ⟨{ m with decide := false }, rfl, isTest⟩
    | negate =>
      dsimp only at text
      split at text
      case isTrue number =>
        obtain ⟨s, isText, text⟩ := bind_eq_ok.mp text
        cases text
        refine .signed number ?_
        cases operand with
        | int ty value =>
          cases isText
          exact .int ty value
        | fraction ty value =>
          cases isText
          exact .fraction ty value
        | _ => cases number
      case isFalse =>
        obtain ⟨s, isText, text⟩ := bind_eq_ok.mp text
        cases text
        exact .negation isText
  | call | command | stream => cases idle

/-- What opens words, and is not run, is written without quotes. -/
theorem exprText_loose {e : Expr} {m : Mode} {t : String} (idle : e.hasEffect = false)
    (opens : e.opens m.quote m.decide = true) (text : exprText m e = .ok t) : Loose e t := by
  cases e with
  | var ty v =>
    have bare : m.quote = false := by simpa [Expr.opens] using opens
    have same : variableText m false v = "$" ++ v.name := by simp [variableText, bare]
    cases text
    rw [same]
    exact .var ty v
  | binary ty op left right =>
    obtain ⟨comparison, undecided⟩ : op.isComparison = true ∧ m.decide = false := by
      simpa [Expr.opens] using opens
    obtain ⟨test, isTest, rfl⟩ := comparison_form (e := .binary ty op left right) comparison text
    rw [undecided]
    exact .test comparison isTest
  | call | command | stream => cases idle
  | _ => cases opens

/-- The word of an argument. -/
theorem exists_argument {e : Expr} {m : Mode} {t : String} (closed : e.Closed)
    (output : m.substitute = true) (text : exprText m e = .ok t) :
    ∃ w : Word, w.value = e ∧ w.isLoose = e.opens m.quote m.decide ∧
      w.text = argMark m e ++ t ++ argMark m e := by
  -- Marks are only ever put around calls, so what does nothing is written as it is.
  cases effect : e.hasEffect with
  | false =>
    have unmarked : argMark m e = "" := by
      cases e <;> first | rfl | cases effect
    rw [unmarked, String.empty_append, String.append_empty]
    cases opens : e.opens m.quote m.decide with
    | false => exact ⟨.ofKept (exprText_kept effect closed opens text), rfl, rfl, rfl⟩
    | true => exact ⟨.ofLoose (exprText_loose effect opens text), rfl, rfl, rfl⟩
  | true =>
    obtain ⟨line, isLine, rfl⟩ := exprText_output effect output text
    cases e with
    | call ty name args =>
      cases quote : m.quote with
      | false =>
        refine ⟨.ofLoose (.output effect isLine), rfl, rfl, ?_⟩
        simp [Word.ofLoose, argMark, quote]
      | true =>
        refine ⟨.ofKept (.output effect isLine), rfl, rfl, ?_⟩
        simp [Word.ofKept, argMark, quote, Expr.isCall]
    | command | stream =>
      refine ⟨.ofLoose (.output effect isLine), rfl, rfl, ?_⟩
      simp [Word.ofLoose, argMark, Expr.isCall]
    | _ => cases effect

/-- The word of a result. Only the output of commands is quoted. -/
theorem exists_result {e : Expr} {m : Mode} {t : String} (closed : e.Closed)
    (output : m.substitute = true) (quote : m.quote = true) (decides : m.decide = true)
    (text : exprText m e = .ok t) :
    ∃ w : Word, w.value = e ∧ w.isLoose = (e.hasEffect && !e.isCommand) ∧
      w.text = returnMark e ++ t ++ returnMark e := by
  cases effect : e.hasEffect with
  | false =>
    have unmarked : returnMark e = "" := by
      cases e <;> first | rfl | cases effect
    have tight : e.opens m.quote m.decide = false := by
      rw [quote, decides]
      exact opens_of_idle effect
    rw [unmarked, String.empty_append, String.append_empty]
    exact ⟨.ofKept (exprText_kept effect closed tight text), rfl, rfl, rfl⟩
  | true =>
    obtain ⟨line, isLine, rfl⟩ := exprText_output effect output text
    cases e with
    | command =>
      refine ⟨.ofKept (.output effect isLine), rfl, rfl, ?_⟩
      simp [Word.ofKept, returnMark, Expr.isCommand]
    | call | stream =>
      refine ⟨.ofLoose (.output effect isLine), rfl, rfl, ?_⟩
      simp [Word.ofLoose, returnMark, Expr.isCommand]
    | _ => cases effect

/-! ## Rows of words -/

/-- The text of words with blanks before them. -/
def wordsText : List Word → String
  | [] => ""
  | w :: rest => " " ++ w.text ++ wordsText rest

/-- What is written behind the name of a function is a word for each argument. -/
theorem argsText_words {m : Mode} {args : List Expr} {t : String} (closed : ∀ e ∈ args, e.Closed)
    (output : m.substitute = true) (text : argsText m args = .ok t) :
    ∃ words : List Word, words.map Word.value = args ∧
      words.map Word.isLoose = args.map (Expr.opens m.quote m.decide) ∧ wordsText words = t := by
  induction args generalizing t with
  | nil =>
    cases text
    exact ⟨[], rfl, rfl, rfl⟩
  | cons arg rest ih =>
    rw [argsText] at text
    obtain ⟨s, isFirst, text⟩ := bind_eq_ok.mp text
    obtain ⟨others, areOthers, text⟩ := bind_eq_ok.mp text
    cases text
    obtain ⟨first, more⟩ := List.forall_mem_cons.mp closed
    obtain ⟨w, rfl, loose, same⟩ := exists_argument first output isFirst
    obtain ⟨words, rfl, looses, rfl⟩ := ih more areOthers
    refine ⟨w :: words, rfl, ?_, ?_⟩
    · rw [List.map_cons, loose, looses, List.map_cons]
    · rw [wordsText, same]

def isFieldBreak (c : Char) : Bool := c = ' ' || c = '\t' || c = '\n'

/-- The pieces of a text between blanks. -/
def fields (value : String) : List String :=
  ((value.toList.splitOnP isFieldBreak).filter (!·.isEmpty)).map String.ofList

/-- What the shell makes of a word that expands to this text. -/
def Word.passes (w : Word) (value : String) : List String :=
  if w.isLoose then fields value else [value]

/-- What the shell makes of words that expand to these texts. -/
def passed (words : List Word) (values : List String) : List String :=
  (List.zipWith Word.passes words values).flatten

/-- Words that are kept are passed one by one. -/
theorem passed_of_kept {words : List Word} (kept : ∀ w ∈ words, w.isLoose = false)
    {values : List String} (one : values.length = words.length) :
    passed words values = values := by
  induction words generalizing values with
  | nil =>
    cases values with
    | nil => rfl
    | cons => cases one
  | cons w words ih =>
    cases values with
    | nil => cases one
    | cons value values =>
      obtain ⟨first, others⟩ := List.forall_mem_cons.mp kept
      have rest := ih others (Nat.succ.inj one)
      rw [passed] at rest ⊢
      rw [List.zipWith_cons_cons, List.flatten_cons, rest, Word.passes, first]
      rfl

theorem fields_pair : fields "a b" = ["a", "b"] := by decide

/-- If each word expands to a text with a blank in it, each loose word becomes two. -/
theorem passed_length (words : List Word) :
    (passed words (words.map fun _ => "a b")).length =
      words.length + words.countP Word.isLoose := by
  induction words with
  | nil => rfl
  | cons w words ih =>
    rw [passed] at ih
    rw [passed, List.map_cons, List.zipWith_cons_cons, List.flatten_cons, List.length_append, ih,
      List.length_cons, List.countP_cons, Word.passes, fields_pair]
    cases w.isLoose
    · simp only [Bool.false_eq_true, if_false, List.length_singleton]
      omega
    · simp only [if_true, List.length_cons, List.length_nil]
      omega

/-! ## Calls and results in a script -/

/-- A call is written in the same way for its effect as inside an expression. -/
theorem Place.Holds.stands_call {place : Place} {frames : List Frame} {ty : Ty} {name : String}
    {args : List Expr} {script : String}
    (h : place.Holds (fill frames (.call ty name args)) script) :
    ∃ (m : Mode) (s : String), exprText m (.call ty name args) = .ok s ∧
      StandsFor script place frames (.call ty name args) s ∧
      m.decide = (frames.findSome? Frame.decides).getD
        (place.decides (fill frames (.call ty name args))) ∧
      m.substitute = (frames.findSome? Frame.substitutes).getD place.substitutes ∧
      m.quote = quotesIn place.quotes frames (.call ty name args) := by
  by_cases inner : place ≠ .effect ∨ frames ≠ []
  · exact h.stands rfl inner
  · obtain ⟨rfl, rfl⟩ : place = .effect ∧ frames = [] := by simpa using inner
    obtain ⟨m, s, sets, text, stands⟩ := h.stands_whole
    exact ⟨m, s, text, stands, sets.decides, sets.substitutes, sets.quotes⟩

/-- The argument of a call that stands in these frames is loose. -/
def opensAt (place : Place) (frames : List Frame) (call arg : Expr) : Bool :=
  arg.opens (quotesIn place.quotes frames call)
    ((frames.findSome? Frame.decides).getD (place.decides (fill frames call)))

/-- The call has a word for each argument where it stands in the script. -/
structure IsCalledWith (script : String) (place : Place) (frames : List Frame) (ty : Ty)
    (name : String) (args : List Expr) (words : List Word) : Prop where
  values : words.map Word.value = args
  loose : words.map Word.isLoose = args.map (opensAt place frames (.call ty name args))
  stands : StandsFor script place frames (.call ty name args)
    (if (frames.findSome? Frame.substitutes).getD place.substitutes
      then substituted (name ++ wordsText words) else name ++ wordsText words)

/-- The words of a call stand in the script with it. -/
theorem exists_call_words {script : String} {place : Place} {frames : List Frame} {ty : Ty}
    {name : String} {args : List Expr}
    (h : place.Holds (fill frames (.call ty name args)) script)
    (closed : ∀ arg ∈ args, arg.Closed) :
    ∃ words, IsCalledWith script place frames ty name args words := by
  obtain ⟨m, s, text, stands, decides, substitutes, quotes⟩ := h.stands_call
  rw [exprText] at text
  obtain ⟨t, isText, text⟩ := bind_eq_ok.mp text
  obtain ⟨words, values, loose, rfl⟩ := argsText_words closed rfl isText
  have same : s = if m.substitute then substituted (name ++ wordsText words)
      else name ++ wordsText words := by
    cases text
    cases on : m.substitute <;>
      simp [substitutionOpen, substitutionClose, substituted, on, String.append_assoc]
  refine ⟨words, values, ?_, ?_⟩
  · rw [loose]
    simp only [quotes, decides]
    rfl
  · rw [← substitutes, ← same]
    exact stands

/-- A call passes on as many texts as it has arguments just if no argument is loose, and then it
passes them on as they are. -/
theorem IsCalledWith.passes {script : String} {place : Place} {frames : List Frame} {ty : Ty}
    {name : String} {args : List Expr} {words : List Word}
    (h : IsCalledWith script place frames ty name args words) :
    ((∀ values, values.length = args.length → (passed words values).length = args.length) ↔
      ∀ arg ∈ args, opensAt place frames (.call ty name args) arg = false) ∧
    ((∀ arg ∈ args, opensAt place frames (.call ty name args) arg = false) →
      ∀ values, values.length = args.length → passed words values = values) := by
  have count : words.length = args.length := by
    rw [← h.values, List.length_map]
  have keeps (tight : ∀ arg ∈ args, opensAt place frames (.call ty name args) arg = false) :
      ∀ values, values.length = args.length → passed words values = values := by
    intro values one
    refine passed_of_kept (fun w mem => ?_) (one.trans count.symm)
    have isIn : w.isLoose ∈ args.map (opensAt place frames (.call ty name args)) := by
      rw [← h.loose]
      exact List.mem_map_of_mem mem
    obtain ⟨arg, isArg, same⟩ := List.mem_map.mp isIn
    rw [← same, tight arg isArg]
  refine ⟨⟨fun counts arg isArg => ?_, fun tight values one => ?_⟩, keeps⟩
  · cases opens : opensAt place frames (.call ty name args) arg with
    | false => rfl
    | true =>
      have isIn : true ∈ words.map Word.isLoose := by
        rw [h.loose, ← opens]
        exact List.mem_map_of_mem isArg
      obtain ⟨w, mem, loose⟩ := List.mem_map.mp isIn
      have some : 0 < words.countP Word.isLoose := List.countP_pos_iff.mpr ⟨w, mem, loose⟩
      -- If every argument has a blank in it, each loose word adds one to the count.
      have same := counts (words.map fun _ => "a b") (by rw [List.length_map, count])
      rw [passed_length] at same
      omega
  · rw [keeps tight values one, one]

/-- The result is the word after `echo` where it stands in the script, with the
quotes of a command. -/
structure IsReturnedAs (script : String) (e : Expr) (w : Word) : Prop where
  value : w.value = e
  line : Inside ("echo " ++ w.text ++ "; exit") script
  stands : ∃ t, w.text = returnMark e ++ t ++ returnMark e ∧ StandsFor script .returned [] e t

/-- In the script of a program, a call passes on its arguments, as many as it has and as they
are, just if none of them is loose. Commands and pipelines always are, variables and calls are
where what stands around the call has switched quotes off, and comparisons are where it has asked
for tests. A result is handed to `echo` as it is just if it is neither a call nor a pipeline. -/
theorem words_of_calls_and_returns {library : Bool} {p : Surface.Program} {module : Module}
    {target : Target} {script : String} (obtained : Obtained p)
    (resolved : Module.ofProgram library p = .ok module)
    (written : generate target library module = .ok script) :
    (∀ place frames ty name args, (place, fill frames (.call ty name args)) ∈ module.roots →
      ∃ words, IsCalledWith script place frames ty name args words ∧
        ((∀ values, values.length = args.length → (passed words values).length = args.length) ↔
          ∀ arg ∈ args, opensAt place frames (.call ty name args) arg = false) ∧
        ((∀ arg ∈ args, opensAt place frames (.call ty name args) arg = false) →
          ∀ values, values.length = args.length → passed words values = values)) ∧
    ∀ e, (.returned, e) ∈ module.roots →
      ∃ w : Word, IsReturnedAs script e w ∧
        ((∀ value, w.passes value = [value]) ↔ (e.hasEffect && !e.isCommand) = false) := by
  constructor
  · intro place frames ty name args root
    have closed : ∀ arg ∈ args, arg.Closed := by
      intro arg mem
      obtain ⟨before, after, rfl⟩ := List.append_of_mem mem
      have isIn : (place, fill (.argument ty name before after :: frames) arg) ∈ module.roots :=
        root
      exact closed_of_root obtained resolved isIn
    obtain ⟨words, called⟩ := exists_call_words (generate_holds written root) closed
    exact ⟨words, called, called.passes⟩
  · intro e root
    have isIn : (Place.returned, fill [] e) ∈ module.roots := root
    have closed := closed_of_root obtained resolved isIn
    obtain ⟨m, t, sets, text, stands⟩ := (generate_holds written root).stands_whole
    obtain ⟨w, rfl, loose, same⟩ :=
      exists_result closed sets.substitutes sets.quotes sets.decides text
    refine ⟨w, ⟨rfl, ?_, t, same, stands⟩, ?_⟩
    · rw [same]
      simpa [Place.around, String.append_assoc] using stands.inside
    · rw [← loose]
      constructor
      · intro keeps
        cases isLoose : w.isLoose with
        | false => rfl
        | true =>
          have pair := keeps "a b"
          rw [Word.passes, isLoose, if_pos rfl, fields_pair] at pair
          exact absurd pair (by decide)
      · intro kept value
        rw [Word.passes, kept]
        rfl

def Expr.arguments : Expr → List Expr
  | .call _ _ args => args
  | _ => []

/-- One call has a command for argument, and another one is returned. -/
def looseSample : Source :=
  ⟨"def g() \x7b return \"a  b\"; \x7d def f(a) \x7b return g(); \x7d x = f(@(echo a b));"⟩

theorem words_of_calls_and_returns_loose :
    ∃ p module script, readProgram "sample" looseSample = .ok p ∧
      Module.ofProgram true p = .ok module ∧ generate .bash true module = .ok script ∧
      (∃ place ty name args words, (place, .call ty name args) ∈ module.roots ∧
        IsCalledWith script place [] ty name args words ∧
        ¬∀ values, values.length = args.length → (passed words values).length = args.length) ∧
      ∃ e w, (.returned, e) ∈ module.roots ∧ IsReturnedAs script e w ∧
        ¬∀ value, w.passes value = [value] := by
  obtain ⟨p, module, script, isRead, resolved, written, holds⟩ :=
    exists_written "sample" looseSample
      (fun module =>
        module.roots.any (fun root => root.2.arguments.any (opensAt root.1 [] root.2)) &&
          module.roots.any fun root =>
            root.1 = .returned && (root.2.hasEffect && !root.2.isCommand))
      (by decide +kernel)
  obtain ⟨calls, returns⟩ := words_of_calls_and_returns (.read isRead) resolved written
  obtain ⟨call, result⟩ := Bool.and_eq_true_iff.mp holds
  refine ⟨p, module, script, isRead, resolved, written, ?_, ?_⟩
  · obtain ⟨⟨place, e⟩, root, loose⟩ := List.any_eq_true.mp call
    obtain ⟨arg, isArg, opens⟩ := List.any_eq_true.mp loose
    cases e with
    | call ty name args =>
      obtain ⟨words, called, counts, -⟩ := calls place [] ty name args root
      refine ⟨place, ty, name, args, words, root, called, fun same => ?_⟩
      have tight := counts.mp same arg isArg
      rw [opens] at tight
      cases tight
    | _ => cases isArg
  · obtain ⟨⟨place, e⟩, root, shape⟩ := List.any_eq_true.mp result
    obtain ⟨returned, loose⟩ := Bool.and_eq_true_iff.mp shape
    cases of_decide_eq_true returned
    obtain ⟨w, isReturned, keeps⟩ := returns e root
    refine ⟨e, w, root, isReturned, fun same => ?_⟩
    have tight := keeps.mp same
    rw [loose] at tight
    cases tight

/-! ## Tests for equality -/

theorem isEquality_of_operatorWord {asText : Bool} {op : BinaryOp}
    (h : operatorWord asText op = "==" ∨ operatorWord asText op = "!=") :
    op.isEquality = true ∧ asText = true := by
  cases asText <;> cases op <;> revert h <;> decide

/-- Texts are compared with both operands quoted, if they are variables. -/
theorem exprText_equality {ty : Ty} {op : BinaryOp} {left right : Expr} {m : Mode} {s : String}
    (equality : op.isEquality = true) (asText : comparesText op left right = true)
    (text : exprText m (.binary ty op left right) = .ok s) :
    ∃ l r, exprText { m with decide := true, quote := true } left = .ok l ∧
      exprText { m with decide := true, quote := true } right = .ok r ∧
      s = if m.decide then decided (l ++ (" " ++ operatorWord true op ++ " ") ++ r)
        else l ++ (" " ++ operatorWord true op ++ " ") ++ r := by
  rw [exprText, asText] at text
  obtain ⟨l, isLeft, text⟩ := bind_eq_ok.mp text
  obtain ⟨r, isRight, text⟩ := bind_eq_ok.mp text
  have logical : op.isLogical = false := by
    cases op <;> first | rfl | cases equality
  have arithmetic : op.isArithmetic = false := by
    cases op <;> first | rfl | cases equality
  have opposite : isOpposite true op = false := by
    cases op <;> first | rfl | cases equality
  rw [logical, arithmetic] at isLeft isRight
  refine ⟨l, r, isLeft, isRight, ?_⟩
  cases text
  cases on : m.decide <;>
    simp [binaryOpen, binaryClose, operandOpen, operandClose, BinaryOp.isComparison, logical,
      arithmetic, opposite, decided, on, String.append_assoc]

/-- Wherever a script tests with `==` or `!=`, what stands on the right is no pattern if the
value does nothing: it is quoted, or a number. If it is a call, a command or a pipeline, then its
output stands there without quotes, and the shell reads it as a pattern. Inside a pipeline the
command line of a call or a command itself stands there. -/
theorem equality_operand_form {library : Bool} {p : Surface.Program} {module : Module}
    {target : Target} {script : String} (obtained : Obtained p)
    (resolved : Module.ofProgram library p = .ok module)
    (written : generate target library module = .ok script) {place : Place} {frames : List Frame}
    {ty : Ty} {op : BinaryOp} {left right : Expr}
    (sign : operatorWord (comparesText op left right) op = "==" ∨
      operatorWord (comparesText op left right) op = "!=")
    (root : (place, fill frames (.binary ty op left right)) ∈ module.roots) :
    ∃ l r, StandsFor script place frames (.binary ty op left right)
        (if (frames.findSome? Frame.decides).getD
            (place.decides (fill frames (.binary ty op left right)))
          then decided (l ++ (" " ++ operatorWord true op ++ " ") ++ r)
          else l ++ (" " ++ operatorWord true op ++ " ") ++ r) ∧
      (right.hasEffect = false → Kept right r) ∧
      (right.hasEffect = true → ∃ line, IsLine right line ∧
        r = if (right.isCall || right.isCommand) &&
            !(frames.findSome? Frame.substitutes).getD place.substitutes
          then line else substituted line) := by
  obtain ⟨equality, asText⟩ := isEquality_of_operatorWord sign
  have inner : place ≠ .effect ∨ frames ≠ [] := by
    by_cases bare : frames = []
    · subst bare
      refine .inl fun effect => ?_
      subst effect
      cases ofProgram_effects resolved _ root
    · exact .inr bare
  obtain ⟨m, s, text, stands, decides, substitutes, -⟩ :=
    (generate_holds written root).stands rfl inner
  obtain ⟨l, r, -, isRight, same⟩ := exprText_equality equality asText text
  -- The right operand is an expression of the program as well, one frame further in.
  have isIn : (place, fill (.right ty op left :: frames) right) ∈ module.roots := root
  have closed := closed_of_root obtained resolved isIn
  refine ⟨l, r, ?_, fun idle => ?_, fun effect => ?_⟩
  · rw [← decides, ← same]
    exact stands
  · exact exprText_kept idle closed (opens_of_idle idle) isRight
  · obtain ⟨line, isLine, same⟩ := exprText_line effect isRight
    refine ⟨line, isLine, ?_⟩
    rw [same, ← substitutes]

/-- A text is compared with the output of a command, and the value of the comparison is
wanted. -/
def comparesCommand : Place × Expr → Bool
  | (place, .binary ty .eq left right) =>
    comparesText .eq left right && right.isCommand &&
      (place.decides (.binary ty .eq left right) && place.substitutes)
  | _ => false

theorem equality_operand_form_command :
    ∃ p module script, readProgram "sample" ⟨"s = \"abc\"; r = s == @(echo x);"⟩ = .ok p ∧
      Module.ofProgram true p = .ok module ∧ generate .bash true module = .ok script ∧
      ∃ place ty left right l line, (place, .binary ty .eq left right) ∈ module.roots ∧
        right.isCommand = true ∧ IsLine right line ∧
        StandsFor script place [] (.binary ty .eq left right)
          (decided (l ++ (" " ++ "==" ++ " ") ++ substituted line)) := by
  obtain ⟨p, module, script, isRead, resolved, written, holds⟩ :=
    exists_written "sample" ⟨"s = \"abc\"; r = s == @(echo x);"⟩
      (fun module => module.roots.any comparesCommand) (by decide +kernel)
  refine ⟨p, module, script, isRead, resolved, written, ?_⟩
  obtain ⟨⟨place, e⟩, root, shape⟩ := List.any_eq_true.mp holds
  unfold comparesCommand at shape
  split at shape
  case h_1 ty left right same =>
    cases same
    obtain ⟨texts, wanted⟩ := Bool.and_eq_true_iff.mp shape
    obtain ⟨asText, command⟩ := Bool.and_eq_true_iff.mp texts
    obtain ⟨decides, substitutes⟩ := Bool.and_eq_true_iff.mp wanted
    have isIn : (place, fill [] (.binary ty .eq left right)) ∈ module.roots := root
    have effect : right.hasEffect = true := by
      cases right <;> first | rfl | cases command
    obtain ⟨l, r, stands, -, output⟩ :=
      equality_operand_form (.read isRead) resolved written (by rw [asText]; exact .inl rfl) isIn
    obtain ⟨line, isLine, same⟩ := output effect
    refine ⟨place, ty, left, right, l, line, root, command, isLine, ?_⟩
    rw [same] at stands
    simpa [operatorWord, decides, substitutes] using stands
  case h_2 => cases shape

end Shellwright.Core
