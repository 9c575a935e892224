import Shellwright.Proofs.Places
import Shellwright.Proofs.WrittenText

/-!
# Parameters and positions

A function of a script takes its parameters from the positions of a call, each in a line of its
own at the start of its body. A position is written as a number after `$`, and the shell takes
one digit for it: the digits behind that one stay as they are, so that from the tenth on a
parameter gets another position's word with digits behind it.

* `readPositions argv text`: what the shell makes of positions in a text, where a
  call has these words.
* `denotes_iff`: a written position is read back if it has one digit.
* `parameter_lines`: the lines that parameters add to a script, and what they give to them.
-/

namespace Shellwright.Script

open Shellwright.Core

/-! ## Reading positions -/

/-- A text in double quotes, with the positions in it replaced by the words of a call: the name
of what is called and then its arguments. A dollar sign takes one digit. -/
def readPositions (argv : List String) : List Char → List Char
  | [] => []
  | [c] => [c]
  | c :: d :: rest =>
    if c = '$' ∧ d.isDigit = true then
      (argv.getD (d.toNat - '0'.toNat) "").toList ++ readPositions argv rest
    else c :: readPositions argv (d :: rest)

/-- In a call with `n` arguments a text stands for the word at a position,
whatever the words are. -/
def Denotes (n : Nat) (text : String) (i : Nat) : Prop :=
  ∀ argv : List String, argv.length = n + 1 →
    readPositions argv text.toList = (argv.getD i "").toList

theorem readPositions_of_digits (argv : List String) {cs : List Char}
    (digits : ∀ c ∈ cs, c.isDigit = true) : readPositions argv cs = cs := by
  fun_induction readPositions argv cs with
  | case1 => rfl
  | case2 => rfl
  | case3 c d rest isPosition =>
    cases isPosition.1
    cases digits '$' (.head _)
  | case4 c d rest _ ih => rw [ih fun c mem => digits c (.tail _ mem)]

theorem isDigit_of_mem_toDigits {i : Nat} {c : Char} (mem : c ∈ Nat.toDigits 10 i) :
    c.isDigit = true :=
  Nat.isDigit_of_mem_toDigits (b := 10) (n := i) (by decide) (by decide) mem

/-- The first digit is the position, and the others stay. -/
theorem readPositions_position (argv : List String) {i : Nat} {d : Char} {ds : List Char}
    (digits : Nat.toDigits 10 i = d :: ds) :
    readPositions argv ("$" ++ toString i).toList =
      (argv.getD (d.toNat - '0'.toNat) "").toList ++ ds := by
  have all : ∀ c ∈ d :: ds, c.isDigit = true := fun c mem =>
    isDigit_of_mem_toDigits (digits.symm ▸ mem)
  have text : ("$" ++ toString i).toList = '$' :: d :: ds := by
    simp [← digits]
  rw [text, readPositions, if_pos ⟨rfl, all d (.head _)⟩,
    readPositions_of_digits argv fun c mem => all c (.tail _ mem)]

/-- Only positions of one digit are read as they are meant. -/
theorem denotes_iff (n i : Nat) : Denotes n ("$" ++ toString i) i ↔ i ≤ 9 := by
  constructor
  · intro denotes
    by_contra more
    have digits := Nat.toDigits_eq_if (b := 10) (n := i) (by decide)
    rw [if_neg (by omega)] at digits
    obtain ⟨d, ds, first⟩ :=
      List.exists_cons_of_ne_nil (Nat.toDigits_ne_nil (b := 10) (n := i / 10))
    rw [first, List.cons_append] at digits
    -- where all words are empty, the digits that are left show
    have read := denotes (List.replicate (n + 1) "") List.length_replicate
    have empty : ∀ k, (List.replicate (n + 1) "").getD k "" = "" := by
      intro k
      rw [List.getD_eq_getElem?_getD, List.getElem?_replicate]
      split <;> rfl
    rw [readPositions_position _ digits, empty, empty] at read
    simp at read
  · intro one argv _
    have digits : Nat.toDigits 10 i = [i.digitChar] := Nat.toDigits_of_lt_base (by omega)
    rw [readPositions_position argv digits, Nat.toNat_digitChar_of_lt_ten (by omega)]
    simp

/-! ## The lines of parameters -/

/-- Each parameter has a line, which names its position. -/
theorem exists_paramLines (m : Mode) (k : Nat) (names : List String) :
    ∃ lines, paramLines m k names = String.join lines ∧ lines.length = names.length ∧
      ∀ i name, names[i]? = some name → lines[i]? =
        some (m.margin ++ "local " ++ name ++ "=\"" ++ ("$" ++ toString (k + i)) ++
          "\";\n") := by
  induction names generalizing k with
  | nil => exact ⟨[], by simp [paramLines], rfl, by simp⟩
  | cons name rest ih =>
    obtain ⟨lines, joined, length, each⟩ := ih (k + 1)
    have mark : "=\"$" = "=\"" ++ "$" := rfl
    refine ⟨_ :: lines, by rw [paramLines, joined, String.join_cons], by simp [length], ?_⟩
    intro i name isName
    cases i with
    | zero =>
      cases isName
      rw [List.getElem?_cons_zero, mark, Nat.add_zero]
      simp only [String.append_assoc]
    | succ i =>
      have further : k + (i + 1) = k + 1 + i := by omega
      rw [further]
      exact each i name isName

end Shellwright.Script

namespace Shellwright.Core

open Shellwright.Script

/-- The function as it is without parameters. -/
def Function.bare (f : Function) : Function := { f with params := [] }

/-- What a function's parameters add to its text. -/
theorem functionText_bare {f : Function} {t : String} (isSome : f.body.isSome = true)
    (h : functionText .initial f = .ok t) :
    ∃ rest, t = "function " ++ f.name ++ " () \x7b\n"
        ++ paramLines (Change.deeper.apply .initial) 1 (f.params.map (·.name)) ++ rest ∧
      functionText .initial f.bare = .ok ("function " ++ f.name ++ " () \x7b\n" ++ rest) := by
  obtain ⟨body, isBody⟩ := Option.isSome_iff_exists.mp isSome
  rw [functionText, isBody] at h
  obtain ⟨lines, areLines, h⟩ := bind_eq_ok.mp h
  cases h
  have opens : " () \x7b\n" = " () " ++ "\x7b\n" := rfl
  refine ⟨lines ++ placeholder (Change.deeper.apply .initial) body ++ "\x7d\n\n", ?_, ?_⟩
  · rw [opens, blockText]
    simp only [String.append_assoc]
    rfl
  · rw [functionText, Function.bare, isBody, opens]
    simp only [areLines, bind, Except.bind, blockText, List.map_nil, paramLines,
      String.empty_append, String.append_assoc]
    rfl

theorem entryCall_bare (library : Bool) {module : Module} {before after : List Function}
    {f : Function} (isFunction : module.functions = before ++ f :: after) :
    entryCall library { module with functions := before ++ f.bare :: after } =
      entryCall library module := by
  simp only [entryCall, isFunction, List.any_append, List.any_cons]
  rfl

/-- In a function that has a body, each parameter has a line of its own at the start of the body,
and all else in the script is as if there were no parameters. The line of a parameter gives it
the word at its own position if it is one of the first nine. Any other gets the word at the
position of the first digit, with the other digits behind it. -/
theorem parameter_lines {target : Target} {library : Bool} {module : Module} {script : String}
    (written : generate target library module = .ok script) {before after : List Function}
    {f : Function} (isFunction : module.functions = before ++ f :: after)
    (isSome : f.body.isSome = true) :
    ∃ front lines back,
      script = front ++ ("function " ++ f.name ++ " () \x7b\n" ++ String.join lines ++ back) ∧
      generate target library { module with functions := before ++ f.bare :: after } =
        .ok (front ++ ("function " ++ f.name ++ " () \x7b\n" ++ back)) ∧
      lines.length = f.params.length ∧
      ∀ i v, f.params[i]? = some v → ∃ e,
        lines[i]? = some ("    local " ++ v.name ++ "=\"" ++ e ++ "\";\n") ∧
        (Denotes f.params.length e (i + 1) ↔ i < 9) ∧
        ∃ d ds, Nat.toDigits 10 (i + 1) = d :: ds ∧ ∀ argv,
          readPositions argv e.toList = (argv.getD (d.toNat - '0'.toNat) "").toList ++ ds := by
  obtain ⟨t, text, rfl⟩ := generate_eq_ok written
  obtain ⟨functions, areFunctions, text⟩ := bind_eq_ok.mp text
  obtain ⟨globals, areGlobals, text⟩ := bind_eq_ok.mp text
  obtain ⟨entry, isEntry, text⟩ := bind_eq_ok.mp text
  cases text
  rw [isFunction, functionsText_append] at areFunctions
  obtain ⟨first, isFirst, areFunctions⟩ := bind_eq_ok.mp areFunctions
  obtain ⟨others, areOthers, areFunctions⟩ := bind_eq_ok.mp areFunctions
  cases areFunctions
  obtain ⟨own, isOwn, areOthers⟩ := bind_eq_ok.mp areOthers
  obtain ⟨later, isLater, areOthers⟩ := bind_eq_ok.mp areOthers
  cases areOthers
  obtain ⟨rest, rfl, bare⟩ := functionText_bare isSome isOwn
  obtain ⟨lines, joined, length, each⟩ :=
    exists_paramLines (Change.deeper.apply .initial) 1 (f.params.map (·.name))
  refine ⟨target.shebang ++ "\n" ++ first, lines, rest ++ later ++ globals ++ entry,
    ?_, ?_, ?_, ?_⟩
  · rw [joined]
    simp only [String.append_assoc]
  · have same : moduleText .initial library
        { module with functions := before ++ f.bare :: after } =
        .ok (first ++ ("function " ++ f.name ++ " () \x7b\n" ++ rest ++ later) ++ globals ++
          entry) := by
      simp only [moduleText, functionsText_append, functionsText, isFirst, bare, isLater,
        areGlobals, entryCall_bare library isFunction, isEntry, bind, Except.bind, pure,
        Except.pure]
    rw [generate_eq, same]
    simp only [String.append_assoc]
  · rw [length, List.length_map]
  · intro i v isParam
    have isLine := each i v.name (by rw [List.getElem?_map, isParam]; rfl)
    rw [Nat.add_comm 1 i] at isLine
    obtain ⟨d, ds, digits⟩ :=
      List.exists_cons_of_ne_nil (Nat.toDigits_ne_nil (b := 10) (n := i + 1))
    refine ⟨_, isLine, ?_, d, ds, digits, fun argv => readPositions_position argv digits⟩
    rw [denotes_iff]
    omega

/-- A function with ten parameters. -/
def tenthSample : Source :=
  ⟨"def f(a, b, c, d, e, g, h, i, j, k) \x7b if (a) \x7b return k; \x7d \x7d"⟩

/-- The tenth parameter gets the first word and a zero. -/
theorem parameter_lines_tenth :
    ∃ p module script, readProgram "sample" tenthSample = .ok p ∧
      Module.ofProgram true p = .ok module ∧ generate .bash true module = .ok script ∧
      ∃ f ∈ module.functions, f.params.length = 10 ∧ ∃ front lines back v e,
        script = front ++ ("function " ++ f.name ++ " () \x7b\n" ++ String.join lines ++ back) ∧
        lines.length = 10 ∧ f.params[9]? = some v ∧
        lines[9]? = some ("    local " ++ v.name ++ "=\"" ++ e ++ "\";\n") ∧ ¬Denotes 10 e 10 ∧
        ∀ argv, readPositions argv e.toList = (argv.getD 1 "").toList ++ ['0'] := by
  obtain ⟨p, module, script, isRead, resolved, written, asked⟩ :=
    exists_written "sample" tenthSample
      (fun module => module.functions.any fun f => f.body.isSome && f.params.length = 10)
      (by decide +kernel)
  obtain ⟨f, mem, shape⟩ := List.any_eq_true.mp asked
  obtain ⟨isSome, length⟩ := Bool.and_eq_true_iff.mp shape
  have ten : f.params.length = 10 := of_decide_eq_true length
  obtain ⟨before, after, isFunction⟩ := List.append_of_mem mem
  obtain ⟨front, lines, back, isScript, -, count, each⟩ :=
    parameter_lines written isFunction isSome
  have isParam : f.params[9]? = some f.params[9] := List.getElem?_eq_getElem _
  obtain ⟨e, isLine, denotes, d, ds, digits, reads⟩ := each 9 _ isParam
  refine ⟨p, module, script, isRead, resolved, written, f, mem, ten, front, lines, back, _, e,
    isScript, count.trans ten, isParam, isLine, fun bad => ?_, fun argv => ?_⟩
  · rw [ten] at denotes
    exact absurd (denotes.mp bad) (by decide)
  · cases digits
    exact reads argv

end Shellwright.Core
