import Shellwright.Proofs.Outcome
import Shellwright.Proofs.Respelling
import Shellwright.Script.Text
import Shellwright.Surface.Parser

/-!
# Literals in the script

The text of a string or of a command goes through three stages: the token's raw text is split,
its names are looked up, and the pieces are written. What comes out still closes where it closed
in the source, and it splits into the same items.

* `textBody_respelled`, `commandBody_respelled`: what closes a text also closes the text with its
  references written anew.
* `commandBody_trim`: dropping the blanks around a command does not change where it closes.
-/

namespace Shellwright.Core

open Text (trim trimEnd isBlank)
open Surface.Segment (IsName spelling)

/-! ## Strings -/

/-- A plain character of a string stands for itself. -/
theorem textBody_char {c : Char} (quote : c ≠ '"') (backslash : c ≠ '\\') (cs : List Char) :
    textBody (c :: cs) = (textBody cs).map (c :: ·) := by
  rw [textBody]
  · exact fun same _ => backslash same
  · exact quote
  · exact fun _ _ same _ => backslash same

/-- So does plain text. -/
theorem textBody_append {xs : List Char} (quote : '"' ∉ xs) (backslash : '\\' ∉ xs)
    (cs : List Char) : textBody (xs ++ cs) = (textBody cs).map (xs ++ ·) := by
  induction xs with
  | nil =>
    rw [List.nil_append]
    cases textBody cs <;> rfl
  | cons x xs ih =>
    rw [List.mem_cons, not_or] at quote backslash
    rw [List.cons_append, textBody_char (Ne.symm quote.1) (Ne.symm backslash.1),
      ih quote.2 backslash.2]
    cases textBody cs <;> rfl

/-- Plain text before a string does not change where the string ends. -/
theorem textBody_append_eq_ok {xs r rest : List Char} (quote : '"' ∉ xs)
    (backslash : '\\' ∉ xs) :
    textBody (xs ++ r ++ '"' :: rest) = .ok (xs ++ r) ↔ textBody (r ++ '"' :: rest) = .ok r := by
  rw [List.append_assoc, textBody_append quote backslash]
  constructor
  · intro closed
    obtain ⟨inner, found, same⟩ := map_eq_ok.mp closed
    rw [List.append_cancel_left same] at found
    exact found
  · intro closed
    rw [closed]
    rfl

/-- The text of a string ends at the next quote, whatever follows. -/
theorem textBody_self {cs body : List Char} (h : textBody cs = .ok body) (rest : List Char) :
    textBody (body ++ '"' :: rest) = .ok body := by
  fun_induction textBody cs generalizing body with
  | case1 => cases h
  | case2 => cases h
  | case3 =>
    cases h
    rw [List.nil_append, textBody]
  | case4 c cs ih =>
    obtain ⟨inner, found, rfl⟩ := map_eq_ok.mp h
    rw [List.cons_append, List.cons_append, textBody, ih found]
    rfl
  | case5 c cs lone quote escape ih =>
    obtain ⟨inner, found, rfl⟩ := map_eq_ok.mp h
    have backslash : c ≠ '\\' := by
      intro same
      cases cs with
      | nil => exact lone same rfl
      | cons d cs => exact escape d cs same rfl
    rw [List.cons_append, textBody_char quote backslash, ih found]
    rfl

/-- A string with its references respelled ends at its own quote, too. -/
theorem textBody_respelled {s : Scope} {r t rest : List Char} (h : Respelled s r t)
    (closed : textBody (r ++ '"' :: rest) = .ok r) : textBody (t ++ '"' :: rest) = .ok t := by
  induction h with
  | nil => exact closed
  | escape c _ ih =>
    rw [List.cons_append, List.cons_append, textBody] at closed ⊢
    obtain ⟨inner, found, same⟩ := map_eq_ok.mp closed
    cases same
    rw [ih found]
    rfl
  | @plain r t c lone _ _ ih =>
    by_cases quote : c = '"'
    · rw [quote, List.cons_append, textBody] at closed
      cases closed
    by_cases backslash : c = '\\'
    · rw [backslash, lone backslash, List.cons_append, List.nil_append, textBody] at closed
      obtain ⟨inner, -, same⟩ := map_eq_ok.mp closed
      cases same
    rw [List.cons_append, textBody_char quote backslash] at closed ⊢
    obtain ⟨inner, found, same⟩ := map_eq_ok.mp closed
    cases same
    rw [ih found]
    rfl
  | reference isName _ _ _ _ ih =>
    have quote braced := isName.not_mem_reference (c := '"') braced rfl nofun nofun nofun
    have backslash braced := isName.not_mem_reference (c := '\\') braced rfl nofun nofun nofun
    have inner := ih ((textBody_append_eq_ok (quote _) (backslash _)).mp closed)
    exact (textBody_append_eq_ok (quote _) (backslash _)).mpr inner

/-! ## Commands -/

/-- What is open after a character; nothing is said if the character closes the command. -/
def opened (depth : Nat) : Option Char → Char → Option (Nat × Option Char)
  | some quote, c => if c = quote then some (depth, none) else some (depth, some quote)
  | none, c =>
    if c = '\x27' || c = '"' then some (depth, some c)
    else if c = '(' then some (depth + 1, none)
    else if c = ')' then
      match depth with
      | 0 => none
      | depth + 1 => some (depth, none)
    else some (depth, none)

/-- Nothing or one of the two quotes. -/
def IsQuotation (quote : Option Char) : Prop := ∀ c ∈ quote, c = '\x27' ∨ c = '"'

theorem isQuotation_none : IsQuotation none := fun _ mem => nomatch mem

/-- A step inside a command leaves a kind of quotation, or none. -/
theorem IsQuotation.opened {depth depth' : Nat} {quote quote' : Option Char} {c : Char}
    (h : IsQuotation quote) (step : opened depth quote c = some (depth', quote')) :
    IsQuotation quote' := by
  cases quote with
  | some q =>
    simp only [Core.opened] at step
    split at step
    · cases step
      nofun
    · cases step
      exact h
  | none =>
    simp only [Core.opened] at step
    split at step
    · next quotes =>
      cases step
      rintro d ⟨⟩
      simpa using quotes
    · split at step
      · cases step
        nofun
      · split at step
        · split at step
          · cases step
          · cases step
            nofun
        · cases step
          nofun

/-- A character of a command is taken, and may open or close something. -/
theorem commandBody_cons {quote : Option Char} {c : Char} (h : quote = none ∨ c ≠ '\\')
    (depth : Nat) (cs : List Char) :
    commandBody depth quote (c :: cs) =
      match opened depth quote c with
      | none => some []
      | some (depth', quote') => (commandBody depth' quote' cs).map (c :: ·) := by
  cases quote with
  | some q =>
    have backslash : c ≠ '\\' := h.resolve_left nofun
    rw [commandBody.eq_def, opened]
    by_cases same : c = q
    · simp only [same, if_true]
    · simp only [same, backslash, if_false]
  | none =>
    rw [commandBody.eq_def, opened.eq_def]
    dsimp only
    split
    · rfl
    · split
      · rfl
      · split
        · cases depth <;> rfl
        · rfl

/-- Inside quotes a backslash takes the next character with it. -/
theorem commandBody_escape {quote : Char} (other : quote ≠ '\\') (depth : Nat) (c : Char)
    (cs : List Char) :
    commandBody depth (some quote) ('\\' :: c :: cs) =
      (commandBody depth (some quote) cs).map fun body => '\\' :: c :: body := by
  rw [commandBody, if_neg (Ne.symm other), if_pos rfl]

theorem IsQuotation.ne_backslash {quote : Char} (h : IsQuotation (some quote)) :
    quote ≠ '\\' := by
  rcases h quote rfl with rfl | rfl
  · nofun
  · nofun

/-- The bracket closes the text, when `depth` brackets and perhaps a quote are open before it. -/
def Closes (depth : Nat) (quote : Option Char) (r rest : List Char) : Prop :=
  commandBody depth quote (r ++ ')' :: rest) = some r

/-- A command closes after a character just if the rest closes what is open then. -/
theorem closes_cons {depth : Nat} {quote : Option Char} {c : Char} {r rest : List Char}
    (h : quote = none ∨ c ≠ '\\') :
    Closes depth quote (c :: r) rest ↔
      ∃ depth' quote', opened depth quote c = some (depth', quote') ∧
        Closes depth' quote' r rest := by
  rw [Closes, List.cons_append, commandBody_cons h]
  cases step : opened depth quote c with
  | none => exact ⟨nofun, nofun⟩
  | some state =>
    obtain ⟨depth', quote'⟩ := state
    constructor
    · intro closed
      obtain ⟨inner, found, same⟩ := Option.map_eq_some_iff.mp closed
      cases same
      exact ⟨depth', quote', rfl, found⟩
    · rintro ⟨depth', quote', same, closed⟩
      cases same
      exact Option.map_eq_some_iff.mpr ⟨r, closed, rfl⟩

/-- An escaped character in quotes opens and closes nothing. -/
theorem closes_escape {depth : Nat} {quote c : Char} {r rest : List Char}
    (h : IsQuotation (some quote)) :
    Closes depth (some quote) ('\\' :: c :: r) rest ↔ Closes depth (some quote) r rest := by
  rw [Closes, List.cons_append, List.cons_append, commandBody_escape h.ne_backslash]
  constructor
  · intro closed
    obtain ⟨inner, found, same⟩ := Option.map_eq_some_iff.mp closed
    cases same
    exact found
  · intro closed
    exact Option.map_eq_some_iff.mpr ⟨r, closed, rfl⟩

/-- Inside quotes a backslash takes the bracket after it, so the command does not end there. -/
theorem not_closes_backslash {depth : Nat} {quote : Char} {rest : List Char}
    (h : IsQuotation (some quote)) : ¬Closes depth (some quote) ['\\'] rest := by
  intro closed
  rw [Closes, List.cons_append, List.nil_append, commandBody_escape h.ne_backslash] at closed
  obtain ⟨inner, -, same⟩ := Option.map_eq_some_iff.mp closed
  cases same

/-- Only a backslash inside quotes is more than a character. -/
theorem unescaped_or (quote : Option Char) (c : Char) :
    (quote = none ∨ c ≠ '\\') ∨ ∃ q, quote = some q ∧ c = '\\' := by
  cases quote with
  | none => exact .inl (.inl rfl)
  | some q =>
    by_cases backslash : c = '\\'
    · exact .inr ⟨q, rfl, backslash⟩
    · exact .inl (.inr backslash)

/-- A character that neither opens nor closes anything. -/
def IsNeutral (c : Char) : Prop :=
  c ≠ '\x27' ∧ c ≠ '"' ∧ c ≠ '(' ∧ c ≠ ')' ∧ c ≠ '\\'

/-- A neutral character changes neither brackets nor quotes. -/
theorem IsNeutral.opened_eq {c : Char} (h : IsNeutral c) {quote : Option Char}
    (quotation : IsQuotation quote) (depth : Nat) :
    opened depth quote c = some (depth, quote) := by
  obtain ⟨single, double, left, right, -⟩ := h
  cases quote with
  | none => simp [opened, single, double, left, right]
  | some q =>
    rcases quotation q rfl with rfl | rfl
    · exact if_neg single
    · exact if_neg double

/-- All characters of a reference are neutral. -/
theorem isNeutral_of_mem {name : List Char} (isName : IsName name) (braced : Bool) :
    ∀ c ∈ '$' :: spelling braced name, IsNeutral c := by
  intro c mem
  refine ⟨?_, ?_, ?_, ?_, ?_⟩
  all_goals
    rintro rfl
    exact absurd mem (isName.not_mem_reference braced rfl nofun nofun nofun)

/-- Neutral text before a command does not change where the command closes. -/
theorem closes_append {depth : Nat} {quote : Option Char} {xs r rest : List Char}
    (quotation : IsQuotation quote) (neutral : ∀ c ∈ xs, IsNeutral c) :
    Closes depth quote (xs ++ r) rest ↔ Closes depth quote r rest := by
  induction xs with
  | nil => rfl
  | cons x xs ih =>
    have first := neutral x List.mem_cons_self
    have inner := ih fun c mem => neutral c (List.mem_cons_of_mem _ mem)
    rw [List.cons_append, closes_cons (.inr first.2.2.2.2), first.opened_eq quotation, ← inner]
    constructor
    · rintro ⟨depth', quote', same, closed⟩
      cases same
      exact closed
    · intro closed
      exact ⟨depth, quote, rfl, closed⟩

/-- References neither open nor close anything, and escapes of one kind are inside those of the
other: where a text is cut into pieces, no backslash is left open by a quotation. -/
theorem commandBody_respelled {s : Scope} {r t rest : List Char} (h : Respelled s r t)
    {depth : Nat} {quote : Option Char} (quotation : IsQuotation quote)
    (closed : Closes depth quote r rest) : Closes depth quote t rest := by
  induction h generalizing depth quote with
  | nil => exact closed
  | escape c _ ih =>
    cases quote with
    | some q =>
      have inner := ih quotation ((closes_escape quotation).mp closed)
      exact (closes_escape quotation).mpr inner
    | none =>
      obtain ⟨depth', quote', step, closed⟩ := (closes_cons (.inl rfl)).mp closed
      cases step
      obtain ⟨depth', quote', step, closed⟩ := (closes_cons (.inl rfl)).mp closed
      have inner := ih (quotation.opened step) closed
      have second : Closes depth none (c :: _) rest :=
        (closes_cons (.inl rfl)).mpr ⟨depth', quote', step, inner⟩
      exact (closes_cons (.inl rfl)).mpr ⟨depth, none, rfl, second⟩
  | @plain r t c lone _ _ ih =>
    rcases unescaped_or quote c with plain | ⟨q, rfl, backslash⟩
    · obtain ⟨depth', quote', step, closed⟩ := (closes_cons plain).mp closed
      exact (closes_cons plain).mpr ⟨depth', quote', step, ih (quotation.opened step) closed⟩
    · rw [backslash, lone backslash] at closed
      exact absurd closed (not_closes_backslash quotation)
  | reference isName _ _ _ _ ih =>
    have neutral braced : ∀ c ∈ '$' :: spelling braced _, IsNeutral c :=
      isNeutral_of_mem isName braced
    have inner := ih quotation ((closes_append quotation (neutral _)).mp closed)
    exact (closes_append quotation (neutral _)).mpr inner

/-! ## Blanks around commands -/

theorem isNeutral_of_isBlank {c : Char} (h : isBlank c = true) : IsNeutral c := by
  refine ⟨?_, ?_, ?_, ?_, ?_⟩
  all_goals
    rintro rfl
    exact absurd h (by decide)

/-- Nothing is left to read just if a bracket closes the command at once. -/
theorem closes_nil {depth : Nat} {quote : Option Char} {rest : List Char} :
    Closes depth quote [] rest ↔ opened depth quote ')' = none := by
  have bracket : ')' ≠ '\\' := nofun
  rw [Closes, List.nil_append, commandBody_cons (.inr bracket)]
  cases opened depth quote ')' with
  | none => exact ⟨fun _ => rfl, fun _ => rfl⟩
  | some state =>
    refine ⟨fun closed => ?_, nofun⟩
    obtain ⟨inner, -, same⟩ := Option.map_eq_some_iff.mp closed
    cases same

/-- No bracket closes the command while a quotation is open. -/
theorem not_closes_quoted {depth : Nat} {quote : Char} {rest : List Char} :
    ¬Closes depth (some quote) [] rest := by
  intro closed
  have stop := closes_nil.mp closed
  rw [opened] at stop
  split at stop <;> cases stop

/-- The body of a command ends before a closing bracket. -/
theorem exists_bracket {depth : Nat} {quote : Option Char} {cs body : List Char}
    (h : commandBody depth quote cs = some body) : ∃ rest, cs = body ++ ')' :: rest := by
  fun_induction commandBody depth quote cs generalizing body with
  | case1 | case3 => cases h
  | case8 =>
    cases h
    exact ⟨_, rfl⟩
  | case4 _ _ _ _ _ ih =>
    obtain ⟨inner, found, rfl⟩ := Option.map_eq_some_iff.mp h
    obtain ⟨rest, rfl⟩ := ih found
    exact ⟨rest, rfl⟩
  | case2 _ _ _ ih | case5 _ _ _ _ _ _ ih | case6 _ _ _ _ ih | case7 _ _ _ ih | case9 _ _ _ _ ih
  | case10 _ _ _ _ _ _ ih =>
    obtain ⟨inner, found, rfl⟩ := Option.map_eq_some_iff.mp h
    obtain ⟨rest, rfl⟩ := ih found
    exact ⟨rest, rfl⟩

/-- A command is closed by its own bracket. -/
theorem exists_closes {depth : Nat} {quote : Option Char} {cs body : List Char}
    (h : commandBody depth quote cs = some body) : ∃ rest, Closes depth quote body rest := by
  obtain ⟨rest, rfl⟩ := exists_bracket h
  exact ⟨rest, h⟩

/-- Blanks before the closing bracket can be left out. -/
theorem Closes.of_append {depth : Nat} {quote : Option Char} {r blanks rest : List Char}
    (h : Closes depth quote (r ++ blanks) rest) (quotation : IsQuotation quote)
    (blank : ∀ c ∈ blanks, isBlank c = true) (rest' : List Char) :
    Closes depth quote r rest' := by
  have neutral : ∀ c ∈ blanks, IsNeutral c := fun c mem => isNeutral_of_isBlank (blank c mem)
  match r with
  | [] =>
    have empty : Closes depth quote (blanks ++ []) rest := by rw [List.append_nil]; exact h
    exact closes_nil.mpr (closes_nil.mp ((closes_append quotation neutral).mp empty))
  | c :: r =>
    rcases unescaped_or quote c with plain | ⟨q, rfl, rfl⟩
    · obtain ⟨depth', quote', step, closed⟩ := (closes_cons plain).mp h
      have inner := closed.of_append (quotation.opened step) blank rest'
      exact (closes_cons plain).mpr ⟨depth', quote', step, inner⟩
    · cases same : r with
      | cons d r' =>
        rw [same] at h
        have inner := ((closes_escape quotation).mp h).of_append quotation blank rest'
        exact (closes_escape quotation).mpr inner
      | nil =>
        -- The backslash takes the first blank, and the quotation is open at the bracket.
        rw [same] at h
        cases blanks with
        | nil => exact absurd h (not_closes_backslash quotation)
        | cons d blanks =>
          have others : ∀ c ∈ blanks, IsNeutral c := fun c mem => neutral c (.tail _ mem)
          have empty : Closes depth (some q) (blanks ++ []) rest := by
            rw [List.append_nil]
            exact (closes_escape quotation).mp h
          exact absurd ((closes_append quotation others).mp empty) not_closes_quoted
termination_by r.length
decreasing_by
  · simp only [List.length_cons]
    omega
  · simp only [same, List.length_cons]
    omega

/-- Nothing blank stands at either end. -/
def Trimmed (cs : List Char) : Prop :=
  (∀ c ∈ cs.head?, isBlank c = false) ∧ ∀ c ∈ cs.getLast?, isBlank c = false

theorem dropWhile_eq_self {cs : List Char} (h : ∀ c ∈ cs.head?, isBlank c = false) :
    cs.dropWhile isBlank = cs := by
  cases cs with
  | nil => rfl
  | cons c cs => rw [List.dropWhile_cons, h c rfl]; rfl

/-- Text without blanks around it stays as it is. -/
theorem Trimmed.trim_eq {cs : List Char} (h : Trimmed cs) : trim cs = cs := by
  have reversed : ∀ c ∈ cs.reverse.head?, isBlank c = false := by
    rw [List.head?_reverse]
    exact h.2
  rw [trim, dropWhile_eq_self h.1, trimEnd, dropWhile_eq_self reversed, List.reverse_reverse]

/-- Leading blanks are dropped; then the text without its blanks is followed by blanks only. -/
theorem exists_dropWhile_eq (cs : List Char) :
    ∃ trail, cs.dropWhile isBlank = trim cs ++ trail ∧ ∀ c ∈ trail, isBlank c = true := by
  have ends :=
    List.takeWhile_append_dropWhile (p := isBlank) (l := (cs.dropWhile isBlank).reverse)
  refine ⟨((cs.dropWhile isBlank).reverse.takeWhile isBlank).reverse, ?_, fun c mem => ?_⟩
  · rw [trim, trimEnd, ← List.reverse_append, ends, List.reverse_reverse]
  · exact List.all_eq_true.mp List.all_takeWhile c (List.mem_reverse.mp mem)

theorem head?_dropWhile_isBlank (cs : List Char) :
    ∀ c ∈ (cs.dropWhile isBlank).head?, isBlank c = false := by
  intro c mem
  have stop := List.head?_dropWhile_not isBlank cs
  rw [mem] at stop
  exact stop

/-- Trimmed text has no blanks around it. -/
theorem trimmed_trim (cs : List Char) : Trimmed (trim cs) := by
  obtain ⟨trail, ends, -⟩ := exists_dropWhile_eq cs
  constructor
  · intro c mem
    apply head?_dropWhile_isBlank cs c
    rw [ends, List.head?_append, mem]
    rfl
  · rw [trim, trimEnd, List.getLast?_reverse]
    exact head?_dropWhile_isBlank _

/-- Dropping the blanks around a command does not change where it closes. -/
theorem commandBody_trim {cs body : List Char} (h : commandBody 0 none cs = some body)
    (rest : List Char) : Closes 0 none (trim body) rest := by
  obtain ⟨rest', closed⟩ := exists_closes h
  obtain ⟨trail, ends, trailBlank⟩ := exists_dropWhile_eq body
  have lead : ∀ c ∈ body.takeWhile isBlank, IsNeutral c := fun c mem =>
    isNeutral_of_isBlank (List.all_eq_true.mp List.all_takeWhile c mem)
  rw [← List.takeWhile_append_dropWhile (p := isBlank) (l := body),
    closes_append isQuotation_none lead, ends] at closed
  exact closed.of_append isQuotation_none trailBlank rest

theorem toNat_bounds_of_isNameChar {c : Char} (h : isNameChar c = true) :
    48 ≤ c.toNat ∧ c.toNat ≤ 122 := by
  delta isNameChar Char.isAlphanum Char.isAlpha Char.isUpper Char.isLower Char.isDigit at h
  simp only [Bool.or_eq_true, Bool.and_eq_true, decide_eq_true_eq, ge_iff_le,
    UInt32.le_iff_toNat_le] at h
  rcases h with ((⟨low, high⟩ | ⟨low, high⟩) | ⟨low, high⟩) | rfl
  · exact ⟨Nat.le_trans (by decide) low, Nat.le_trans high (by decide)⟩
  · exact ⟨Nat.le_trans (by decide) low, Nat.le_trans high (by decide)⟩
  · exact ⟨Nat.le_trans (by decide) low, Nat.le_trans high (by decide)⟩
  · exact ⟨by decide, by decide⟩

theorem isBlank_eq_false_of_isNameChar {c : Char} (h : isNameChar c = true) :
    isBlank c = false := by
  obtain ⟨low, high⟩ := toNat_bounds_of_isNameChar h
  rw [isBlank, List.any_eq_false]
  intro range mem
  simp only [Text.blankRanges, List.mem_cons, List.not_mem_nil, or_false] at mem
  simp only [Bool.and_eq_true, decide_eq_true_eq, not_and, Nat.not_le]
  intro above
  rcases mem with rfl | rfl | rfl | rfl | rfl | rfl | rfl | rfl | rfl | rfl <;> omega

/-- Nothing blank stands at the end. -/
def EndsTrimmed (cs : List Char) : Prop := ∀ c ∈ cs.getLast?, isBlank c = false

/-- Only the end of a text decides whether it ends in a blank. -/
theorem endsTrimmed_append {xs cs : List Char} (h : cs ≠ []) :
    EndsTrimmed (xs ++ cs) ↔ EndsTrimmed cs := by
  rw [EndsTrimmed, EndsTrimmed, List.getLast?_append, List.getLast?_eq_some_getLast h,
    Option.some_or]

/-- References end in a brace or a character of a name. -/
theorem endsTrimmed_reference {name : List Char} (isName : IsName name) (braced : Bool) :
    EndsTrimmed ('$' :: spelling braced name) := by
  intro c last
  cases blank : isBlank c with
  | false => rfl
  | true =>
    have other : isNameChar c = false := by
      cases same : isNameChar c with
      | false => rfl
      | true => rw [isBlank_eq_false_of_isNameChar same] at blank; cases blank
    have mem : c ∈ '$' :: spelling braced name := List.mem_of_getLast? last
    refine absurd mem (isName.not_mem_reference braced other ?_ ?_ ?_)
    all_goals
      rintro rfl
      exact absurd blank (by decide)

/-- The ends of two texts agree if they agree where nothing follows. -/
theorem Respelled.endsTrimmed_append {s : Scope} {r t : List Char} (h : Respelled s r t)
    (ih : EndsTrimmed r → EndsTrimmed t) (xs ys : List Char)
    (bare : EndsTrimmed xs → EndsTrimmed ys) (ends : EndsTrimmed (xs ++ r)) :
    EndsTrimmed (ys ++ t) := by
  cases r with
  | nil =>
    rw [h.eq_nil rfl, List.append_nil]
    rw [List.append_nil] at ends
    exact bare ends
  | cons c r =>
    have more : t ≠ [] := by
      rintro rfl
      cases h.head?_eq
    have rest := (Core.endsTrimmed_append (List.cons_ne_nil c r)).mp ends
    exact (Core.endsTrimmed_append more).mpr (ih rest)

/-- Respelled text does not end in a blank either, for a reference does not. -/
theorem Respelled.endsTrimmed {s : Scope} {r t : List Char} (h : Respelled s r t)
    (ends : EndsTrimmed r) : EndsTrimmed t := by
  induction h with
  | nil => exact ends
  | escape c rest ih => exact rest.endsTrimmed_append ih ['\\', c] ['\\', c] id ends
  | @plain _ _ c _ _ rest ih => exact rest.endsTrimmed_append ih [c] [c] id ends
  | @reference _ _ name braced braced' isName _ _ _ rest ih =>
    have bare : EndsTrimmed ('$' :: spelling braced' name) :=
      endsTrimmed_reference isName braced'
    exact rest.endsTrimmed_append ih ('$' :: spelling braced name) _ (fun _ => bare) ends

/-- Writing references anew brings no blank to either end. -/
theorem Respelled.trimmed {s : Scope} {r t : List Char} (h : Respelled s r t)
    (trimmed : Trimmed r) :
    Trimmed t :=
  ⟨h.head?_eq ▸ trimmed.1, h.endsTrimmed trimmed.2⟩

/-! ## Tokens -/

theorem scanFrom_length (pos : Nat) (cs : List Char) :
    Token.scanFrom cs.length pos cs = .ok [] := by
  induction cs with
  | nil => rw [Token.scanFrom]
  | cons c cs ih => rw [List.length_cons, Token.scanFrom, ih]

/-- Every token was read somewhere. -/
theorem exists_read {skip pos : Nat} {cs : List Char} {ts : List Token} {t : Token}
    (h : Token.scanFrom skip pos cs = .ok ts) (mem : t ∈ ts) :
    ∃ c rest reading, Lexeme.read c rest = .ok reading ∧ reading.lexeme = t.lexeme := by
  fun_induction Token.scanFrom skip pos cs generalizing ts with
  | case1 =>
    cases h
    cases mem
  | case2 _ _ _ _ ih | case3 _ _ _ _ ih => exact ih h mem
  | case4 =>
    rename_i ih
    exact ih h mem
  | case5 | case7 => cases h
  | case6 pos c cs _ _ reading read _ rest scanned =>
    rename_i ih
    cases h
    rcases List.mem_cons.mp mem with rfl | mem
    · exact ⟨c, cs, reading, read, rfl⟩
    · exact ih scanned mem

/-- The lexemes that hold raw text. -/
def isLiteral : Lexeme → Bool
  | .text _ | .command _ => true
  | _ => false

theorem isLiteral_ofWord (word : String) : isLiteral (Lexeme.ofWord word) = false := by
  unfold Lexeme.ofWord
  split
  · rfl
  · repeat (first | rfl | split)

/-- A number is no literal text. -/
theorem isLiteral_of_readNumber {c : Char} {cs : List Char} {reading : Reading}
    (h : Lexeme.readNumber c cs = .ok reading) : isLiteral reading.lexeme = false := by
  unfold Lexeme.readNumber at h
  dsimp only at h
  split at h
  · split at h
    · cases h
      rfl
    · split at h
      · cases h
        rfl
      · cases h
  · split at h
    · cases h
      rfl
    · cases h

/-- Only a quote and `@` begin raw text. -/
theorem read_cases {c : Char} {cs : List Char} {reading : Reading}
    (h : Lexeme.read c cs = .ok reading) :
    isLiteral reading.lexeme = false ∨
    (∃ body, textBody cs = .ok body ∧ reading.lexeme = .text (String.ofList body)) ∨
    ∃ rest body, commandBody 0 none rest = some body ∧
      reading.lexeme = .command (String.ofList (trim body)) := by
  unfold Lexeme.read at h
  split at h
  all_goals try
    simp only [one, oneOrTwo, twice] at h
    first
    | (cases h; exact .inl rfl)
    | (split at h <;> cases h <;> exact .inl rfl)
  · split at h
    · next body found =>
      cases h
      exact .inr (.inl ⟨body, found, rfl⟩)
    · cases h
  · unfold Lexeme.readCommand at h
    split at h
    · next rest =>
      split at h
      · next body found =>
        cases h
        exact .inr (.inr ⟨rest, body, found, rfl⟩)
      · cases h
    · cases h
  · split at h
    · exact .inl (isLiteral_of_readNumber h)
    · split at h
      · cases h
        exact .inl (isLiteral_ofWord _)
      · cases h

/-- Where the raw text of a token comes from. -/
theorem lexeme_cases {cs : List Char} {ts : List Token} {t : Token}
    (scanned : Token.scan cs = .ok ts) (mem : t ∈ ts) :
    isLiteral t.lexeme = false ∨
    (∃ rest body, textBody rest = .ok body ∧ t.lexeme = .text (String.ofList body)) ∨
    ∃ rest body, commandBody 0 none rest = some body ∧
      t.lexeme = .command (String.ofList (trim body)) := by
  obtain ⟨c, rest, reading, read, same⟩ := exists_read scanned mem
  rw [← same]
  rcases read_cases read with other | ⟨body, text⟩ | command
  · exact .inl other
  · exact .inr (.inl ⟨rest, body, text⟩)
  · exact .inr (.inr command)

/-- The raw text of a string token is closed by a quote. -/
theorem textBody_of_token {cs : List Char} {ts : List Token} {t : Token} {r : String}
    (scanned : Token.scan cs = .ok ts) (mem : t ∈ ts) (literal : t.lexeme = .text r)
    (rest : List Char) : textBody (r.toList ++ '"' :: rest) = .ok r.toList := by
  rcases lexeme_cases scanned mem with other | ⟨_, body, found, text⟩ | ⟨_, body, _, command⟩
  · rw [literal] at other
    cases other
  · cases text.symm.trans literal
    rw [String.toList_ofList]
    exact textBody_self found rest
  · cases command.symm.trans literal

/-- The raw text of a command token is closed by a bracket and has no blanks around it. -/
theorem closes_of_token {cs : List Char} {ts : List Token} {t : Token} {r : String}
    (scanned : Token.scan cs = .ok ts) (mem : t ∈ ts) (literal : t.lexeme = .command r)
    (rest : List Char) : Closes 0 none r.toList rest ∧ Trimmed r.toList := by
  rcases lexeme_cases scanned mem with other | ⟨_, body, _, text⟩ | ⟨_, body, found, command⟩
  · rw [literal] at other
    cases other
  · cases text.symm.trans literal
  · cases command.symm.trans literal
    rw [String.toList_ofList]
    exact ⟨commandBody_trim found rest, trimmed_trim body⟩

/-- A text that is one lexeme is scanned as one token. -/
theorem scan_of_read {c : Char} {cs : List Char} {lexeme : Lexeme} {lead : Nat}
    (separator : isSeparator c = false) (comment : c ≠ '#')
    (read : Lexeme.read c cs = .ok ⟨lexeme, lead, cs⟩) :
    ∃ t, Token.scan (c :: cs) = .ok [t] ∧ t.lexeme = lexeme := by
  refine ⟨⟨lexeme, ⟨0, 0 + Text.byteSize (c :: cs)⟩, 0 + lead⟩, ?_, rfl⟩
  rw [Token.scan, Token.scanFrom, separator, if_neg nofun, if_neg comment, read]
  dsimp only
  rw [scanFrom_length]

/-- A string that ends at its quote is read as one token. -/
theorem scan_text {t : List Char} (closed : textBody (t ++ ['"']) = .ok t) :
    ∃ token, Token.scan ('"' :: (t ++ ['"'])) = .ok [token] ∧
      token.lexeme = .text (String.ofList t) := by
  have read : Lexeme.read '"' (t ++ ['"']) = .ok ⟨.text (String.ofList t), 1, t ++ ['"']⟩ := by
    simp only [Lexeme.read, closed]
  exact scan_of_read rfl nofun read

/-- So is a command that closes at its bracket and has no blanks around it. -/
theorem scan_command {t : List Char} (closed : Closes 0 none t []) (trimmed : Trimmed t) :
    ∃ token, Token.scan ('@' :: '(' :: (t ++ [')'])) = .ok [token] ∧
      token.lexeme = .command (String.ofList t) := by
  unfold Closes at closed
  have read : Lexeme.read '@' ('(' :: (t ++ [')'])) =
      .ok ⟨.command (String.ofList t), 2 + Text.byteSize (t.takeWhile isBlank),
        '(' :: (t ++ [')'])⟩ := by
    simp only [Lexeme.read, Lexeme.readCommand, closed, trimmed.trim_eq]
    rfl
  exact scan_of_read rfl nofun read

/-! ## From the source to the script -/

/-- Where the token stands as an expression, this text is written for it in the script, between
`before` and `after`. -/
def Written (s : Scope) (m : Script.Mode) (token : Token) (before text after : String) : Prop :=
  ∃ e e', (∀ eof rest, ∃ less, Surface.parsePrimary eof (token :: rest) = .ok ⟨e, rest, less⟩) ∧
    resolveExpr s e = .ok e' ∧ Script.exprText m e' = .ok (before ++ text ++ after)

/-- The text is one token. -/
def IsToken (text : String) (lexeme : Lexeme) : Prop :=
  ∃ token, Token.scan text.toList = .ok [token] ∧ token.lexeme = lexeme

/-- The text that is written for the raw text of a literal. -/
def literalText (s : Scope) (m : Script.Mode) (base : Nat) (r : String) : String :=
  Script.segmentsText { m with quote := false }
    (resolveSegments s (Surface.Segment.split base r))

/-- What is written for a text is that text with its references respelled. -/
theorem respelled_literalText (s : Scope) (m : Script.Mode) (base : Nat) (r : String) :
    Respelled s r.toList (literalText s m base r).toList :=
  respelled_segmentsText rfl s base r.toList

/-- A string is written in quotes, with what it stands for inside. -/
theorem written_text {token : Token} {r : String} (literal : token.lexeme = .text r) (s : Scope)
    (m : Script.Mode) : Written s m token "\"" (literalText s m token.body r) "\"" := by
  obtain ⟨lexeme, span, body⟩ := token
  cases literal
  refine ⟨.text span (Surface.Segment.split body r), _, fun eof rest => ⟨Nat.lt_succ_self _, ?_⟩,
    rfl, ?_⟩
  · rw [Surface.parsePrimary.eq_def]
  · rw [Script.exprText]
    rfl

/-- A command is written in a substitution where its output is wanted. -/
theorem written_command {token : Token} {r : String} (literal : token.lexeme = .command r)
    (s : Scope) (m : Script.Mode) :
    Written s m token (Script.substitutionOpen m) (literalText s m token.body r)
      (Script.substitutionClose m) := by
  obtain ⟨lexeme, span, body⟩ := token
  cases literal
  refine ⟨.command span (Surface.Segment.split body r), _, fun eof rest =>
    ⟨Nat.lt_succ_self _, ?_⟩,
    rfl, ?_⟩
  · rw [Surface.parsePrimary.eq_def]
  · rw [Script.exprText]
    rfl

/-- Whatever names are known where a string or a command of the source stands, what is
written for it has the same items, and in quotes or brackets it is one token again,
with just that text. -/
theorem literal_survives {cs : List Char} {ts : List Token} {token : Token}
    (scanned : Token.scan cs = .ok ts) (mem : token ∈ ts) (s : Scope) (m : Script.Mode) :
    (∀ r, token.lexeme = .text r → ∃ t, Written s m token "\"" t "\"" ∧
      SameItems s (Surface.Segment.split 0 t) (Surface.Segment.split 0 r) ∧
      IsToken ("\"" ++ t ++ "\"") (.text t)) ∧
    ∀ r, token.lexeme = .command r → ∃ t,
      Written s m token (Script.substitutionOpen m) t (Script.substitutionClose m) ∧
      SameItems s (Surface.Segment.split 0 t) (Surface.Segment.split 0 r) ∧
      IsToken ("@(" ++ t ++ ")") (.command t) := by
  constructor
  · intro r literal
    have respelled := respelled_literalText s m token.body r
    have closed := textBody_respelled respelled (textBody_of_token scanned mem literal [])
    obtain ⟨token', scanned', same⟩ := scan_text closed
    refine ⟨_, written_text literal s m, respelled.sameItems 0 0, token', ?_, ?_⟩
    · simpa using scanned'
    · simpa using same
  · intro r literal
    have respelled := respelled_literalText s m token.body r
    obtain ⟨closes, trimmed⟩ := closes_of_token scanned mem literal []
    have closed := commandBody_respelled respelled isQuotation_none closes
    obtain ⟨token', scanned', same⟩ := scan_command closed (respelled.trimmed trimmed)
    refine ⟨_, written_command literal s m, respelled.sameItems 0 0, token', ?_, ?_⟩
    · simpa using scanned'
    · simpa using same

/-- A reference that needs its braces, before one to an unknown name. -/
theorem literal_survives_braces :
    Token.scan ['"', '$', '\x7b', 'a', '\x7d', 'b', '$', 'c', '"'] =
        .ok [⟨.text (String.ofList ['$', '\x7b', 'a', '\x7d', 'b', '$', 'c']), ⟨0, 9⟩, 1⟩] ∧
      ∃ t, Written ⟨"main", [], [("a", .text)], none, none⟩ default
          ⟨.text (String.ofList ['$', '\x7b', 'a', '\x7d', 'b', '$', 'c']), ⟨0, 9⟩,
          1⟩ "\"" t "\"" ∧
        SameItems ⟨"main", [], [("a", .text)], none, none⟩ (Surface.Segment.split 0 t)
          (Surface.Segment.split 0 (String.ofList ['$', '\x7b', 'a', '\x7d', 'b', '$', 'c'])) ∧
        IsToken ("\"" ++ t ++ "\"") (.text t) := by
  refine (and_iff_left_of_imp fun scanned => ?_).mpr rfl
  exact (literal_survives scanned (List.mem_singleton_self _) _ default).1 _ rfl

end Shellwright.Core
