import Shellwright.Proofs.Shell.Arithmetic
import Shellwright.Proofs.Tokenisation

/-!
# Lexemes written out

Every lexeme but a fraction has a spelling that is read as that lexeme again, if its raw text is
of the kind that lexemes have. For a string that is a condition on quotes and backslashes. For a
command it is one on what stands outside of quotes, where brackets must match.

* `Escaped`, `escaped_iff`: the texts that a quote closes.
* `Unquoted`, `Balanced`, `closes_iff`: the texts that a bracket closes.
* `Lexeme.Spellable`, `Lexeme.Spellable.spells`: a spelling is read as its lexeme.
* `scan_printed`: so is a row of spellings with blanks between them.
-/

namespace Shellwright

open Text (byteSize trim isBlank)
open Shellwright.Core (Closes Trimmed IsQuotation closes_cons closes_escape closes_nil
  not_closes_backslash not_closes_quoted textBody_char textBody_of_token closes_of_token
  isQuotation_none opened)

/-! ## Quotes -/

/-- The text is made of pairs, a backslash and any character, and of single characters other than
the quote and the backslash. -/
inductive Escaped (quote : Char) : List Char → Prop
  | nil : Escaped quote []
  | pair (c : Char) {cs : List Char} : Escaped quote cs → Escaped quote ('\\' :: c :: cs)
  | char {c : Char} {cs : List Char} : c ≠ quote → c ≠ '\\' → Escaped quote cs →
    Escaped quote (c :: cs)

/-- Just such a text is closed by the next quote. -/
theorem escaped_iff {r rest : List Char} :
    textBody (r ++ '"' :: rest) = .ok r ↔ Escaped '"' r := by
  constructor
  · intro closed
    match r with
    | [] => exact .nil
    | c :: r =>
      by_cases backslash : c = '\\'
      · subst backslash
        match r with
        | [] =>
          rw [List.cons_append, List.nil_append, textBody] at closed
          obtain ⟨inner, -, same⟩ := map_eq_ok.mp closed
          cases same
        | d :: r =>
          rw [List.cons_append, List.cons_append, textBody] at closed
          obtain ⟨inner, found, same⟩ := map_eq_ok.mp closed
          cases same
          exact .pair d (escaped_iff.mp found)
      · by_cases quote : c = '"'
        · rw [quote, List.cons_append, textBody] at closed
          cases closed
        · rw [List.cons_append, textBody_char quote backslash] at closed
          obtain ⟨inner, found, same⟩ := map_eq_ok.mp closed
          cases same
          exact .char quote backslash (escaped_iff.mp found)
  · intro escaped
    induction escaped with
    | nil => rw [List.nil_append, textBody]
    | pair c _ ih =>
      rw [List.cons_append, List.cons_append, textBody, ih]
      rfl
    | char quote backslash _ ih =>
      rw [List.cons_append, textBody_char quote backslash, ih]
      rfl
termination_by r.length

/-- All quotes in the text are closed, and `out` is what stands outside of them. -/
inductive Unquoted : List Char → List Char → Prop
  | nil : Unquoted [] []
  | char {c : Char} {cs out : List Char} : c ≠ '\x27' → c ≠ '"' → Unquoted cs out →
    Unquoted (c :: cs) (c :: out)
  | quoted {quote : Char} {inside cs out : List Char} : quote = '\x27' ∨ quote = '"' →
    Escaped quote inside → Unquoted cs out → Unquoted (quote :: (inside ++ quote :: cs)) out

/-- From inside a quotation a command is closed just if it is closed behind the quote that ends
the quotation. -/
theorem closes_quoted_iff {depth : Nat} {quote : Char} {cs rest : List Char}
    (quotation : IsQuotation (some quote)) :
    Closes depth (some quote) cs rest ↔
      ∃ inside left, cs = inside ++ quote :: left ∧ Escaped quote inside ∧
        Closes depth none left rest := by
  constructor
  · intro closed
    match cs with
    | [] => exact absurd closed not_closes_quoted
    | c :: cs =>
      by_cases backslash : c = '\\'
      · subst backslash
        match cs with
        | [] => exact absurd closed (not_closes_backslash quotation)
        | d :: cs =>
          obtain ⟨inside, left, rfl, escaped, closed⟩ :=
            (closes_quoted_iff quotation).mp ((closes_escape quotation).mp closed)
          exact ⟨'\\' :: d :: inside, left, rfl, .pair d escaped, closed⟩
      · obtain ⟨depth', quote', step, closed⟩ := (closes_cons (.inr backslash)).mp closed
        by_cases same : c = quote
        · rw [opened, if_pos same] at step
          cases step
          exact ⟨[], cs, by rw [same]; rfl, .nil, closed⟩
        · rw [opened, if_neg same] at step
          cases step
          obtain ⟨inside, left, rfl, escaped, closed⟩ := (closes_quoted_iff quotation).mp closed
          exact ⟨c :: inside, left, rfl, .char same backslash escaped, closed⟩
  · rintro ⟨inside, left, rfl, escaped, closed⟩
    induction escaped with
    | nil =>
      exact (closes_cons (.inr quotation.ne_backslash)).mpr ⟨depth, none, if_pos rfl, closed⟩
    | pair c _ ih => exact (closes_escape quotation).mpr ih
    | char other backslash _ ih =>
      exact (closes_cons (.inr backslash)).mpr ⟨depth, some quote, if_neg other, ih⟩
termination_by cs.length

/-! ## Brackets -/

/-- When `depth` brackets are open before the text, none is closed that is not open, and in the
end none is open. -/
structure BalancedFrom (depth : Nat) (cs : List Char) : Prop where
  never : ∀ before, before <+: cs → before.count ')' ≤ depth + before.count '('
  total : cs.count ')' = depth + cs.count '('

/-- Brackets match: no more of them are ever closed than opened, and in the end as many. -/
structure Balanced (cs : List Char) : Prop where
  never : ∀ before, before <+: cs → before.count ')' ≤ before.count '('
  total : cs.count ')' = cs.count '('

theorem balancedFrom_zero {cs : List Char} : BalancedFrom 0 cs ↔ Balanced cs := by
  constructor
  · exact fun h => ⟨by simpa using h.never, by simpa using h.total⟩
  · exact fun h => ⟨by simpa using h.never, by simpa using h.total⟩

theorem balancedFrom_nil {depth : Nat} : BalancedFrom depth [] ↔ depth = 0 := by
  constructor
  · intro h
    simpa using h.total.symm
  · rintro rfl
    exact ⟨by simp, rfl⟩

/-- A character changes the count of open brackets. -/
theorem balancedFrom_cons {depth depth' : Nat} {c : Char} {cs : List Char}
    (step : depth + List.count '(' [c] = depth' + List.count ')' [c]) :
    BalancedFrom depth (c :: cs) ↔ BalancedFrom depth' cs := by
  have more (x : Char) (before : List Char) :
      (c :: before).count x = List.count x [c] + before.count x := by
    rw [← List.singleton_append, List.count_append]
  constructor
  · intro h
    refine ⟨fun before sub => ?_, ?_⟩
    · have := h.never (c :: before) (List.cons_prefix_cons.mpr ⟨rfl, sub⟩)
      rw [more ')' before, more '(' before] at this
      omega
    · have := h.total
      rw [more ')' cs, more '(' cs] at this
      omega
  · intro h
    refine ⟨fun before sub => ?_, ?_⟩
    · rcases List.prefix_cons_iff.mp sub with rfl | ⟨before, rfl, sub'⟩
      · simp
      · have := h.never before sub'
        rw [more ')' before, more '(' before]
        omega
    · have := h.total
      rw [more ')' cs, more '(' cs]
      omega

/-- A bracket that nothing opens is not balanced. -/
theorem not_balancedFrom_close {cs : List Char} : ¬BalancedFrom 0 (')' :: cs) := by
  intro h
  have := h.never [')'] (List.cons_prefix_cons.mpr ⟨rfl, List.nil_prefix⟩)
  exact absurd this (by decide)

/-- A quote outside of quotes opens a quotation. -/
theorem opened_quote {depth : Nat} {c : Char} (quote : c = '\x27' ∨ c = '"') :
    opened depth none c = some (depth, some c) := by
  obtain rfl | rfl := quote <;> rfl

/-- Any other character outside of quotes only counts brackets. -/
theorem opened_plain {depth : Nat} {c : Char} (single : c ≠ '\x27') (double : c ≠ '"') :
    opened depth none c =
      if c = '(' then some (depth + 1, none)
      else if c = ')' then
        match depth with
        | 0 => none
        | depth + 1 => some (depth, none)
      else some (depth, none) := by
  cases depth <;> simp [opened, single, double]

/-- Only a quote opens a quotation. -/
theorem eq_none_of_opened {depth depth' : Nat} {c : Char} {quote : Option Char}
    (single : c ≠ '\x27') (double : c ≠ '"')
    (step : opened depth none c = some (depth', quote)) : quote = none := by
  rw [opened_plain single double] at step
  split at step
  · cases step
    rfl
  · split at step
    · split at step
      · cases step
      · cases step
        rfl
    · cases step
      rfl

/-- What a character outside of quotes does to the brackets. -/
theorem balancedFrom_opened {depth : Nat} {c : Char} {cs : List Char} (single : c ≠ '\x27')
    (double : c ≠ '"') :
    BalancedFrom depth (c :: cs) ↔
      ∃ depth', opened depth none c = some (depth', none) ∧ BalancedFrom depth' cs := by
  rw [opened_plain single double]
  by_cases left : c = '('
  · subst left
    have step : depth + List.count '(' ['('] = depth + 1 + List.count ')' ['('] := rfl
    rw [if_pos rfl, balancedFrom_cons step]
    simp
  · rw [if_neg left]
    by_cases right : c = ')'
    · subst right
      rw [if_pos rfl]
      cases depth with
      | zero => simp [not_balancedFrom_close]
      | succ depth =>
        have step : depth + 1 + List.count '(' [')'] = depth + List.count ')' [')'] := rfl
        rw [balancedFrom_cons step]
        simp
    · have step : depth + List.count '(' [c] = depth + List.count ')' [c] := by
        simp [left, right]
      rw [if_neg right, balancedFrom_cons step]
      simp

/-- Just those texts are closed by the next bracket that have all their quotes closed, and
outside of them all their brackets. -/
theorem closes_iff {depth : Nat} {cs rest : List Char} :
    Closes depth none cs rest ↔ ∃ out, Unquoted cs out ∧ BalancedFrom depth out := by
  constructor
  · intro closed
    match cs with
    | [] =>
      refine ⟨[], .nil, balancedFrom_nil.mpr ?_⟩
      have stop := closes_nil.mp closed
      cases depth with
      | zero => rfl
      | succ depth => cases stop
    | c :: cs =>
      obtain ⟨depth', quote', step, inner⟩ := (closes_cons (.inl rfl)).mp closed
      by_cases quote : c = '\x27' ∨ c = '"'
      · rw [opened_quote quote] at step
        cases step
        have quotation : IsQuotation (some c) := by
          rintro d ⟨⟩
          exact quote
        obtain ⟨inside, left, same, escaped, inner⟩ := (closes_quoted_iff quotation).mp inner
        obtain ⟨out, unquoted, balanced⟩ := closes_iff.mp inner
        rw [same]
        exact ⟨out, .quoted quote escaped unquoted, balanced⟩
      · obtain ⟨single, double⟩ := not_or.mp quote
        obtain rfl := eq_none_of_opened single double step
        obtain ⟨out, unquoted, balanced⟩ := closes_iff.mp inner
        exact ⟨c :: out, .char single double unquoted,
          (balancedFrom_opened single double).mpr ⟨depth', step, balanced⟩⟩
  · rintro ⟨out, unquoted, balanced⟩
    induction unquoted generalizing depth with
    | nil =>
      obtain rfl := balancedFrom_nil.mp balanced
      exact closes_nil.mpr rfl
    | char single double _ ih =>
      obtain ⟨depth', step, balanced⟩ := (balancedFrom_opened single double).mp balanced
      exact (closes_cons (.inl rfl)).mpr ⟨depth', none, step, ih balanced⟩
    | @quoted quote inside cs out isQuote escaped _ ih =>
      have quotation : IsQuotation (some quote) := by
        rintro d ⟨⟩
        exact isQuote
      refine (closes_cons (.inl rfl)).mpr ⟨depth, some quote, if_pos (by simpa using isQuote),
        ?_⟩
      exact (closes_quoted_iff quotation).mpr ⟨inside, cs, rfl, escaped, ih balanced⟩
termination_by cs.length
decreasing_by
  · simp only [same, List.length_cons, List.length_append]
    omega
  · simp

/-! ## Spellings -/

/-- The words that are no names. -/
def reserved : List String := Keyword.all.map Keyword.spelling ++ ["and", "or", "not"]

/-- The text of a command: no blanks around it, its quotes closed, and its brackets
outside of quotes balanced. -/
def IsCommandText (cs : List Char) : Prop := Trimmed cs ∧ ∃ out, Unquoted cs out ∧ Balanced out

/-- The spelling of a lexeme. -/
def Lexeme.spelling : Lexeme → List Char
  | .keyword word => word.spelling.toList
  | .symbol s => s.spelling.toList
  | .ident name => name.toList
  | .int value => (Script.intText value).toList
  | .fraction value => (Layout.plain.write value).toList
  | .text raw => '"' :: (raw.toList ++ ['"'])
  | .command raw => '@' :: '(' :: (raw.toList ++ [')'])

/-- The spelling of the lexeme can be read again. -/
def Lexeme.Spellable : Lexeme → Prop
  | .keyword _ | .symbol _ => True
  | .ident name => Surface.Segment.IsName name.toList ∧ name ∉ reserved
  | .int value => 0 ≤ value.toInt
  | .fraction _ => False
  | .text raw => Escaped '"' raw.toList
  | .command raw => IsCommandText raw.toList

/-- The text is read as the lexeme wherever nothing follows that could go on with it. -/
def Spells (cs : List Char) (l : Lexeme) : Prop :=
  ∃ c more lead, cs = c :: more ∧ beginsLexeme c = true ∧
    ∀ w, Quiet w → Lexeme.read c (more ++ w) = .ok ⟨l, lead, more⟩

theorem Quiet.head?_ne {w : List Char} (h : Quiet w) {c : Char} (sep : isSeparator c = false)
    (comment : c ≠ '#') : w.head? ≠ some c := by
  intro head
  rcases h c head with yes | same
  · rw [sep] at yes
    cases yes
  · exact comment same

/-- Every symbol is spelled by its characters. -/
theorem spells_symbol (s : Symbol) : Spells s.spelling.toList (.symbol s) := by
  cases s with
  | leftParen | rightParen | leftBrace | rightBrace | comma | semicolon | plus | minus | star
      | slash
  | percent => exact ⟨_, [], 0, rfl, rfl, fun _ _ => rfl⟩
  | equal | notEqual | lessEqual | greaterEqual | either | both | range =>
    exact ⟨_, [_], 0, rfl, rfl, fun _ _ => rfl⟩
  | assign | bang | less | greater | pipe =>
    exact ⟨_, [], 0, rfl, rfl, fun _ quiet => if_neg (quiet.head?_ne rfl (by decide))⟩

theorem isDigit_eq_false_of_isNameStart {c : Char} (h : isNameStart c = true) :
    c.isDigit = false := by
  cases digit : c.isDigit with
  | false => rfl
  | true =>
    delta isNameStart Char.isAlpha Char.isUpper Char.isLower at h
    delta Char.isDigit at digit
    simp only [Bool.or_eq_true, Bool.and_eq_true, decide_eq_true_eq, ge_iff_le,
      UInt32.le_iff_toNat_le] at h digit
    rcases h with (⟨low, -⟩ | ⟨low, -⟩) | rfl
    · exact absurd (Nat.le_trans low digit.2) (by decide)
    · exact absurd (Nat.le_trans low digit.2) (by decide)
    · exact absurd digit.2 (by decide)

theorem beginsLexeme_of_isNameChar {c : Char} (h : isNameChar c = true) :
    beginsLexeme c = true := by
  cases begins : beginsLexeme c with
  | true => rfl
  | false =>
    have quiet : isSeparator c = true ∨ c = '#' := by
      cases sep : isSeparator c with
      | true => exact .inl rfl
      | false => exact .inr (by simpa [beginsLexeme, sep] using begins)
    rcases Quiet.cases quiet with rfl | rfl | rfl | rfl | rfl <;> exact absurd h (by decide)

/-- What begins like a name is read up to where names end. -/
theorem read_word {c : Char} (start : isNameStart c = true) (cs : List Char) :
    Lexeme.read c cs =
      .ok ⟨Lexeme.ofWord (String.ofList (c :: cs.takeWhile isNameChar)), 0,
        cs.takeWhile isNameChar⟩ := by
  unfold Lexeme.read
  split
  case h_21 =>
    rw [isDigit_eq_false_of_isNameStart start, if_neg Bool.false_ne_true, if_pos start]
  all_goals exact absurd start (by decide)

theorem read_number {c : Char} (digit : c.isDigit = true) (cs : List Char) :
    Lexeme.read c cs = Lexeme.readNumber c cs := by
  unfold Lexeme.read
  split
  case h_21 => rw [if_pos digit]
  all_goals exact absurd digit (by decide)

/-- A name spells a keyword or itself. -/
theorem spells_word {word : List Char} (isName : Surface.Segment.IsName word) :
    Spells word (Lexeme.ofWord (String.ofList word)) := by
  obtain ⟨⟨c, more, rfl, start⟩, all⟩ := isName
  refine ⟨c, more, 0, rfl, ?_, fun w quiet => ?_⟩
  · exact beginsLexeme_of_isNameChar (all c (.head _))
  · rw [read_word start, quiet.stops_name.takeWhile_append fun d mem => all d (.tail _ mem)]

theorem ofWord_spelling (k : Keyword) : Lexeme.ofWord k.spelling = .keyword k := by
  cases k <;> decide +kernel

/-- A word that is not reserved is a name. -/
theorem ofWord_of_not_reserved {word : String} (h : word ∉ reserved) :
    Lexeme.ofWord word = .ident word := by
  rw [reserved, List.mem_append, not_or, List.mem_map] at h
  obtain ⟨noKeyword, noOperator⟩ := h
  have none : Keyword.all.find? (·.spelling = word) = none :=
    List.find?_eq_none.mpr fun k mem same => noKeyword ⟨k, mem, of_decide_eq_true same⟩
  obtain ⟨noAnd, noOr, noNot⟩ : word ≠ "and" ∧ word ≠ "or" ∧ word ≠ "not" := by
    simpa using noOperator
  rw [Lexeme.ofWord, none]
  dsimp only
  rw [if_neg noAnd, if_neg noOr, if_neg noNot]

/-- The digits of a number spell it. -/
theorem spells_int {value : Int64} (h : 0 ≤ value.toInt) :
    Spells (Script.intText value).toList (.int value) := by
  have digits : (Script.intText value).toList = Nat.toDigits 10 value.toInt.natAbs := by
    rw [Shell.intText_toList, if_neg (by omega)]
  have isDigit : ∀ d ∈ Nat.toDigits 10 value.toInt.natAbs, d.isDigit = true := fun d mem =>
    Nat.isDigit_of_mem_toDigits (by decide) (by decide) mem
  have whole : digitsValue (Nat.toDigits 10 value.toInt.natAbs) = value.toInt.natAbs :=
    Nat.ofDigitChars_toDigits (by decide) (by decide)
  have small : value.toInt.natAbs < twoTo 63 := by
    have below := value.toInt_lt
    have power : (2 : Int) ^ 63 = (twoTo 63 : Nat) := by decide
    omega
  have same : Int64.ofNat value.toInt.natAbs = value := by
    rw [← Int64.toInt_inj, Int64.toInt_ofNat_of_lt small]
    omega
  cases spelled : Nat.toDigits 10 value.toInt.natAbs with
  | nil => exact absurd spelled Nat.toDigits_ne_nil
  | cons c more =>
    rw [spelled] at isDigit whole
    obtain ⟨first, others⟩ := List.forall_mem_cons.mp isDigit
    refine ⟨c, more, 0, digits.trans spelled, ?_, fun w quiet => ?_⟩
    · exact beginsLexeme_of_isNameChar (by rw [isNameChar, Char.isAlphanum, first]; simp)
    · have places : ¬BeginsPlaces ([] ++ w) := not_beginsPlaces_cut (v := []) (by
        rintro ⟨d, rest, none, -⟩
        cases none) quiet
      rw [read_number first, readNumber_whole others quiet.stops_digit places, whole,
        if_pos small, same]

/-- A text in which quotes are escaped is spelled in quotes. -/
theorem spells_text {raw : String} (h : Escaped '"' raw.toList) :
    Spells ('"' :: (raw.toList ++ ['"'])) (.text raw) := by
  refine ⟨'"', raw.toList ++ ['"'], 1, rfl, rfl, fun w _ => ?_⟩
  have closed : textBody (raw.toList ++ ['"'] ++ w) = .ok raw.toList := by
    rw [List.append_assoc]
    exact escaped_iff.mpr h
  simp only [Lexeme.read, closed, String.ofList_toList]

/-- A command with balanced brackets and quotes is spelled in brackets. -/
theorem spells_command {raw : String} (h : IsCommandText raw.toList) :
    Spells ('@' :: '(' :: (raw.toList ++ [')'])) (.command raw) := by
  obtain ⟨trimmed, out, unquoted, balanced⟩ := h
  refine ⟨'@', '(' :: (raw.toList ++ [')']), 2 + byteSize (raw.toList.takeWhile isBlank), rfl,
    rfl, fun w _ => ?_⟩
  have closed : commandBody 0 none (raw.toList ++ ')' :: w) = some raw.toList :=
    closes_iff.mpr ⟨out, unquoted, balancedFrom_zero.mpr balanced⟩
  have regroup : '(' :: (raw.toList ++ [')']) ++ w = '(' :: (raw.toList ++ ')' :: w) := by simp
  rw [regroup]
  simp only [Lexeme.read, Lexeme.readCommand, closed, trimmed.trim_eq, String.ofList_toList]
  rfl

/-- Every lexeme that can be spelled is, by its spelling. -/
theorem Lexeme.Spellable.spells {l : Lexeme} (h : l.Spellable) : Spells l.spelling l := by
  cases l with
  | keyword k =>
    have isName : Surface.Segment.IsName k.spelling.toList := by
      cases k <;> exact ⟨⟨_, _, rfl, rfl⟩, List.all_eq_true.mp (by decide)⟩
    have spells := spells_word isName
    rwa [String.ofList_toList, ofWord_spelling] at spells
  | symbol s => exact spells_symbol s
  | ident name =>
    have spells := spells_word h.1
    rwa [String.ofList_toList, ofWord_of_not_reserved h.2] at spells
  | int value => exact spells_int h
  | fraction value => exact h.elim
  | text raw => exact spells_text h
  | command raw => exact spells_command h

/-! ## Rows of spellings -/

/-- The spellings with a blank between each two. -/
def printed (ls : List Lexeme) : List Char := List.intercalate [' '] (ls.map Lexeme.spelling)

/-- Spellings with blanks between are read back one by one. -/
theorem scanFrom_printed {ls : List Lexeme} (h : ∀ l ∈ ls, l.Spellable) (pos : Nat) :
    ∃ ts, Token.scanFrom 0 pos (printed ls) = .ok ts ∧ ts.map Token.lexeme = ls := by
  have blank : IsGap [' '] := .separator rfl .nil
  induction ls generalizing pos with
  | nil => exact ⟨[], by rw [printed, List.map_nil, List.intercalate_nil, Token.scanFrom], rfl⟩
  | cons l ls ih =>
    obtain ⟨first, others⟩ := List.forall_mem_cons.mp h
    obtain ⟨c, more, lead, spelled, begins, read⟩ := first.spells
    cases ls with
    | nil =>
      have whole : printed [l] = c :: (more ++ []) := by simp [printed, spelled]
      rw [whole, Token.scanFrom_read (r := ⟨l, lead, more⟩) begins (read [] quiet_nil),
        Token.scanFrom]
      exact ⟨_, rfl, rfl⟩
    | cons l' ls =>
      have whole : printed (l :: l' :: ls) = c :: (more ++ ([' '] ++ printed (l' :: ls))) := by
        simp [printed, spelled]
      have quiet : Quiet ([' '] ++ printed (l' :: ls)) := blank.quiet_append (by simp)
      obtain ⟨ts, scanned, same⟩ := ih others (pos + byteSize (c :: more) + byteSize [' '])
      rw [whole, Token.scanFrom_read (r := ⟨l, lead, more⟩) begins (read _ quiet),
        Token.scanFrom_gap blank, scanned]
      exact ⟨_, rfl, congrArg (l :: ·) same⟩

/-- A whole number that is read is not negative, and it is the value of its digits. -/
theorem Token.int_of_scan {s : Source} {ts : List Token} {t : Token}
    (scanned : Token.scan s.chars = .ok ts) (mem : t ∈ ts) {value : Int64}
    (isInt : t.lexeme = .int value) :
    0 ≤ value.toInt ∧ value.toInt < twoTo 63 ∧ (∀ d ∈ s.slice t.span, d.isDigit = true) ∧
      value.toInt = Nat.ofDigitChars 10 (s.slice t.span) 0 := by
  obtain ⟨stop, rest, walk, -⟩ := Token.scan_eq_ok_iff.mp scanned
  obtain ⟨before, c, r, after, whole, -, read, rfl⟩ := walk.exists_text mem
  have faithful := (reader_read c).faithful read
  rw [Reading.Faithful, show r.lexeme = .int value from isInt] at faithful
  obtain ⟨digits, small, rfl⟩ := faithful
  have text : s.slice (r.token (byteSize before) c).span = c :: r.more :=
    Source.slice_append whole
  have exact : (Int64.ofNat (digitsValue (c :: r.more))).toInt = digitsValue (c :: r.more) :=
    Int64.toInt_ofNat_of_lt small
  rw [text, exact]
  exact ⟨by omega, by omega, digits, rfl⟩

/-- Reading undoes printing: a row of spellings is read as the lexemes that were spelled. And all
raw texts and whole numbers that are ever read are among those that can be spelled. -/
theorem scan_printed :
    (∀ ls : List Lexeme, (∀ l ∈ ls, l.Spellable) →
      ∃ ts, Token.scan (printed ls) = .ok ts ∧ ts.map Token.lexeme = ls) ∧
    ∀ (s : Source) (ts : List Token), Token.scan s.chars = .ok ts → ∀ t ∈ ts,
      (∀ raw, t.lexeme = .text raw → Escaped '"' raw.toList) ∧
      (∀ raw, t.lexeme = .command raw → IsCommandText raw.toList) ∧
      ∀ value, t.lexeme = .int value →
        0 ≤ value.toInt ∧ value.toInt < twoTo 63 ∧ (∀ d ∈ s.slice t.span, d.isDigit = true) ∧
          value.toInt = Nat.ofDigitChars 10 (s.slice t.span) 0 := by
  refine ⟨fun ls spellable => scanFrom_printed spellable 0, fun s ts scanned t mem =>
    ⟨?_, ?_, ?_⟩⟩
  · intro raw isText
    exact escaped_iff.mp (textBody_of_token scanned mem isText [])
  · intro raw isCommand
    obtain ⟨closed, trimmed⟩ := closes_of_token scanned mem isCommand []
    obtain ⟨out, unquoted, balanced⟩ := closes_iff.mp closed
    exact ⟨trimmed, out, unquoted, balancedFrom_zero.mp balanced⟩
  · intro value isInt
    exact Token.int_of_scan scanned mem isInt

/-- A row with a quote behind a backslash and a bracket within quotes in it, and a number
that begins with zeros. -/
theorem scan_printed_samples :
    (∃ ts, Token.scan (printed [.keyword .ifWord, .ident "x", .int 9223372036854775807,
        .text "\\\"é", .command "f ( \")\" )"]) = .ok ts ∧
      ts.map Token.lexeme = [.keyword .ifWord, .ident "x", .int 9223372036854775807,
        .text "\\\"é", .command "f ( \")\" )"]) ∧
    (7 : Int64).toInt = Nat.ofDigitChars 10 ((⟨" 007"⟩ : Source).slice ⟨1, 4⟩) 0 := by
  constructor
  · refine scan_printed.1 _ ?_
    have name : Surface.Segment.IsName "x".toList :=
      ⟨⟨'x', [], rfl, rfl⟩, List.all_eq_true.mp (by decide)⟩
    have unreserved : "x" ∉ reserved := by decide +kernel
    have largest : 0 ≤ (9223372036854775807 : Int64).toInt := by decide +kernel
    have text : Escaped '"' "\\\"é".toList := .pair '"' (.char (by decide) (by decide) .nil)
    have closed : Closes 0 none "f ( \")\" )".toList [] := by
      unfold Closes
      decide +kernel
    have trimmed : Trimmed "f ( \")\" )".toList := by
      constructor
      · rintro c ⟨⟩
        rfl
      · rintro c ⟨⟩
        rfl
    obtain ⟨out, unquoted, balanced⟩ := closes_iff.mp closed
    rw [balancedFrom_zero] at balanced
    simp only [List.forall_mem_cons]
    exact ⟨trivial, ⟨name, unreserved⟩, largest, text, ⟨trimmed, out, unquoted, balanced⟩,
      by simp⟩
  · have scanned : Token.scan (⟨" 007"⟩ : Source).chars = .ok [⟨.int 7, ⟨1, 4⟩, 1⟩] := rfl
    exact ((scan_printed.2 ⟨" 007"⟩ _ scanned _ (.head _)).2.2 7 rfl).2.2.2

end Shellwright
