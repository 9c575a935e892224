import Shellwright.Proofs.Shell.Fragment

/-!
# How words and tests are spelled

Which texts are read as which words and tests. `SpellsWord`, `SpellsCondition` and `SpellsTest`
say so for a text that stands before others: the reader takes just this text, whatever follows,
as long as what follows does not go on its last name or its last test. Every way in which scripts
put words and tests together is a rule here, so a text that was put together by the rules is read
back part by part.
-/

namespace Shellwright.Shell

open Shellwright.Script

/-! ## What can follow -/

/-- The text does not go on a name that stands before it. -/
def endsName (cs : List Char) : Bool := !cs.head?.any isNameChar

/-- The text does not go on a word that stands before it. -/
def endsWord (cs : List Char) : Bool := cs.head?.all (· = ' ')

/-- The text does not go on a test that stands before it. -/
def endsTest (cs : List Char) : Bool :=
  endsWord cs && (after? " || ".toList cs).isNone && (after? " && ".toList cs).isNone

/-- What ends a word ends a name. -/
theorem endsName_of_endsWord {cs : List Char} (h : endsWord cs = true) : endsName cs = true := by
  cases cs with
  | nil => rfl
  | cons c cs =>
    obtain rfl : c = ' ' := by simpa [endsWord] using h
    rfl

theorem readWord_of_endsWord {cs : List Char} (h : endsWord cs = true) :
    readWord cs = some ([], cs) := by
  cases cs with
  | nil => simp [readWord]
  | cons c cs =>
    obtain rfl : c = ' ' := by simpa [endsWord] using h
    simp [readWord]

@[simp]
theorem after?_append (lead cs : List Char) : after? lead (lead ++ cs) = some cs := by
  induction lead with
  | nil => rfl
  | cons c lead ih => simp [after?, ih]

theorem length_lt_append {lead : List Char} (h : lead ≠ []) (cs : List Char) :
    cs.length < (lead ++ cs).length := by
  have some := List.length_pos_iff.mpr h
  rw [List.length_append]
  omega

/-- A reader goes on behind a beginning, for less is left there than the whole. -/
theorem leftOf_after? {lead cs whole : List Char} (h : cs.length < whole.length) :
    (after? lead (lead ++ cs)).bind (leftOf whole) = some ⟨cs, h⟩ := by
  rw [after?_append, Option.bind_some, leftOf_eq h]

/-! ## One character of a word -/

/-- Puts pieces before those that a reader gives. -/
def prepend (w : List Piece) (r : Option (List Piece × List Char)) :
    Option (List Piece × List Char) :=
  r.map fun (ps, rest) => (w ++ ps, rest)

theorem prepend_append (v w : List Piece) (r : Option (List Piece × List Char)) :
    prepend (v ++ w) r = prepend v (prepend w r) := by
  cases r <;> simp [prepend]

/-- A dollar sign begins an expansion, and the word goes on after it. -/
theorem readWord_dollar {cs rest : List Char} {p : Piece}
    (h : readExpansion cs = some (p, rest)) (less : rest.length < cs.length) :
    readWord ('$' :: cs) = prepend [p] (readWord rest) := by
  rw [readWord, if_neg (by decide), if_pos rfl, h]
  simp only [Option.bind_eq_bind, Option.bind_some, leftOf_eq less]
  cases readWord rest <;> rfl

/-- An expansion in quotes is a piece like one without. -/
theorem readWord_quoted {cs rest : List Char} {p : Piece}
    (h : readExpansion cs = some (p, '"' :: rest)) (less : rest.length < cs.length) :
    readWord ('"' :: '$' :: cs) = prepend [p] (readWord rest) := by
  have inner : leftOf ('$' :: cs) cs = some ⟨cs, by simp⟩ := leftOf_eq _
  have outer : leftOf ('$' :: cs) rest = some ⟨rest, Nat.lt_succ_of_lt less⟩ := leftOf_eq _
  rw [readWord, if_neg (by decide), if_neg (by decide), if_pos rfl]
  simp only [after?, if_true, Option.bind_eq_bind, Option.bind_some, inner, h, outer]
  cases readWord rest <;> rfl

/-- Digits and signs stand for themselves. -/
theorem readWord_plain {c : Char} (h : (c.isDigit || c = '-') = true) (cs : List Char) :
    readWord (c :: cs) = prepend [.plain c] (readWord cs) := by
  have noBlank : c ≠ ' ' := by rintro rfl; cases h
  have noDollar : c ≠ '$' := by rintro rfl; cases h
  have noQuote : c ≠ '"' := by rintro rfl; cases h
  rw [readWord, if_neg noBlank, if_neg noDollar, if_neg noQuote, if_pos h]
  cases readWord cs <;> rfl

/-- Inside arithmetic, expansions are read as in words. -/
theorem readArith_dollar {depth : Nat} {cs rest : List Char} {p : Piece}
    (h : readExpansion cs = some (p, rest)) (less : rest.length < cs.length) :
    readArith depth ('$' :: cs) = prepend [p] (readArith depth rest) := by
  rw [readArith, if_pos rfl, h]
  simp only [Option.bind_eq_bind, Option.bind_some, leftOf_eq less]
  cases readArith depth rest <;> rfl

/-- Any character of an arithmetic text but a dollar sign and the bracket that ends the text. -/
theorem readArith_plain {c : Char} (h : (c = ' ' || c.isDigit || isArithMark c) = true)
    {depth : Nat} (inside : c = ')' → depth ≠ 0) (cs : List Char) :
    readArith depth (c :: cs) = prepend [.plain c] (readArith (depthAfter c depth) cs) := by
  have noDollar : c ≠ '$' := by rintro rfl; cases h
  have noEnd : ¬(c = ')' && depth = 0) = true := by simpa using inside
  rw [readArith, if_neg noDollar, if_neg noEnd, if_pos h]
  cases readArith (depthAfter c depth) cs <;> rfl

/-- Two closing brackets end arithmetic in which no bracket is open. -/
theorem readArith_end (cs : List Char) : readArith 0 (')' :: ')' :: cs) = some ([], cs) := by
  simp [readArith, after?]

/-! ## Words -/

/-- The text is read as the given pieces, in a word and, unless it is quoted, in an arithmetic
text. -/
structure SpellsWord (quoted : Bool) (t : String) (w : List Piece) : Prop where
  inWord : ∀ rest, endsName rest = true → readWord (t.toList ++ rest) = prepend w (readWord rest)
  inArith : quoted = false → ∀ depth rest, endsName rest = true →
    readArith depth (t.toList ++ rest) = prepend w (readArith depth rest)
  noBracket : ∀ rest, after? "( ".toList (t.toList ++ rest) = none

/-- The text after a dollar sign is read as the given piece. -/
structure SpellsExpansion (t : String) (p : Piece) : Prop where
  read : ∀ rest, endsName rest = true → readExpansion (t.toList ++ rest) = some (p, rest)
  nonempty : t.toList ≠ []

/-- Reading an expansion leaves less text. -/
theorem SpellsExpansion.less {t : String} {p : Piece} (h : SpellsExpansion t p)
    (rest : List Char) :
    rest.length < (t.toList ++ rest).length := length_lt_append h.nonempty rest

/-- A dollar sign and the text of an expansion spell a word. -/
theorem SpellsExpansion.word {t : String} {p : Piece} (h : SpellsExpansion t p) (quoted : Bool) :
    SpellsWord quoted ("$" ++ t) [p] where
  inWord rest ends := by
    rw [String.toList_append, List.append_assoc]
    exact readWord_dollar (h.read rest ends) (h.less rest)
  inArith _ depth rest ends := by
    rw [String.toList_append, List.append_assoc]
    exact readArith_dollar (h.read rest ends) (h.less rest)
  noBracket rest := by
    rw [String.toList_append]
    rfl

/-- So they do in quotes. -/
theorem SpellsExpansion.quotedWord {t : String} {p : Piece} (h : SpellsExpansion t p) :
    SpellsWord true ("\"" ++ "$" ++ t ++ "\"") [p] where
  inWord rest ends := by
    simp only [String.toList_append, List.append_assoc]
    exact readWord_quoted (h.read ('"' :: rest) rfl)
      (Nat.lt_of_succ_lt (h.less ('"' :: rest)))
  inArith unquoted := by cases unquoted
  noBracket rest := by
    simp only [String.toList_append, List.append_assoc]
    rfl

/-- Characters of a number are read one by one. -/
theorem SpellsWord.plain {t : String} (digits : ∀ c ∈ t.toList, (c.isDigit || c = '-') = true)
    (nonempty : t ≠ "") (quoted : Bool) : SpellsWord quoted t (t.toList.map .plain) where
  inWord rest _ := by
    generalize t.toList = cs at digits
    induction cs with
    | nil => cases h : readWord rest <;> simp [prepend, h]
    | cons c cs ih =>
      rw [List.cons_append, readWord_plain (digits c List.mem_cons_self),
        ih fun d mem => digits d (List.mem_cons_of_mem c mem), ← prepend_append]
      rfl
  inArith _ depth rest _ := by
    generalize t.toList = cs at digits
    induction cs with
    | nil => cases h : readArith depth rest <;> simp [prepend, h]
    | cons c cs ih =>
      have digit := digits c List.mem_cons_self
      have ok : (c = ' ' || c.isDigit || isArithMark c) = true := by
        rcases Bool.or_eq_true_iff.mp digit with d | d
        · simp [d]
        · simp [isArithMark, of_decide_eq_true d]
      have noOpen : c ≠ '(' := by rintro rfl; cases digit
      have noClose : c ≠ ')' := by rintro rfl; cases digit
      rw [List.cons_append, readArith_plain ok (absurd · noClose), depthAfter, if_neg noOpen,
        if_neg noClose, ih fun d mem => digits d (List.mem_cons_of_mem c mem), ← prepend_append]
      rfl
  noBracket rest := by
    cases eq : t.toList with
    | nil => exact absurd (String.toList_eq_nil_iff.mp eq) nonempty
    | cons c cs =>
      have digit := digits c (eq ▸ List.mem_cons_self)
      have noOpen : '(' ≠ c := by rintro rfl; cases digit
      simp [after?, noOpen]

/-- A text that can be the name of a variable. -/
def IsName (name : String) : Prop :=
  ∃ c cs, name.toList = c :: cs ∧ isNameStart c = true ∧ ∀ d ∈ cs, isNameChar d = true

theorem isNameChar_of_isNameStart {c : Char} (h : isNameStart c = true) :
    isNameChar c = true := by
  rcases Bool.or_eq_true_iff.mp h with alpha | underscore
  · simp [isNameChar, Char.isAlphanum, alpha]
  · simp [isNameChar, of_decide_eq_true underscore]

theorem IsName.nameChars {name : String} (h : IsName name) :
    ∀ d ∈ name.toList, isNameChar d = true := by
  obtain ⟨c, cs, eq, start, more⟩ := h
  intro d mem
  rw [eq] at mem
  rcases List.mem_cons.mp mem with rfl | mem
  · exact isNameChar_of_isNameStart start
  · exact more d mem

/-- A name is read up to where it ends. -/
theorem readName_append {name : String} (h : IsName name) {rest : List Char}
    (ends : endsName rest = true) : readName (name.toList ++ rest) = some (name, rest) := by
  have stop : rest.takeWhile isNameChar = [] ∧ rest.dropWhile isNameChar = rest := by
    cases rest with
    | nil => exact ⟨rfl, rfl⟩
    | cons c cs =>
      have noName : isNameChar c = false := by simpa [endsName] using ends
      simp [noName]
  have taken : (name.toList ++ rest).takeWhile isNameChar = name.toList := by
    rw [List.takeWhile_append_of_pos h.nameChars, stop.1, List.append_nil]
  have left : (name.toList ++ rest).dropWhile isNameChar = rest := by
    rw [List.dropWhile_append_of_pos h.nameChars, stop.2]
  obtain ⟨c, cs, eq, start, -⟩ := h
  rw [readName, taken, left, eq]
  simp only [start, if_true]
  rw [← eq, String.ofList_toList]

/-- A name spells the expansion of the variable. -/
theorem SpellsExpansion.var {name : String} (h : IsName name) :
    SpellsExpansion name (.var name) where
  read rest ends := by
    obtain ⟨c, cs, eq, start, -⟩ := id h
    have noBracket : '(' ≠ c := by rintro rfl; cases start
    have noLead : ∀ lead, after? ('(' :: lead) (name.toList ++ rest) = none := by
      intro lead
      rw [eq]
      simp [after?, noBracket]
    rw [readExpansion, noLead, show "([[ ".toList = '(' :: "[[ ".toList from rfl, noLead,
      show "(! [[ ".toList = '(' :: "! [[ ".toList from rfl, noLead, readName_append h ends]
    rfl
  nonempty := by
    obtain ⟨c, cs, eq, -, -⟩ := h
    simp [eq]

/-- Two brackets begin arithmetic. -/
theorem readExpansion_arith {cs rest : List Char} {body : List Piece}
    (h : readArith 0 cs = some (body, rest)) :
    readExpansion ('(' :: '(' :: cs) = some (.arith body, rest) := by
  have less : cs.length < ('(' :: '(' :: cs).length :=
    length_lt_append (List.cons_ne_nil '(' ['(']) cs
  have lead : (after? ['(', '('] ('(' :: '(' :: cs)).bind (leftOf ('(' :: '(' :: cs)) =
      some ⟨cs, less⟩ := leftOf_after? less
  rw [readExpansion, lead]
  simp [h]

/-- Arithmetic of two operands. The operands stand in blanks, so neither goes on the other. -/
theorem SpellsExpansion.arith {l r mark : String} {left right : List Piece}
    (hl : SpellsWord false l left) (hr : SpellsWord false r right)
    (marks : ∀ c ∈ mark.toList, isArithMark c = true ∧ c ≠ '(' ∧ c ≠ ')') :
    SpellsExpansion ("((" ++ l ++ (" " ++ mark ++ " ") ++ r ++ "))")
      (.arith (left ++ .plain ' ' :: (mark.toList.map .plain ++ .plain ' ' :: right))) := by
  have between : ∀ (cs rest : List Char),
      (∀ c ∈ cs, isArithMark c = true ∧ c ≠ '(' ∧ c ≠ ')') →
      readArith 0 (cs ++ rest) = prepend (cs.map .plain) (readArith 0 rest) := by
    intro cs rest marks
    induction cs with
    | nil => cases h : readArith 0 rest <;> simp [prepend, h]
    | cons c cs ih =>
      obtain ⟨isMark, noOpen, noClose⟩ := marks c List.mem_cons_self
      rw [List.cons_append, readArith_plain (by simp [isMark]) (absurd · noClose), depthAfter,
        if_neg noOpen, if_neg noClose, ih fun d mem => marks d (List.mem_cons_of_mem c mem),
        ← prepend_append]
      rfl
  refine ⟨fun rest _ => ?_, by simp⟩
  have body : readArith 0 (l.toList ++ ' ' ::
      (mark.toList ++ ' ' :: (r.toList ++ ')' :: ')' :: rest))) =
        some (left ++ .plain ' ' :: (mark.toList.map .plain ++ .plain ' ' :: right), rest) := by
    rw [hl.inArith rfl _ _ rfl, readArith_plain rfl (by decide), depthAfter, if_neg (by decide),
      if_neg (by decide), between _ _ marks, readArith_plain rfl (by decide), depthAfter,
      if_neg (by decide), if_neg (by decide), hr.inArith rfl _ _ rfl, readArith_end]
    simp [prepend]
  simp only [String.toList_append, List.append_assoc]
  exact readExpansion_arith body

/-- How the negative of a word is spelled. -/
theorem SpellsExpansion.negated {t : String} {w : List Piece} (h : SpellsWord false t w) :
    SpellsExpansion ("((-(" ++ t ++ ")))")
      (.arith (.plain '-' :: .plain '(' :: (w ++ [.plain ')']))) := by
  refine ⟨fun rest _ => ?_, by simp⟩
  have body : readArith 0 ('-' :: '(' :: (t.toList ++ ')' :: ')' :: ')' :: rest)) =
      some (.plain '-' :: .plain '(' :: (w ++ [.plain ')']), rest) := by
    rw [readArith_plain rfl (by decide), readArith_plain rfl (by decide),
      h.inArith rfl _ _ rfl]
    simp only [depthAfter]
    rw [readArith_plain rfl (by simp), depthAfter]
    simp [readArith_end, prepend]
  simp only [String.toList_append, List.append_assoc]
  exact readExpansion_arith body

/-! ## Tests -/

/-- The text is read as a test that can be an operand of `&&` and `||`. -/
def SpellsCondition (t : String) (test : Test) : Prop :=
  ∀ rest, endsWord rest = true → readCondition (t.toList ++ rest) = some (test, rest)

def SpellsTest (t : String) (test : Test) : Prop :=
  ∀ rest, endsTest rest = true → readTest (t.toList ++ rest) = some (test, rest)

/-- A relation is read by its word between blanks. -/
theorem readRelation_word (r : Relation) (rest : List Char) :
    readRelation (' ' :: (r.word.toList ++ ' ' :: rest)) = some (r, rest) := by
  cases r <;> simp [readRelation, Relation.all, Relation.word, after?]

/-- Two words with a relation between spell a comparison. -/
theorem SpellsCondition.compare {quoted : Bool} {l r : String} {left right : List Piece}
    (hl : SpellsWord quoted l left) (hr : SpellsWord quoted r right) (relation : Relation) :
    SpellsCondition (l ++ (" " ++ relation.word ++ " ") ++ r)
      (.compare relation left right) := by
  intro rest ends
  have first : readWord (l.toList ++ ' ' ::
      (relation.word.toList ++ ' ' :: (r.toList ++ rest))) =
        some (left, ' ' :: (relation.word.toList ++ ' ' :: (r.toList ++ rest))) := by
    rw [hl.inWord _ rfl, readWord_of_endsWord rfl]
    simp [prepend]
  have second : readWord (r.toList ++ rest) = some (right, rest) := by
    rw [hr.inWord rest (endsName_of_endsWord ends), readWord_of_endsWord ends]
    simp [prepend]
  simp only [String.toList_append, List.append_assoc]
  rw [readCondition, hl.noBracket]
  change ((readWord (l.toList ++ ' ' ::
    (relation.word.toList ++ ' ' :: (r.toList ++ rest)))).bind _) = _
  rw [first, Option.bind_some]
  change ((readRelation (' ' :: (relation.word.toList ++ ' ' :: (r.toList ++ rest)))).bind _) = _
  rw [readRelation_word, Option.bind_some]
  change ((leftOf _ (r.toList ++ rest)).bind _) = _
  rw [leftOf_eq (by simp; omega), Option.bind_some]
  change ((readWord (r.toList ++ rest)).bind _) = _
  rw [second]
  rfl

/-- A test in brackets spells a condition. -/
theorem SpellsCondition.group {t : String} {test : Test} (h : SpellsTest t test) :
    SpellsCondition ("( " ++ t ++ " )") test := by
  intro rest _
  have inner : readTest (t.toList ++ ' ' :: ')' :: rest) = some (test, ' ' :: ')' :: rest) :=
    h (' ' :: ')' :: rest) rfl
  simp only [String.toList_append, List.append_assoc]
  rw [readCondition, leftOf_after? (length_lt_append (by simp) _)]
  change ((readTest (t.toList ++ ' ' :: ')' :: rest)).bind _) = _
  rw [inner]
  rfl

/-- A test ends where a word does and no connective follows. -/
theorem endsTest_iff {cs : List Char} :
    endsTest cs = true ↔ endsWord cs = true ∧ after? " || ".toList cs = none ∧
      after? " && ".toList cs = none := by
  simp only [endsTest, Bool.and_eq_true, Option.isNone_iff_eq_none, and_assoc]

/-- A condition with no `&&` after it is all there is to a conjunction. -/
theorem readConjunction_single {cs rest : List Char} {test : Test}
    (h : readCondition cs = some (test, rest)) (noAnd : after? " && ".toList rest = none) :
    readConjunction cs = some (test, rest) := by
  rw [readConjunction, h]
  simp only [Option.bind_eq_bind, Option.bind_some, noAnd]
  rfl

/-- A conjunction with no `||` after it is all there is to a test. -/
theorem readTest_single {cs rest : List Char} {test : Test}
    (h : readConjunction cs = some (test, rest)) (noOr : after? " || ".toList rest = none) :
    readTest cs = some (test, rest) := by
  rw [readTest, h]
  simp only [Option.bind_eq_bind, Option.bind_some, noOr]
  rfl

/-- A condition by itself is a test. -/
theorem SpellsCondition.test {t : String} {test : Test} (h : SpellsCondition t test) :
    SpellsTest t test := by
  intro rest ends
  obtain ⟨ends, noOr, noAnd⟩ := endsTest_iff.mp ends
  exact readTest_single (readConjunction_single (h rest ends) noAnd) noOr

/-- Two conditions with `&&` between spell that both hold. -/
theorem SpellsTest.both {a b : String} {first second : Test} (ha : SpellsCondition a first)
    (hb : SpellsCondition b second) :
    SpellsTest (a ++ (" " ++ "&&" ++ " ") ++ b) (.both first second) := by
  intro rest ends
  obtain ⟨ends, noOr, noAnd⟩ := endsTest_iff.mp ends
  have left := ha (" && ".toList ++ (b.toList ++ rest)) rfl
  have right := readConjunction_single (hb rest ends) noAnd
  have whole : readConjunction (a.toList ++ (" && ".toList ++ (b.toList ++ rest))) =
      some (.both first second, rest) := by
    rw [readConjunction, left]
    simp only [Option.bind_eq_bind, Option.bind_some]
    rw [leftOf_after? (by simp; omega)]
    simp only [right]
    rfl
  simp only [String.toList_append, List.append_assoc]
  exact readTest_single whole noOr

/-- Two conditions with `||` between spell that one of them holds. -/
theorem SpellsTest.either {a b : String} {first second : Test} (ha : SpellsCondition a first)
    (hb : SpellsCondition b second) :
    SpellsTest (a ++ (" " ++ "||" ++ " ") ++ b) (.either first second) := by
  intro rest ends
  have left := readConjunction_single (ha (" || ".toList ++ (b.toList ++ rest)) rfl) rfl
  have right := hb.test rest ends
  have whole : readTest (a.toList ++ (" || ".toList ++ (b.toList ++ rest))) =
      some (.either first second, rest) := by
    rw [readTest, left]
    simp only [Option.bind_eq_bind, Option.bind_some]
    rw [leftOf_after? (by simp; omega)]
    simp only [right]
    rfl
  simp only [String.toList_append, List.append_assoc]
  exact whole

/-- A test in double brackets is read up to the text that turns it into a value. -/
theorem readDecision_append {t : String} {test : Test} (h : SpellsTest t test) (inverted : Bool)
    (rest : List Char) :
    readDecision inverted (t.toList ++ (decisionClose.toList ++ rest)) =
      some (.decision inverted test, rest) := by
  rw [readDecision, h _ rfl]
  simp only [Option.bind_eq_bind, Option.bind_some, decisionClose, after?_append]
  rfl

/-- A test in double brackets spells its value. -/
theorem SpellsExpansion.decision {t : String} {test : Test} (h : SpellsTest t test) :
    SpellsExpansion ("([[ " ++ t ++ decisionClose) (.decision false test) := by
  refine ⟨fun rest _ => ?_, by simp⟩
  simp only [String.toList_append, List.append_assoc]
  have noArith : after? ['(', '(']
      ("([[ ".toList ++ (t.toList ++ (decisionClose.toList ++ rest))) = none := rfl
  rw [readExpansion, noArith, leftOf_after? (length_lt_append (by simp) _)]
  exact readDecision_append h false rest

/-- With an exclamation mark it spells the opposite. -/
theorem SpellsExpansion.inverted {t : String} {test : Test} (h : SpellsTest t test) :
    SpellsExpansion ("(! [[ " ++ t ++ decisionClose) (.decision true test) := by
  refine ⟨fun rest _ => ?_, by simp⟩
  simp only [String.toList_append, List.append_assoc]
  have noArith : after? ['(', '(']
      ("(! [[ ".toList ++ (t.toList ++ (decisionClose.toList ++ rest))) = none := rfl
  have noDecision : after? "([[ ".toList
      ("(! [[ ".toList ++ (t.toList ++ (decisionClose.toList ++ rest))) = none := rfl
  rw [readExpansion, noArith, noDecision, leftOf_after? (length_lt_append (by simp) _)]
  exact readDecision_append h true rest

/-! ## Whole texts -/

end Shellwright.Shell
