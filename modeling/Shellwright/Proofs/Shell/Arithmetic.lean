import Shellwright.Script.Words

/-!
# Arithmetic of the shell

The shell expands the text of an arithmetic expansion first and reads what comes out as
arithmetic, so what an operand stands for is decided by its characters. `arithValue` is this
reading: a text is cut into numbers and marks, these are read with the usual precedence, and the
tree is evaluated on 64-bit integers that wrap around. The reading is strict where the shell
would understand something else: two signs that touch are an operator of their own, and a number
with a leading zero is octal; neither has a value here.

The main results say that the three kinds of texts which scripts hand to the shell have the
values they should: a decimal number, two of them with an operator between, and one with a minus
sign before its brackets.
-/

namespace Shellwright.Shell

open Shellwright.Script

/-- Why a text has no value. -/
inductive Failure where
  | unreadable
  | divisionByZero
  deriving DecidableEq, Repr

/-! ## Numbers and marks -/

/-- A number or a mark of an arithmetic text. -/
inductive ArithWord where
  | number (value : Int64)
  | mark (c : Char)
  deriving DecidableEq, Repr

def isArithMark (c : Char) : Bool :=
  c = '+' || c = '-' || c = '*' || c = '/' || c = '%' || c = '(' || c = ')'

/-- Puts the number whose digits were read last before the words that follow it. -/
def flush (pending : Option Nat) (ws : List ArithWord) : List ArithWord :=
  match pending with
  | none => ws
  | some n => .number (.ofNat n) :: ws

/-- The words of an arithmetic text, when `pending` is the number that the digits just before it
stand for. -/
def arithWords (pending : Option Nat) : List Char → Option (List ArithWord)
  | [] => some (flush pending [])
  | c :: cs =>
    if c.isDigit then
      if pending = some 0 then none
      else arithWords (some (10 * pending.getD 0 + (c.toNat - '0'.toNat))) cs
    else if c = ' ' then (arithWords none cs).map (flush pending)
    else if isArithMark c then
      if (c = '+' || c = '-') && cs.head? = some c then none
      else (arithWords none cs).map fun ws => flush pending (.mark c :: ws)
    else none

/-! ## Precedence -/

/-- An arithmetic expression as the shell understands it. -/
inductive Arith where
  | number (value : Int64)
  | negate (a : Arith)
  | add (a b : Arith)
  | sub (a b : Arith)
  | mul (a b : Arith)
  | div (a b : Arith)
  | mod (a b : Arith)
  deriving DecidableEq, Repr

/-- What is left of a list, if it is less than the whole. -/
def leftOf {α : Type} (whole rest : List α) :
    Option { rest : List α // rest.length < whole.length } :=
  if h : rest.length < whole.length then some ⟨rest, h⟩ else none

theorem leftOf_eq {α : Type} {whole rest : List α} (h : rest.length < whole.length) :
    leftOf whole rest = some ⟨rest, h⟩ := dif_pos h

mutual

/-- Products with additive signs between them, from the left. -/
def readSum (ws : List ArithWord) : Option (Arith × List ArithWord) := do
  let (a, rest) ← readProduct ws
  let ⟨rest, _⟩ ← leftOf ws rest
  readSumTail a rest
termination_by (ws.length, 2)

def readSumTail (a : Arith) (ws : List ArithWord) : Option (Arith × List ArithWord) :=
  match ws with
  | .mark '+' :: ws => do
    let (b, rest) ← readProduct ws
    let ⟨rest, _⟩ ← leftOf ws rest
    readSumTail (.add a b) rest
  | .mark '-' :: ws => do
    let (b, rest) ← readProduct ws
    let ⟨rest, _⟩ ← leftOf ws rest
    readSumTail (.sub a b) rest
  | ws => some (a, ws)
termination_by (ws.length, 0)

/-- Factors with multiplicative signs between them, from the left. -/
def readProduct (ws : List ArithWord) : Option (Arith × List ArithWord) := do
  let (a, rest) ← readFactor ws
  let ⟨rest, _⟩ ← leftOf ws rest
  readProductTail a rest
termination_by (ws.length, 1)

def readProductTail (a : Arith) (ws : List ArithWord) : Option (Arith × List ArithWord) :=
  match ws with
  | .mark '*' :: ws => do
    let (b, rest) ← readFactor ws
    let ⟨rest, _⟩ ← leftOf ws rest
    readProductTail (.mul a b) rest
  | .mark '/' :: ws => do
    let (b, rest) ← readFactor ws
    let ⟨rest, _⟩ ← leftOf ws rest
    readProductTail (.div a b) rest
  | .mark '%' :: ws => do
    let (b, rest) ← readFactor ws
    let ⟨rest, _⟩ ← leftOf ws rest
    readProductTail (.mod a b) rest
  | ws => some (a, ws)
termination_by (ws.length, 0)

/-- A number, a factor after its sign, or a sum in brackets. -/
def readFactor (ws : List ArithWord) : Option (Arith × List ArithWord) :=
  match ws with
  | .number v :: ws => some (.number v, ws)
  | .mark '-' :: ws => do
    let (a, ws) ← readFactor ws
    return (.negate a, ws)
  | .mark '(' :: ws => do
    let (a, ws) ← readSum ws
    match ws with
    | .mark ')' :: ws => some (a, ws)
    | _ => none
  | _ => none
termination_by (ws.length, 0)

end

/-! ## Values -/

/-- The quotient or the remainder, as `f` says; there is none by zero. -/
def divideBy (f : Int64 → Int64 → Int64) (a b : Int64) : Except Failure Int64 :=
  if b = 0 then .error .divisionByZero else .ok (f a b)

def Arith.value : Arith → Except Failure Int64
  | .number v => .ok v
  | .negate a => do return -(← a.value)
  | .add a b => do return (← a.value) + (← b.value)
  | .sub a b => do return (← a.value) - (← b.value)
  | .mul a b => do return (← a.value) * (← b.value)
  | .div a b => do divideBy (· / ·) (← a.value) (← b.value)
  | .mod a b => do divideBy (· % ·) (← a.value) (← b.value)

/-- The value of an arithmetic text that has nothing left to expand. -/
def arithValue (cs : List Char) : Except Failure Int64 :=
  match (arithWords none cs).bind readSum with
  | some (a, []) => a.value
  | _ => .error .unreadable

/-! ## Decimal numbers -/

/-- The text does not go on a number that stands before it. -/
def endsNumber (cs : List Char) : Bool := !cs.head?.any Char.isDigit

/-- The induction goes from a number to the one without its last digit. What has been read of the
digits before is not zero then, so a digit more is welcome. -/
theorem arithWords_toDigits (n : Nat) (rest : List Char) :
    arithWords none (Nat.toDigits 10 n ++ rest) = arithWords (some n) rest := by
  induction n using Nat.strongRecOn generalizing rest with
  | ind n ih =>
    rw [Nat.toDigits_eq_if (by decide)]
    split
    · next small =>
      simp [arithWords, small, Nat.toNat_digitChar_sub_48_of_lt_ten small]
    · next large =>
      have digit : n % 10 < 10 := Nat.mod_lt n (by decide)
      have before : n / 10 ≠ 0 := by omega
      have value : 10 * (n / 10) + n % 10 = n := by omega
      rw [List.append_assoc, ih (n / 10) (by omega)]
      simp [arithWords, digit, before, Nat.toNat_digitChar_sub_48_of_lt_ten digit, value]

/-- A number ends where no digit follows, and what follows is read on its own. -/
theorem arithWords_pending {rest : List Char} (ends : endsNumber rest = true) (n : Nat) :
    arithWords (some n) rest =
      (arithWords none rest).map fun ws => .number (.ofNat n) :: ws := by
  cases rest with
  | nil => rfl
  | cons c cs =>
    have noDigit : c.isDigit = false := by simpa [endsNumber] using ends
    simp only [arithWords, noDigit, Bool.false_eq_true, if_false]
    split
    · cases arithWords none cs <;> rfl
    · split
      · split
        · rfl
        · cases arithWords none cs <;> rfl
      · rfl

/-- The words of a decimal number: its magnitude, after a minus sign if it is negative. -/
def signedWords (v : Int64) : List ArithWord :=
  if v.toInt < 0 then [.mark '-', .number (.ofNat v.toInt.natAbs)]
  else [.number (.ofNat v.toInt.natAbs)]

theorem intText_toList (v : Int64) :
    (intText v).toList =
      if v.toInt < 0 then '-' :: Nat.toDigits 10 v.toInt.natAbs
      else Nat.toDigits 10 v.toInt.natAbs := by
  rw [intText, Int.toString_eq_repr, Int.repr_eq_if]
  by_cases negative : v.toInt < 0
  · have magnitude : (-v.toInt).toNat = v.toInt.natAbs := by omega
    rw [if_neg (by omega), if_pos negative, String.toList_append, Nat.toList_repr, magnitude]
    rfl
  · have magnitude : v.toInt.toNat = v.toInt.natAbs := by omega
    rw [if_pos (by omega), if_neg negative, Nat.toList_repr, magnitude]

/-- A digit begins every run of digits. -/
theorem toDigits_head (n : Nat) (rest : List Char) :
    ∃ c, (Nat.toDigits 10 n ++ rest).head? = some c ∧ c.isDigit = true := by
  cases digits : Nat.toDigits 10 n with
  | nil => exact absurd digits Nat.toDigits_ne_nil
  | cons c cs =>
    refine ⟨c, rfl, Nat.isDigit_of_mem_toDigits (b := 10) (n := n) (by decide) (by decide) ?_⟩
    rw [digits]
    exact List.mem_cons_self

/-- A number that is written out is split into its sign and its digits. -/
theorem arithWords_intText (v : Int64) (rest : List Char) (ends : endsNumber rest = true) :
    arithWords none ((intText v).toList ++ rest) =
      (arithWords none rest).map (signedWords v ++ ·) := by
  rw [intText_toList, signedWords]
  split
  · obtain ⟨c, head, digit⟩ := toDigits_head v.toInt.natAbs rest
    have noSign : c ≠ '-' := by
      rintro rfl
      exact absurd digit (by decide)
    rw [List.cons_append, arithWords]
    simp [isArithMark, head, noSign, arithWords_toDigits, arithWords_pending ends, flush,
      Function.comp_def]
  · simp [arithWords_toDigits, arithWords_pending ends]

/-! ## Values of texts -/

/-- The tree that a decimal number is read as. -/
def signedArith (v : Int64) : Arith :=
  if v.toInt < 0 then .negate (.number (.ofNat v.toInt.natAbs))
  else .number (.ofNat v.toInt.natAbs)

/-- The magnitude of the least number wraps around to that number, and so does its negation. -/
theorem signedArith_value (v : Int64) : (signedArith v).value = .ok v := by
  unfold signedArith
  split
  · next negative =>
    have back : -Int64.ofNat v.toInt.natAbs = v := by
      have magnitude : -(v.toInt.natAbs : Int) = v.toInt := by omega
      rw [Int64.neg_ofNat, magnitude, Int64.ofInt_toInt]
    simp [Arith.value, back, bind, Except.bind, pure, Except.pure]
  · next nonnegative =>
    have magnitude : (v.toInt.natAbs : Int) = v.toInt := by omega
    rw [Arith.value, ← Int64.ofInt_eq_ofNat, magnitude, Int64.ofInt_toInt]

theorem signedWords_length_pos (v : Int64) : 0 < (signedWords v).length := by
  unfold signedWords
  split <;> simp

/-- A number with its sign is read as a factor. -/
theorem readFactor_signedWords (v : Int64) (ws : List ArithWord) :
    readFactor (signedWords v ++ ws) = some (signedArith v, ws) := by
  unfold signedWords signedArith
  split <;> simp [readFactor]

theorem readProduct_of_factor {ws rest : List ArithWord} {a : Arith}
    (factor : readFactor ws = some (a, rest)) (less : rest.length < ws.length) :
    readProduct ws = readProductTail a rest := by
  rw [readProduct, factor]
  simp [leftOf_eq less]

theorem readSum_of_product {ws rest : List ArithWord} {a : Arith}
    (product : readProduct ws = some (a, rest)) (less : rest.length < ws.length) :
    readSum ws = readSumTail a rest := by
  rw [readSum, product]
  simp [leftOf_eq less]

theorem readProduct_signedWords (v : Int64) (ws : List ArithWord) :
    readProduct (signedWords v ++ ws) = readProductTail (signedArith v) ws :=
  readProduct_of_factor (readFactor_signedWords v ws) (by simp [signedWords_length_pos])

theorem readFactor_last (v : Int64) : readFactor (signedWords v) = some (signedArith v, []) := by
  simpa using readFactor_signedWords v []

theorem readProduct_last (v : Int64) :
    readProduct (signedWords v) = some (signedArith v, []) := by
  simpa [readProductTail] using readProduct_signedWords v []

/-- The value of a text is that of the tree its words are read as. -/
theorem arithValue_of_words {cs : List Char} {ws : List ArithWord} {a : Arith}
    (words : arithWords none cs = some ws) (tree : readSum ws = some (a, [])) :
    arithValue cs = a.value := by
  rw [arithValue, words, Option.bind_some, tree]

/-- A number that is written out has itself as its value. -/
theorem arithValue_intText (v : Int64) : arithValue (intText v).toList = .ok v := by
  have words := arithWords_intText v [] rfl
  rw [List.append_nil] at words
  have tree : readSum (signedWords v) = some (signedArith v, []) := by
    rw [readSum_of_product (readProduct_last v) (signedWords_length_pos v)]
    simp [readSumTail]
  rw [← signedArith_value v]
  exact arithValue_of_words (by simpa [arithWords, flush] using words) tree

/-- A minus sign before brackets stays apart from the sign of the number in them. -/
theorem arithValue_negated (v : Int64) :
    arithValue ('-' :: '(' :: ((intText v).toList ++ [')'])) = .ok (-v) := by
  have words : arithWords none ('-' :: '(' :: ((intText v).toList ++ [')'])) =
      some (.mark '-' :: .mark '(' :: (signedWords v ++ [.mark ')'])) := by
    simp [arithWords, arithWords_intText v [')'] rfl, isArithMark, flush]
  have inner : readSum (signedWords v ++ [.mark ')']) = some (signedArith v, [.mark ')']) := by
    have product : readProduct (signedWords v ++ [.mark ')']) =
        some (signedArith v, [.mark ')']) := by
      simp [readProduct_signedWords, readProductTail]
    rw [readSum_of_product product (by simp [signedWords_length_pos])]
    simp [readSumTail]
  have factor : readFactor (.mark '-' :: .mark '(' :: (signedWords v ++ [.mark ')'])) =
      some (.negate (signedArith v), []) := by
    simp [readFactor, inner]
  have tree : readSum (.mark '-' :: .mark '(' :: (signedWords v ++ [.mark ')'])) =
      some (.negate (signedArith v), []) := by
    have product : readProduct (.mark '-' :: .mark '(' :: (signedWords v ++ [.mark ')'])) =
        some (.negate (signedArith v), []) := by
      rw [readProduct_of_factor factor (by simp)]
      simp [readProductTail]
    rw [readSum_of_product product (by simp)]
    simp [readSumTail]
  rw [arithValue_of_words words tree, Arith.value, signedArith_value]
  rfl

/-- What an arithmetic operator gives for two numbers. -/
def arithmetic (op : BinaryOp) (a b : Int64) : Except Failure Int64 :=
  match op with
  | .add => .ok (a + b)
  | .sub => .ok (a - b)
  | .mul => .ok (a * b)
  | .div => divideBy (· / ·) a b
  | .mod => divideBy (· % ·) a b
  | _ => .error .unreadable

/-- The words of two numbers with a mark between them. The blanks keep the mark apart from the
signs of the numbers. -/
theorem arithWords_binary (a b : Int64) (mark : Char) (h : isArithMark mark = true) :
    arithWords none ((intText a).toList ++ ' ' :: mark :: ' ' :: (intText b).toList) =
      some (signedWords a ++ .mark mark :: signedWords b) := by
  have right := arithWords_intText b [] rfl
  rw [List.append_nil] at right
  have noDigit : mark.isDigit = false := by
    simp only [isArithMark, Bool.or_eq_true, decide_eq_true_eq] at h
    rcases h with (((((rfl | rfl) | rfl) | rfl) | rfl) | rfl) | rfl <;> rfl
  have noBlank : mark ≠ ' ' := by
    rintro rfl
    cases h
  have apart : ¬((mark = '+' ∨ mark = '-') ∧ ' ' = mark) := fun both => noBlank both.2.symm
  rw [arithWords_intText a _ rfl]
  simp [arithWords, noDigit, noBlank, apart, h, right, flush]

/-- The tree of an operator and its operands. -/
def Arith.join (op : BinaryOp) (a b : Arith) : Arith :=
  match op with
  | .add => .add a b
  | .sub => .sub a b
  | .mul => .mul a b
  | .div => .div a b
  | _ => .mod a b

/-- Two values joined by an operator give what the operator gives. -/
theorem Arith.join_value {op : BinaryOp} (h : op.isArithmetic = true) {a b : Arith} {x y : Int64}
    (ha : a.value = .ok x) (hb : b.value = .ok y) : (join op a b).value = arithmetic op x y := by
  cases op with
  | add | sub | mul | div | mod =>
    simp only [join, value, ha, hb]
    rfl
  | _ => cases h

/-- Two numbers with an operator between are read as one operation. -/
theorem readSum_binary (a b : Int64) {op : BinaryOp} (h : op.isArithmetic = true) :
    ∃ mark, (operatorWord false op).toList = [mark] ∧ isArithMark mark = true ∧
      readSum (signedWords a ++ .mark mark :: signedWords b) =
        some (.join op (signedArith a) (signedArith b), []) := by
  have shorter (ws : List ArithWord) : ws.length < (signedWords a ++ ws).length := by
    simp [signedWords_length_pos]
  have empty : leftOf (signedWords b) [] = some ⟨[], signedWords_length_pos b⟩ :=
    dif_pos (signedWords_length_pos b)
  -- An additive mark ends the first product, a multiplicative one goes on with it.
  have additive (mark : Char)
      (ends : readProductTail (signedArith a) (.mark mark :: signedWords b) =
        some (signedArith a, .mark mark :: signedWords b)) :
      readSum (signedWords a ++ .mark mark :: signedWords b) =
        readSumTail (signedArith a) (.mark mark :: signedWords b) :=
    readSum_of_product (by rw [readProduct_signedWords, ends]) (shorter _)
  have multiplicative (mark : Char) (tree : Arith)
      (product : readProductTail (signedArith a) (.mark mark :: signedWords b) =
        some (tree, [])) :
      readSum (signedWords a ++ .mark mark :: signedWords b) = some (tree, []) := by
    rw [readSum_of_product (by rw [readProduct_signedWords, product])
      (by simp [← Nat.add_assoc])]
    simp [readSumTail]
  cases op with
  | add =>
    refine ⟨'+', rfl, rfl, ?_⟩
    rw [additive _ (by simp [readProductTail])]
    simp [readSumTail, readProduct_last, empty, Arith.join]
  | sub =>
    refine ⟨'-', rfl, rfl, ?_⟩
    rw [additive _ (by simp [readProductTail])]
    simp [readSumTail, readProduct_last, empty, Arith.join]
  | mul =>
    refine ⟨'*', rfl, rfl, multiplicative _ _ ?_⟩
    simp [readProductTail, readFactor_last, empty, Arith.join]
  | div =>
    refine ⟨'/', rfl, rfl, multiplicative _ _ ?_⟩
    simp [readProductTail, readFactor_last, empty, Arith.join]
  | mod =>
    refine ⟨'%', rfl, rfl, multiplicative _ _ ?_⟩
    simp [readProductTail, readFactor_last, empty, Arith.join]
  | _ => cases h

/-- So they have its value. -/
theorem arithValue_binary {op : BinaryOp} (h : op.isArithmetic = true) (a b : Int64) :
    arithValue ((intText a).toList ++ ' ' :: ((operatorWord false op).toList ++ ' ' ::
      (intText b).toList)) = arithmetic op a b := by
  obtain ⟨mark, spelled, isMark, read⟩ := readSum_binary a b h
  rw [spelled, ← Arith.join_value h (signedArith_value a) (signedArith_value b)]
  exact arithValue_of_words (arithWords_binary a b mark isMark) read

end Shellwright.Shell
