import Mathlib.Algebra.Ring.Int.Defs
import Shellwright.Proofs.Origins
import Shellwright.Proofs.Refusals

/-!
# Minus signs before numbers

Minus signs before a whole number become part of it, whatever brackets and gaps stand between
them. The digits of a number say nothing below zero, so the least number of all, which is its own
negation, never comes up: every sign is changed exactly, and one minus sign is written at most.

* `Negated`: a text of minus signs and brackets before digits.
* `Minuses`, `negation`: its lexemes, and the tree that the grammar makes of them.
* `Negated.exists_scan`, `Minuses.exists_negated`: just such texts are scanned as these lexemes.
* `derives_negation_iff`: just these lexemes are read as that tree.
* `resolveExpr_negation`, `Expr.Mirrors.exists_negation`: just such trees mean whole numbers.
* `minus_signs_folded`: what such a text means and what is written for it.
-/

namespace Shellwright

open Text (byteSize)

/-! ## Minus signs in a text -/

/-- A run of digits. -/
def IsDigits (cs : List Char) : Prop := cs ≠ [] ∧ ∀ d ∈ cs, d.isDigit = true

/-- The text is a number of minus signs before the digits. There may be brackets around the
digits and around whatever a minus sign stands before, and gaps between all of these. -/
inductive Negated (digits : List Char) : Nat → List Char → Prop
  | digits : IsDigits digits → Negated digits 0 digits
  | minus {n : Nat} {gap text : List Char} : IsGap gap → Negated digits n text →
    Negated digits (n + 1) ('-' :: (gap ++ text))
  | brackets {n : Nat} {gap gap' text : List Char} : IsGap gap → Negated digits n text →
      IsGap gap' →
    Negated digits n ('(' :: (gap ++ (text ++ (gap' ++ [')']))))

/-- Behind minus signs there are digits. -/
theorem Negated.isDigits {digits text : List Char} {n : Nat} (h : Negated digits n text) :
    IsDigits digits := by
  induction h with
  | digits isDigits => exact isDigits
  | minus _ _ ih => exact ih
  | brackets _ _ _ ih => exact ih

theorem IsDigits.exists_cons {cs : List Char} (h : IsDigits cs) :
    ∃ c more, cs = c :: more ∧ c.isDigit = true ∧ beginsLexeme c = true ∧
      ∀ d ∈ more, d.isDigit = true := by
  obtain ⟨some, all⟩ := h
  obtain ⟨c, more, rfl⟩ := List.exists_cons_of_ne_nil some
  obtain ⟨first, others⟩ := List.forall_mem_cons.mp all
  exact ⟨c, more, rfl, first,
    beginsLexeme_of_isNameChar (by rw [isNameChar, Char.isAlphanum, first]; simp), others⟩

/-- What follows does not go on with a number before it. -/
def AfterNumber (cs : List Char) : Prop := Stops Char.isDigit cs ∧ ¬BeginsPlaces cs

theorem Quiet.afterNumber {cs : List Char} (h : Quiet cs) : AfterNumber cs := by
  refine ⟨h.stops_digit, ?_⟩
  rintro ⟨d, rest, rfl, -⟩
  exact absurd (h '.' rfl) (by decide)

/-- A number can stand before a closing bracket. -/
theorem afterNumber_close {gap : List Char} (h : IsGap gap) (cs : List Char) :
    AfterNumber (gap ++ ')' :: cs) := by
  cases gap with
  | nil =>
    refine ⟨stops_cons.mpr rfl, ?_⟩
    rintro ⟨d, rest, same, -⟩
    cases same
  | cons c gap => exact (h.quiet_append fun none => by cases none).afterNumber

/-! ## Minus signs as lexemes -/

namespace Surface

/-- The lexemes are a number of minus signs before the number, with brackets. -/
inductive Minuses (value : Int64) : Nat → List Lexeme → Prop
  | literal : Minuses value 0 [.int value]
  | minus {n : Nat} {xs : List Lexeme} : Minuses value n xs →
    Minuses value (n + 1) (.symbol .minus :: xs)
  | brackets {n : Nat} {xs : List Lexeme} : Minuses value n xs →
    Minuses value n (.symbol .leftParen :: (xs ++ [.symbol .rightParen]))

end Surface

open Surface (Minuses)

/-- The text is walked through up to its digits, and from behind them to what follows it. All
lexemes on the way are minus signs and brackets. -/
theorem Negated.walks {digits text : List Char} {n : Nat} (h : Negated digits n text)
    {gap w : List Char} (isGap : IsGap gap) (after : AfterNumber w) (pos : Nat) :
    ∃ ts mid gap' rest xs, Token.Walk pos (gap ++ (text ++ w)) ts mid
      (gap' ++ (digits ++ rest)) ∧
      IsGap gap' ∧ AfterNumber rest ∧
      (∀ pos, ∃ us stop, Token.Walk pos rest us stop w ∧ us.map Token.lexeme = xs) ∧
      ∀ value, Minuses value n (ts.map Token.lexeme ++ .int value :: xs) := by
  -- what stands behind a minus sign or in brackets begins with a gap of its own and may end
  -- before a bracket, so the gap and what follows change on the way
  induction h generalizing gap w pos with
  | digits =>
    exact ⟨[], pos, gap, w, [], .nil _ _, isGap, after, fun pos => ⟨[], pos, .nil _ _, rfl⟩,
      fun _ => .literal⟩
  | @minus n inner text isInner _ ih =>
    obtain ⟨ts, mid, gap', rest, xs, walk, isGap', after', back, minuses⟩ :=
      ih isInner after (pos + byteSize gap + byteSize ['-'])
    rw [← List.append_assoc] at walk
    exact ⟨_, mid, gap', rest, xs, .cons (r := ⟨.symbol .minus, 0, []⟩) isGap rfl rfl walk,
      isGap', after', back, fun value => (minuses value).minus⟩
  | @brackets n inner last text isInner _ isLast ih =>
    obtain ⟨ts, mid, gap', rest, xs, walk, isGap', after', back, minuses⟩ :=
      ih isInner (afterNumber_close isLast w) (pos + byteSize gap + byteSize ['('])
    have regroup : gap ++ ('(' :: (inner ++ (text ++ (last ++ [')']))) ++ w) =
        gap ++ '(' :: (inner ++ (text ++ (last ++ ')' :: w))) := by simp
    rw [regroup]
    refine ⟨_, mid, gap', rest, xs ++ [.symbol .rightParen],
      .cons (r := ⟨.symbol .leftParen, 0, []⟩) isGap rfl rfl walk, isGap', after', fun pos => ?_,
      fun value => ?_⟩
    · obtain ⟨us, stop, walk, rfl⟩ := back pos
      have close : Token.Walk stop (last ++ ')' :: w) _ _ w :=
        .cons (r := ⟨.symbol .rightParen, 0, []⟩) isLast rfl rfl (.nil _ _)
      exact ⟨_, _, walk.trans close, List.map_append⟩
    · have whole := (minuses value).brackets
      rwa [List.append_assoc] at whole

/-- If the digits are in range, then the text is scanned as minus signs,
brackets and the number. -/
theorem Negated.exists_scan {digits text : List Char} {n : Nat} (h : Negated digits n text)
    (small : digitsValue digits < twoTo 63) :
    ∃ ts, Token.scan text = .ok ts ∧
      Minuses (.ofNat (digitsValue digits)) n (ts.map Token.lexeme) := by
  obtain ⟨ts, mid, gap, rest, xs, walk, isGap, after, back, minuses⟩ :=
    h.walks .nil quiet_nil.afterNumber 0
  obtain ⟨c, more, rfl, digit, begins, others⟩ := h.isDigits.exists_cons
  have read : Lexeme.read c (more ++ rest) =
      .ok ⟨.int (.ofNat (digitsValue (c :: more))), 0, more⟩ := by
    rw [read_number digit, readNumber_whole others after.1 after.2, if_pos small]
  obtain ⟨us, stop, walk', rfl⟩ := back (mid + byteSize gap + byteSize (c :: more))
  have whole := walk.trans (.cons (r := ⟨_, 0, more⟩) isGap begins read walk')
  rw [List.nil_append, List.append_nil] at whole
  refine ⟨_, Token.scan_eq_ok_iff.mpr ⟨stop, [], whole, IsGap.nil.isLastGap⟩, ?_⟩
  rw [List.map_append, List.map_cons]
  exact minuses _

/-- The digits of a text that can be scanned are in range. -/
theorem Negated.small_of_scan {digits text : List Char} {n : Nat} (h : Negated digits n text)
    {ts : List Token} (scanned : Token.scan text = .ok ts) : digitsValue digits < twoTo 63 := by
  by_cases small : digitsValue digits < twoTo 63
  · exact small
  · obtain ⟨us, mid, gap, rest, xs, walk, isGap, after, -, -⟩ :=
      h.walks .nil quiet_nil.afterNumber 0
    obtain ⟨c, more, rfl, digit, begins, others⟩ := h.isDigits.exists_cons
    have read : Lexeme.read c (more ++ rest) = .error (.intOutOfRange, more) := by
      rw [read_number digit, readNumber_whole others after.1 after.2, if_neg small]
    have fails := walk.scanFrom_eq
    rw [Token.scanFrom_gap isGap, List.cons_append, Token.scanFrom_fault begins read] at fails
    rw [List.nil_append, List.append_nil] at fails
    cases scanned.symm.trans fails

theorem ofWord_eq_symbol {word : String} {s : Symbol} (h : Lexeme.ofWord word = .symbol s) :
    s = .both ∨ s = .either ∨ s = .bang := by
  unfold Lexeme.ofWord at h
  split at h
  · cases h
  · repeat' split at h
    all_goals cases h
    all_goals simp

/-- A symbol for which there is no word is written in one way only. -/
theorem read_eq_symbol {c : Char} {cs : List Char} {r : Reading} {s : Symbol}
    (read : Lexeme.read c cs = .ok r) (isSymbol : r.lexeme = .symbol s)
    (wordless : ¬(s = .both ∨ s = .either ∨ s = .bang)) : c :: r.more = s.spelling.toList := by
  unfold Lexeme.read at read
  split at read
  case h_12 | h_13 | h_14 | h_15 | h_16 =>
    unfold oneOrTwo at read
    split at read <;> cases read <;> cases isSymbol <;> rfl
  case h_17 | h_18 =>
    unfold twice at read
    split at read <;> cases read
    cases isSymbol
    rfl
  case h_19 =>
    split at read <;> cases read
    cases isSymbol
  case h_20 =>
    unfold Lexeme.readCommand at read
    split at read
    · split at read <;> cases read
      cases isSymbol
    · cases read
  case h_21 =>
    split at read
    · obtain ⟨digits, rest, rfl, all, stop, whole | ⟨d, places, last, rfl, first, more, ends⟩⟩ :=
        exists_number cs
      · rw [readNumber_whole all stop whole] at read
        split at read <;> cases read
        cases isSymbol
      · rw [readNumber_places all first more ends] at read
        cases read
        cases isSymbol
    · split at read
      · cases read
        exact absurd (ofWord_eq_symbol isSymbol) wordless
      · cases read
  all_goals
    cases read
    cases isSymbol
    rfl

/-- Where such lexemes were read, the text is minus signs and brackets before digits, and the
number is the value of the digits. -/
theorem Surface.Minuses.exists_negated {value : Int64} {n : Nat} {xs : List Lexeme}
    (h : Minuses value n xs) {pos stop : Nat} {cs rest : List Char} {ts : List Token}
    (walk : Token.Walk pos cs ts stop rest) (lexemes : ts.map Token.lexeme = xs) :
    ∃ gap text digits, cs = gap ++ (text ++ rest) ∧ IsGap gap ∧
      ts.head?.map (·.span.start) = some (pos + byteSize gap) ∧ Negated digits n text ∧
      digitsValue digits < twoTo 63 ∧ value = .ofNat (digitsValue digits) := by
  induction h generalizing pos stop cs rest ts with
  | literal =>
    obtain ⟨t, rfl, isInt⟩ := List.map_eq_singleton_iff.mp lexemes
    cases walk with
    | @cons _ _ gap cs _ c r _ isGap _ read walk =>
      cases walk
      have faithful := (reader_read c).faithful read
      rw [Reading.Faithful, show r.lexeme = .int value from isInt] at faithful
      obtain ⟨all, small, same⟩ := faithful
      exact ⟨gap, c :: r.more, c :: r.more, rfl, isGap, rfl, .digits ⟨List.cons_ne_nil _ _, all⟩,
        small, same⟩
  | minus _ ih =>
    obtain ⟨t, us, rfl, isMinus, others⟩ := List.map_eq_cons_iff.mp lexemes
    cases walk with
    | @cons _ _ gap cs _ c r _ isGap _ read walk =>
      have written : c :: r.more = ['-'] := read_eq_symbol read isMinus (by decide)
      obtain ⟨rfl, none⟩ := List.cons.inj written
      obtain ⟨inner, text, digits, rfl, isInner, -, negated, value⟩ := ih walk others
      refine ⟨gap, '-' :: (inner ++ text), digits, ?_, isGap, rfl, .minus isInner negated, value⟩
      rw [none]
      simp
  | brackets _ ih =>
    obtain ⟨t, us, rfl, isOpen, others⟩ := List.map_eq_cons_iff.mp lexemes
    obtain ⟨us, vs, rfl, areInner, isLast⟩ := List.map_eq_append_iff.mp others
    obtain ⟨u, rfl, isClose⟩ := List.map_eq_singleton_iff.mp isLast
    cases walk with
    | @cons _ _ gap cs _ c r _ isGap _ read walk =>
      have written : c :: r.more = ['('] := read_eq_symbol read isOpen (by decide)
      obtain ⟨rfl, none⟩ := List.cons.inj written
      obtain ⟨mid, between, walkInner, walkLast⟩ := walk.split
      cases walkLast with
      | @cons _ _ gap' cs _ c' r' _ isGap' _ read' walkLast =>
        cases walkLast
        have written' : c' :: r'.more = [')'] := read_eq_symbol read' isClose (by decide)
        obtain ⟨rfl, none'⟩ := List.cons.inj written'
        obtain ⟨inner, text, digits, rfl, isInner, -, negated, value⟩ := ih walkInner areInner
        refine ⟨gap, '(' :: (inner ++ (text ++ (gap' ++ [')']))), digits, ?_, isGap, rfl,
          .brackets isInner negated isGap', value⟩
        rw [none, none']
        simp

/-- A run of such tokens in a text stands for minus signs and brackets before digits, from its
first token to its last. -/
theorem Surface.Minuses.exists_negated_of_run {value : Int64} {n : Nat} {s : Source}
    {ts own : List Token} (h : Minuses value n (own.map Token.lexeme))
    (scanned : Token.scan s.chars = .ok ts) (run : own <:+: ts) :
    ∃ before text after digits, s.chars = before ++ (text ++ after) ∧ Negated digits n text ∧
      value.toInt = digitsValue digits ∧
      ∀ first last, own.head? = some first → own.getLast? = some last →
        (⟨first.span.start, last.span.stop⟩ : Span) =
          ⟨byteSize before, byteSize before + byteSize text⟩ := by
  obtain ⟨before, behind, stop, rest, whole, walk⟩ := Token.exists_walk_of_run scanned run
  obtain ⟨gap, text, digits, rfl, -, starts, negated, small, rfl⟩ := h.exists_negated walk rfl
  refine ⟨before ++ gap, text, rest, digits, by simp [whole], negated,
    Int64.toInt_ofNat_of_lt small, fun first last head final => ?_⟩
  have begins : first.span.start = byteSize before + byteSize gap := by
    rw [head] at starts
    exact Option.some.inj starts
  obtain ⟨taken, same, size, -⟩ := walk.cut
  obtain rfl : gap ++ text = taken :=
    List.append_cancel_right ((List.append_assoc ..).trans same)
  have ends := (Token.lastStop_of_getLast? (byteSize before) final).symm.trans walk.lastStop_eq
  rw [ends, size, begins, Text.byteSize_append, Text.byteSize_append, Nat.add_assoc]

/-! ## Minus signs in a tree -/

namespace Surface

/-- A number of minus signs before the number. -/
def negation (value : Int64) : Nat → Expr
  | 0 => .int .zero value
  | n + 1 => .unary .zero .negate (negation value n)

theorem negation_placeless (value : Int64) (n : Nat) :
    (negation value n).placeless = negation value n := by
  induction n with
  | zero => rfl
  | succ n ih => rw [negation, Expr.placeless, ih]

/-- An operator stands between two operands. -/
def Expr.isJoined : Expr → Bool
  | .binary .. | .pipe .. => true
  | _ => false

theorem negation_isJoined (value : Int64) (n : Nat) : (negation value n).isJoined = false := by
  cases n <;> rfl

/-- An operand with its signs is an expression of every level. -/
theorem Derives.within_of_signed {xs : List Lexeme} {e : Expr} (h : Derives .signed xs e)
    (tiers : List Tier) : Derives (.within tiers) xs e := by
  induction tiers with
  | nil => exact .operand h
  | cons tier tiers ih => exact .tighter ih

/-- Minus signs and brackets around a number are an operand of the grammar. -/
theorem Minuses.derives {value : Int64} {n : Nat} {xs : List Lexeme} (h : Minuses value n xs) :
    Derives .signed xs (negation value n) := by
  induction h with
  | literal => exact .plain (.int value)
  | minus _ ih => exact .sign (.head _) ih
  | brackets _ ih => exact .plain (.brackets (ih.within_of_signed tiers))

/-- If a rule for expressions derives minus signs before a number, then from just such
lexemes. -/
def Rule.Counts : (rule : Rule) → List Lexeme → rule.Tree → Prop
  | .within _, xs, e | .signed, xs, e | .primary, xs, e =>
    ∀ value n, e = negation value n → Minuses value n xs
  | _, _, _ => True

/-- What the operators of a rule make has them between two operands. -/
def Rule.between : Rule → Prop
  | .within tiers => ∀ tier ∈ tiers, ∀ op ∈ tier, ∀ left right, (op.2 left right).isJoined = true
  | _ => True

theorem Rule.between_expr : Rule.expr.between := by
  simp only [Rule.between, tiers, List.forall_mem_cons, Expr.isJoined, implies_true,
    List.not_mem_nil, false_implies, and_self]

/-- Tokens that spell a negated number have its minus signs and its brackets, by
induction on the derivation. -/
theorem Derives.counts {rule : Rule} {xs : List Lexeme} {tree : rule.Tree}
    (h : Derives rule xs tree) (between : rule.between) : rule.Counts xs tree := by
  -- only a sign, a number and brackets make such a tree; the other rules pass it on or
  -- make another one
  induction h with
  | operand _ ih | plain _ ih => exact ih trivial
  | tighter _ ih => exact ih fun tier mem => between tier (.tail _ mem)
  | joined mem _ _ _ _ =>
    intro value n same
    have joined := (congrArg Expr.isJoined same).symm.trans (between _ (.head _) _ mem _ _)
    rw [negation_isJoined] at joined
    cases joined
  | sign mem _ ih =>
    rintro value (_ | n) same
    · cases same
    · cases same
      simp only [signs, List.mem_cons, List.not_mem_nil, Prod.mk.injEq, reduceCtorEq, and_false,
        and_true, or_false] at mem
      subst mem
      exact .minus (ih trivial value n rfl)
  | int value =>
    rintro value' (_ | n) same
    · cases same
      exact .literal
    · cases same
  | brackets _ ih => exact fun value n same => .brackets (ih Rule.between_expr value n same)
  | fraction | trueWord | falseWord | text | command | var | bareCall | call =>
    rintro value (_ | n) same <;> cases same
  | _ => trivial

/-- The grammar makes minus signs before a number of just these lexemes. -/
theorem derives_negation_iff {value : Int64} {n : Nat} {xs : List Lexeme} :
    Derives .expr xs (negation value n) ↔ Minuses value n xs :=
  ⟨fun h => h.counts Rule.between_expr value n rfl, fun h => h.derives.within_of_signed tiers⟩

end Surface

open Surface (negation derives_negation_iff)

/-- A text of minus signs, brackets and digits is read back as the negated number. -/
theorem Negated.rereads {digits text : List Char} {n : Nat} (h : Negated digits n text)
    (small : digitsValue digits < twoTo 63) :
    (Surface.Node.expr (negation (.ofNat (digitsValue digits)) n)).Rereads text := by
  obtain ⟨ts, scanned, minuses⟩ := h.exists_scan small
  refine Surface.Node.Spells.rereads scanned ?_
  rw [Surface.Node.Spells, Surface.negation_placeless]
  exact derives_negation_iff.mpr minuses

/-- What such a text is read as is determined by its digits and the number of its minus signs. -/
theorem Negated.tree_of_rereads {digits text : List Char} {n : Nat} (h : Negated digits n text)
    {e : Surface.Expr} (again : (Surface.Node.expr e).Rereads text) :
    digitsValue digits < twoTo 63 ∧ e.placeless = negation (.ofNat (digitsValue digits)) n := by
  obtain ⟨ts, scanned, e', less, parsed, same⟩ := again
  have small := h.small_of_scan scanned
  obtain ⟨ts', scanned', e'', less', parsed', same'⟩ := h.rereads small
  cases scanned.symm.trans scanned'
  cases parsed.symm.trans parsed'
  rw [Surface.negation_placeless] at same'
  exact ⟨small, same.symm.trans same'⟩

end Shellwright

namespace Shellwright.Core

open Surface (negation derives_negation_iff)
open Shellwright.Script

/-! ## What minus signs mean -/

/-- The number with its sign changed so many times. -/
def signed (value : Int64) : Nat → Int64
  | 0 => value
  | n + 1 => -signed value n

/-- Only the negation of the least number wraps around. -/
theorem toInt_neg_of_lt {value : Int64} (h : -2 ^ 63 < value.toInt) :
    (-value).toInt = -value.toInt := by
  have above := value.toInt_lt
  rw [Int64.toInt_neg]
  exact Int.bmod_eq_of_le (by omega) (by omega)

/-- A number that is not negative can change its sign any number of times. -/
theorem signed_toInt {value : Int64} (h : 0 ≤ value.toInt) (n : Nat) :
    (signed value n).toInt = (-1) ^ n * value.toInt ∧ -2 ^ 63 < (signed value n).toInt := by
  -- a change of sign is exact above the least number, and leads above it since no number is as
  -- great as the least one is small
  induction n with
  | zero =>
    rw [signed, pow_zero, one_mul]
    exact ⟨rfl, by omega⟩
  | succ n ih =>
    obtain ⟨same, above⟩ := ih
    have below := (signed value n).toInt_lt
    rw [signed, toInt_neg_of_lt above, pow_succ, mul_neg_one, neg_mul, same]
    rw [same] at below
    exact ⟨rfl, by omega⟩

/-- Resolving folds all minus signs into the number. -/
theorem resolveExpr_negation (s : Scope) {value : Int64} {n : Nat} {e : Surface.Expr}
    (h : e.placeless = negation value n) :
    resolveExpr s e = .ok (.int .integer (signed value n)) := by
  induction n generalizing e with
  | zero =>
    cases e <;> cases h
    rfl
  | succ n ih =>
    cases e with
    | unary span op operand =>
      rw [Surface.Expr.placeless, negation] at h
      obtain ⟨-, rfl, inner⟩ := Surface.Expr.unary.inj h
      rw [resolveExpr, ih inner]
      rfl
    | _ => cases h

/-- What means a whole number is minus signs before a number. -/
theorem Expr.Mirrors.exists_negation {src : Surface.Expr} {ty : Ty} {value : Int64}
    (h : Expr.Mirrors src (.int ty value)) :
    ∃ literal n, src.placeless = negation literal n ∧ value = signed literal n := by
  cases h with
  | int => exact ⟨value, 0, rfl, rfl⟩
  | @signedInt span _ _ operand _ inner =>
    obtain ⟨literal, n, tree, rfl⟩ := exists_negation inner
    exact ⟨literal, n + 1, congrArg (Surface.Expr.unary .zero .negate) tree, rfl⟩
termination_by sizeOf src

/-! ## Decimal forms -/

/-- The text is the decimal form of the number: its digits without a zero in front, and a minus
sign before them just if the number is negative. -/
def IsNumeral (z : Int) (cs : List Char) : Prop :=
  ∃ digits, IsDigits digits ∧ (digits.head? = some '0' → digits = ['0']) ∧
    Nat.ofDigitChars 10 digits 0 = z.natAbs ∧ cs = if z < 0 then '-' :: digits else digits

/-- Only zero is written with a zero in front. -/
theorem toDigits_of_head_zero (n : Nat) (h : (Nat.toDigits 10 n).head? = some '0') :
    Nat.toDigits 10 n = ['0'] := by
  induction n using Nat.strongRecOn with
  | ind n ih =>
    rw [Nat.toDigits_eq_if (by decide)] at h ⊢
    split at h
    · next small =>
      rw [if_pos small]
      exact congrArg (fun c => [c]) (Option.some.inj h)
    · next large =>
      rw [List.head?_append_of_ne_nil _ Nat.toDigits_ne_nil] at h
      have zero := ih (n / 10) (by omega) h
      have value : Nat.ofDigitChars 10 (Nat.toDigits 10 (n / 10)) 0 = n / 10 :=
        Nat.ofDigitChars_ten_toDigits
      rw [zero] at value
      have none : 0 = n / 10 := value
      omega

/-- A number is written as its numeral. -/
theorem isNumeral_intText (v : Int64) : IsNumeral v.toInt (intText v).toList := by
  refine ⟨Nat.toDigits 10 v.toInt.natAbs, ⟨Nat.toDigits_ne_nil, fun d mem => ?_⟩,
    toDigits_of_head_zero _, Nat.ofDigitChars_ten_toDigits,
    Shell.intText_toList v⟩
  exact Nat.isDigit_of_mem_toDigits (by decide) (by decide) mem

/-! ## Numbers of a program -/

/-- The value of a whole number. -/
def Expr.int? : Expr → Option Int64
  | .int _ value => some value
  | _ => none

/-- The whole numbers in a program, at any depth. -/
def Module.integers (module : Module) : List Int64 := module.expressions.filterMap Expr.int?

theorem Expr.int?_eq_some {e : Expr} {value : Int64} :
    e.int? = some value ↔ ∃ ty, e = .int ty value := by
  constructor
  · intro h
    cases e with
    | int ty v =>
      cases h
      exact ⟨ty, rfl⟩
    | _ => cases h
  · rintro ⟨ty, rfl⟩
    rfl

/-- In every scope the expression means this number, as a single literal, and the decimal form of
the number is written for it. -/
def Folds (e : Surface.Expr) (z : Int) : Prop :=
  ∀ scope : Scope, ∃ value, resolveExpr scope e = .ok (.int .integer value) ∧ value.toInt = z ∧
    ∀ m, ∃ t, Appends (writeExpr (.int .integer value)) m (.ok t) ∧ IsNumeral z t.toList

/-- The folded number has the sign that the minus signs give it. -/
theorem folds_negation {e : Surface.Expr} {literal : Int64} {n : Nat} (h : 0 ≤ literal.toInt)
    (tree : e.placeless = negation literal n) : Folds e ((-1) ^ n * literal.toInt) := by
  intro scope
  have exact := (signed_toInt h n).1
  refine ⟨signed literal n, resolveExpr_negation scope tree, exact, fun m => ?_⟩
  refine ⟨intText (signed literal n), appends_writeExpr (.int .integer (signed literal n)) m, ?_⟩
  rw [← exact]
  exact isNumeral_intText _

/-- The same for the digits that were read. -/
theorem folds_ofNat {e : Surface.Expr} {digits : List Char} {n : Nat}
    (small : digitsValue digits < twoTo 63)
    (tree : e.placeless = negation (.ofNat (digitsValue digits)) n) :
    Folds e ((-1) ^ n * Nat.ofDigitChars 10 digits 0) := by
  have value : (Int64.ofNat (digitsValue digits)).toInt = Nat.ofDigitChars 10 digits 0 :=
    Int64.toInt_ofNat_of_lt small
  have folds := folds_negation (n := n) (by omega) tree
  rwa [value] at folds

/-- No part of a program means the least number. -/
theorem above_of_part {p : Surface.Program} (obtained : Obtained p) {e : Surface.Expr}
    (part : p.Part (.expr e)) {scope : Scope} {ty : Ty} {value : Int64}
    (meaning : resolveExpr scope e = .ok (.int ty value)) : -2 ^ 63 < value.toInt := by
  obtain ⟨literal, n, tree, rfl⟩ := (resolveExpr_mirrors scope meaning).exists_negation
  obtain ⟨s, ts, own, scanned, run, spells⟩ := obtained.isRead part
  rw [Surface.Node.Spells, tree] at spells
  obtain ⟨_, _, _, digits, -, -, exact, -⟩ :=
    (derives_negation_iff.mp spells).exists_negated_of_run scanned run
  exact (signed_toInt (by omega) n).2

/-- The text of a part that means a whole number is minus signs and brackets before digits. -/
theorem exists_negated_of_stands {s : Source} {ts own : List Token} {e : Surface.Expr}
    (scanned : Token.scan s.chars = .ok ts) (run : own <:+: ts)
    (stands : (Surface.Node.expr e).Stands own) {scope : Scope} {ty : Ty} {value : Int64}
    (meaning : resolveExpr scope e = .ok (.int ty value)) :
    ∃ text n digits, s.cut? e.span = some text ∧ Negated digits n text := by
  obtain ⟨literal, n, tree, rfl⟩ := (resolveExpr_mirrors scope meaning).exists_negation
  have spells := stands.spells
  rw [Surface.Node.Spells, tree] at spells
  obtain ⟨before, text, after, digits, whole, negated, -, place⟩ :=
    (derives_negation_iff.mp spells).exists_negated_of_run scanned run
  have ordered := (Surface.ordered_of_scan scanned).sublist run.sublist
  obtain ⟨first, last, head, final, span⟩ := stands.exists_ends ordered
  have span : e.span = ⟨first.span.start, last.span.stop⟩ := span
  refine ⟨text, n, digits, ?_, negated⟩
  rw [span, place first last head final]
  exact Source.cut?_append whole

/-- No whole number in a resolved program is the least one. Every expression of a text has a text
of its own, and it means a whole number just if that text is minus signs and brackets before
digits: then in every scope it means the value of the digits, negated as often as there are minus
signs, and the decimal form of this number is written. No negation in it wraps around. And every
such text can be read, if only its digits are in range. -/
theorem minus_signs_folded :
    (∀ (p : Surface.Program) (library : Bool) (module : Module), Obtained p →
      Module.ofProgram library p = .ok module →
      ∀ value ∈ module.integers, -2 ^ 63 < value.toInt) ∧
    (∀ (file : String) (s : Source) (p : Surface.Program) (e : Surface.Expr),
      readProgram file s = .ok p → p.Part (.expr e) → ∃ text, s.cut? e.span = some text ∧
        (∀ n digits, Negated digits n text → Folds e ((-1) ^ n * Nat.ofDigitChars 10 digits 0)) ∧
        ∀ scope ty value, resolveExpr scope e = .ok (.int ty value) →
          (-value).toInt = -value.toInt ∧ ∃ n digits, Negated digits n text) ∧
    ∀ (digits text : List Char) (n : Nat), Negated digits n text →
      (Nat.ofDigitChars 10 digits 0 : Int) < 2 ^ 63 →
      ∃ e, (Surface.Node.expr e).Rereads text ∧
        Folds e ((-1) ^ n * Nat.ofDigitChars 10 digits 0) := by
  refine ⟨fun p library module obtained resolved value mem => ?_,
    fun file s p e isRead part => ?_, fun digits text n negated small => ?_⟩
  · obtain ⟨e, inside, isInt⟩ := List.mem_filterMap.mp mem
    obtain ⟨ty, rfl⟩ := Expr.int?_eq_some.mp isInt
    obtain ⟨place, frames, root⟩ := Module.mem_expressions.mp inside
    obtain ⟨scope, src, part, meaning⟩ := exists_source_of_root resolved root
    exact above_of_part obtained part meaning
  · obtain ⟨ts, tokens, parsed⟩ := bind_eq_ok.mp isRead
    have scanned := readTokens_eq_ok.mp tokens
    obtain ⟨own, run, stands, below⟩ :=
      part.exists_run (mapError_eq_ok.mp parsed) (Surface.ordered_of_scan scanned)
    obtain ⟨text, cut, again⟩ := (stands.faithful scanned run below).rereads
    refine ⟨text, cut, fun n digits negated => ?_, fun scope ty value meaning => ⟨?_, ?_⟩⟩
    · obtain ⟨small, tree⟩ := negated.tree_of_rereads again
      exact folds_ofNat small tree
    · exact toInt_neg_of_lt (above_of_part (.read isRead) part meaning)
    · obtain ⟨text', n, digits, cut', negated⟩ :=
        exists_negated_of_stands scanned run stands meaning
      cases cut.symm.trans cut'
      exact ⟨n, digits, negated⟩
  · have small : digitsValue digits < twoTo 63 := by
      have value : digitsValue digits = Nat.ofDigitChars 10 digits 0 := rfl
      have power : (2 : Int) ^ 63 = (twoTo 63 : Nat) := by decide
      omega
    exact ⟨_, negated.rereads small, folds_ofNat small (Surface.negation_placeless _ n)⟩

/-- The digits of the greatest number behind three minus signs are the number next to the least
one; two minus signs before a number that begins with zeros leave it as it is. -/
theorem minus_signs_folded_samples :
    (∃ p module e, readProgram "f" ⟨"x=-( -(-9223372036854775807));"⟩ = .ok p ∧
      Module.ofProgram true p = .ok module ∧ module.integers = [-9223372036854775807] ∧
      (∀ value ∈ module.integers, -2 ^ 63 < value.toInt) ∧ p.Part (.expr e) ∧
      (⟨"x=-( -(-9223372036854775807));"⟩ : Source).cut? e.span =
        some "-( -(-9223372036854775807))".toList ∧
      Folds e (-9223372036854775807)) ∧
    ∃ e, (Surface.Node.expr e).Rereads "- -007".toList ∧ Folds e 7 := by
  constructor
  · obtain ⟨p, isRead, runs⟩ := exists_ok_of_any
      (x := readProgram "f" ⟨"x=-( -(-9223372036854775807));"⟩)
      (q := fun p => (globalInits p).map (·.value.span) = [⟨2, 29⟩] &&
        (Module.ofProgram true p).toOption.any fun module =>
          module.integers = [-9223372036854775807])
      (by decide +kernel)
    obtain ⟨place, runs⟩ := Bool.and_eq_true_iff.mp runs
    obtain ⟨module, resolved, integers⟩ := exists_ok_of_any runs
    obtain ⟨init, inits, span⟩ := List.map_eq_singleton_iff.mp (of_decide_eq_true place)
    have part : p.Part (.expr init.value) :=
      part_of_mem_globalInits (by rw [inits]; exact .head _)
    have cut : (⟨"x=-( -(-9223372036854775807));"⟩ : Source).cut? init.value.span =
        some "-( -(-9223372036854775807))".toList := by
      rw [span]
      decide +kernel
    have digits : IsDigits "9223372036854775807".toList :=
      ⟨by decide, List.all_eq_true.mp (by decide)⟩
    have negated : Negated "9223372036854775807".toList 3 "-( -(-9223372036854775807))".toList :=
      .minus .nil (.brackets (.separator (c := ' ') rfl .nil)
        (.minus .nil (.brackets .nil (.minus .nil (.digits digits)) .nil)) .nil)
    obtain ⟨text, cut', folds, -⟩ := minus_signs_folded.2.1 "f" _ p init.value isRead part
    cases cut.symm.trans cut'
    exact ⟨p, module, init.value, isRead, resolved, of_decide_eq_true integers,
      minus_signs_folded.1 p true module (.read isRead) resolved, part, cut, folds 3 _ negated⟩
  · have digits : IsDigits "007".toList := ⟨by decide, List.all_eq_true.mp (by decide)⟩
    have negated : Negated "007".toList 2 "- -007".toList :=
      .minus (.separator (c := ' ') rfl .nil) (.minus .nil (.digits digits))
    exact minus_signs_folded.2.2 _ _ 2 negated (by decide)

end Shellwright.Core
