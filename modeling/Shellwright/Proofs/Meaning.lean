import Shellwright.Core.Resolve
import Shellwright.Proofs.Forms
import Shellwright.Proofs.Shell.Spelling

/-!
# Scripts keep the meaning of expressions

What an expression of whole numbers and truth values means is said by `Expr.value`, on the tree
and without any text. The shell's view of what is written for it is `Expr.form`: a word for
places where a value is wanted and a test for places where a decision is. That the two agree is
shown in two steps: the text of an expression is read as its form, in every mode
(`Plain.written`), and the form evaluates to the value of the expression (`Plain.evaluates`).
The result is `resolveExpr_keeps_value`.
-/

namespace Shellwright.Core

open Shellwright.Script Shellwright.Shell

/-! ## Values of expressions -/

/-- The number that stands for a truth value. -/
def truth (b : Bool) : Int64 := if b then 1 else 0

/-- What an operator gives for the values of its operands. A number counts as true if
it is `1`; the second operand of a logical operator matters only if the first one
leaves something to decide. -/
def binaryValue (op : BinaryOp) (a b : Except Failure Int64) : Except Failure Int64 :=
  match op with
  | .and => do
    let x ← a
    if x = 1 then return truth ((← b) = 1) else return truth false
  | .or => do
    let x ← a
    if x = 1 then return truth true else return truth ((← b) = 1)
  | .eq => do return truth ((← a) = (← b))
  | .ne => do return truth ((← a) ≠ (← b))
  | .lt => do return truth ((← a) < (← b))
  | .le => do return truth ((← a) ≤ (← b))
  | .gt => do return truth ((← a) > (← b))
  | .ge => do return truth ((← a) ≥ (← b))
  | op => do arithmetic op (← a) (← b)

/-- The value of an expression of numbers and truth values, given those of its variables. -/
def Expr.value (values : String → Int64) : Expr → Except Failure Int64
  | .int _ v => .ok v
  | .bool _ b => .ok (truth b)
  | .var _ v => .ok (values v.name)
  | .binary _ op l r => binaryValue op (l.value values) (r.value values)
  | .unary _ .negate e => do return -(← e.value values)
  | .unary _ .not e => do return truth ((← e.value values) ≠ 1)
  | _ => .error .unreadable

/-- Every variable of the expression satisfies `p`. -/
def Expr.EachVar (p : Variable → Prop) : Expr → Prop
  | .var _ v => p v
  | .binary _ _ l r => l.EachVar p ∧ r.EachVar p
  | .unary _ _ e => e.EachVar p
  | _ => True

theorem Expr.EachVar.imp {p q : Variable → Prop} (pq : ∀ v, p v → q v) :
    ∀ {e : Expr}, e.EachVar p → e.EachVar q
  | .var _ v, h => pq v h
  | .binary _ _ _ _, h => ⟨h.1.imp pq, h.2.imp pq⟩
  | .unary _ _ e, h => Expr.EachVar.imp pq (e := e) h
  | .int .., _ | .fraction .., _ | .bool .., _ | .text .., _ | .command .., _ | .call .., _
  | .stream .., _ => trivial

/-! ## Forms -/

/-- What the shell sees of an expression, as a value and as a test. -/
structure Form where
  word : List Piece
  test : Test

/-- A value is tested for being `1`. -/
def Form.ofWord (word : List Piece) : Form := ⟨word, .compare .eq word [.plain '1']⟩

/-- A test is decided to become a value. -/
def Form.ofTest (test : Test) : Form := ⟨[.decision false test], test⟩

@[simp] theorem Form.ofWord_test (word : List Piece) :
    (Form.ofWord word).test = .compare .eq word [.plain '1'] := rfl

@[simp] theorem Form.ofTest_test (test : Test) : (Form.ofTest test).test = test := rfl

def binaryForm (op : BinaryOp) (l r : Form) : Form :=
  match op with
  | .and => .ofTest (.both l.test r.test)
  | .or => .ofTest (.either l.test r.test)
  | .eq => .ofTest (.compare .eq l.word r.word)
  | .ne => .ofTest (.compare .ne l.word r.word)
  | .lt => .ofTest (.compare .lt l.word r.word)
  | .le => .ofTest (.compare .le l.word r.word)
  | .gt => .ofTest (.compare .gt l.word r.word)
  | .ge => .ofTest (.compare .ge l.word r.word)
  | op =>
    .ofWord [.arith (l.word ++ .plain ' ' ::
      ((operatorWord false op).toList.map .plain ++ .plain ' ' :: r.word))]

def Expr.form : Expr → Form
  | .int _ v => .ofWord ((intText v).toList.map .plain)
  | .bool _ b => .ofWord ((boolText b).toList.map .plain)
  | .var _ v => .ofWord [.var v.name]
  | .binary _ op l r => binaryForm op l.form r.form
  | .unary _ .negate e =>
    .ofWord [.arith (.plain '-' :: .plain '(' :: (e.form.word ++ [.plain ')']))]
  | .unary _ .not e => .ofWord [.decision true e.form.test]
  | _ => .ofWord []

/-! ## Forms evaluate to values -/

/-- Words are expanded piece by piece, from the left. -/
theorem expand_append (env : String → String) (v w : List Piece) :
    expand env (v ++ w) = do
      let a ← expand env v
      let b ← expand env w
      return a ++ b := by
  induction v with
  | nil => cases h : expand env w <;> simp [expand, h, bind, Except.bind, pure, Except.pure]
  | cons p v ih =>
    rw [List.cons_append, expand, expand, ih]
    cases p.expand env <;> cases expand env v <;> cases expand env w <;>
      simp [bind, Except.bind, pure, Except.pure]

/-- Plain characters stand for themselves. -/
theorem expand_plain (env : String → String) (cs : List Char) :
    expand env (cs.map .plain) = .ok cs := by
  induction cs with
  | nil => simp [expand]
  | cons c cs ih => simp [expand, Piece.expand, ih, bind, Except.bind, pure, Except.pure]

theorem expand_singleton (env : String → String) (p : Piece) :
    expand env [p] = p.expand env := by
  cases h : p.expand env <;> simp [expand, h, bind, Except.bind, pure, Except.pure]

/-- A truth value is written as the number it stands for. -/
theorem boolText_eq_intText_truth (b : Bool) : boolText b = intText (truth b) := by
  cases b <;> rfl

/-- The word of a form expands to the decimal text of a value, and its test holds if the value is
`1`; without value there is neither. -/
structure Form.Evaluates (env : String → String) (f : Form) (r : Except Failure Int64) :
    Prop where
  word : expand env f.word = r.map fun v => (intText v).toList
  test : f.test.holds env = r.map fun v => decide (v = 1)

/-- A word that expands to a number evaluates to it, and as a test it asks whether it is one. -/
theorem Form.Evaluates.ofWord {env : String → String} {w : List Piece} {r : Except Failure Int64}
    (h : expand env w = r.map fun v => (intText v).toList) :
    (Form.ofWord w).Evaluates env r where
  word := h
  test := by
    have one : arithValue ['1'] = .ok 1 := arithValue_intText 1
    rw [Form.ofWord, Test.holds, h]
    cases r with
    | error failure => rfl
    | ok v =>
      simp [Except.map, bind, Except.bind, pure, Except.pure, arithValue_intText, expand,
        Piece.expand, one, Relation.holds]

/-- A test evaluates to the number of its truth value. -/
theorem Form.Evaluates.ofTest {env : String → String} {t : Test} {r : Except Failure Bool}
    (h : t.holds env = r) : (Form.ofTest t).Evaluates env (r.map truth) where
  word := by
    rw [Form.ofTest, expand_singleton, Piece.expand, h]
    cases r with
    | error failure => rfl
    | ok b => cases b <;> rfl
  test := by
    rw [Form.ofTest, h]
    cases r with
    | error failure => rfl
    | ok b => cases b <;> rfl

section Operators

variable {env : String → String} {f g : Form} {a b : Except Failure Int64}

/-- Arithmetic on forms is arithmetic on their values. -/
theorem Form.Evaluates.arith {op : BinaryOp} (h : op.isArithmetic = true)
    (hf : f.Evaluates env a) (hg : g.Evaluates env b) :
    (Form.ofWord [.arith (f.word ++ .plain ' ' ::
        ((operatorWord false op).toList.map .plain ++ .plain ' ' :: g.word))]).Evaluates env
      (do arithmetic op (← a) (← b)) := by
  refine .ofWord ?_
  rw [expand_singleton, Piece.expand, expand_append, expand, expand_append, expand, expand_plain,
    hf.word, hg.word]
  cases a with
  | error failure => rfl
  | ok a =>
    cases b with
    | error failure => rfl
    | ok b =>
      have value := arithValue_binary h a b
      simp only [Except.map, bind, Except.bind, pure, Except.pure, Piece.expand,
        List.singleton_append, value]

/-- A comparison of forms compares their values. -/
theorem Form.Evaluates.compare (relation : Relation) (hf : f.Evaluates env a)
    (hg : g.Evaluates env b) :
    (Form.ofTest (.compare relation f.word g.word)).Evaluates env
      (do return truth (relation.holds (← a) (← b))) := by
  have test : (Test.compare relation f.word g.word).holds env =
      (do return relation.holds (← a) (← b)) := by
    rw [Test.holds, hf.word, hg.word]
    cases a <;> cases b <;>
      simp [Except.map, bind, Except.bind, pure, Except.pure, arithValue_intText]
  have evaluated := Form.Evaluates.ofTest test
  cases a <;> cases b <;> exact evaluated

/-- The second operand is left alone by both sides when the first one decides. -/
theorem Form.Evaluates.both (hf : f.Evaluates env a) (hg : g.Evaluates env b) :
    (Form.ofTest (.both f.test g.test)).Evaluates env (binaryValue .and a b) := by
  have test : (Test.both f.test g.test).holds env = (do
      let x ← a
      if x = 1 then return decide ((← b) = 1) else return false) := by
    rw [Test.holds, hf.test, hg.test]
    cases a with
    | error failure => rfl
    | ok x => by_cases one : x = 1 <;> cases b <;> simp [Except.map, bind, Except.bind, pure,
        Except.pure, one]
  have evaluated := Form.Evaluates.ofTest test
  cases a with
  | error failure => exact evaluated
  | ok x =>
    by_cases one : x = 1 <;> cases b <;>
      simpa [binaryValue, Except.map, bind, Except.bind, pure, Except.pure, one] using evaluated

/-- If the first condition holds, the second one is not evaluated. -/
theorem Form.Evaluates.either (hf : f.Evaluates env a) (hg : g.Evaluates env b) :
    (Form.ofTest (.either f.test g.test)).Evaluates env (binaryValue .or a b) := by
  have test : (Test.either f.test g.test).holds env = (do
      let x ← a
      if x = 1 then return true else return decide ((← b) = 1)) := by
    rw [Test.holds, hf.test, hg.test]
    cases a with
    | error failure => rfl
    | ok x => by_cases one : x = 1 <;> cases b <;> simp [Except.map, bind, Except.bind, pure,
        Except.pure, one]
  have evaluated := Form.Evaluates.ofTest test
  cases a with
  | error failure => exact evaluated
  | ok x =>
    by_cases one : x = 1 <;> cases b <;>
      simpa [binaryValue, Except.map, bind, Except.bind, pure, Except.pure, one] using evaluated

/-- Every operator on forms is that operator on their values. -/
theorem Form.Evaluates.binary (op : BinaryOp) (hf : f.Evaluates env a) (hg : g.Evaluates env b) :
    (binaryForm op f g).Evaluates env (binaryValue op a b) := by
  cases op with
  | and => exact hf.both hg
  | or => exact hf.either hg
  | eq => exact hf.compare .eq hg
  | ne => exact hf.compare .ne hg
  | lt => exact hf.compare .lt hg
  | le => exact hf.compare .le hg
  | gt => exact hf.compare .gt hg
  | ge => exact hf.compare .ge hg
  | add => exact hf.arith rfl hg
  | sub => exact hf.arith rfl hg
  | mul => exact hf.arith rfl hg
  | div => exact hf.arith rfl hg
  | mod => exact hf.arith rfl hg

/-- The negative of a form has the negative value. -/
theorem Form.Evaluates.negate (hf : f.Evaluates env a) :
    (Form.ofWord [.arith (.plain '-' :: .plain '(' :: (f.word ++ [.plain ')']))]).Evaluates env
      (do return -(← a)) := by
  refine .ofWord ?_
  rw [expand_singleton, Piece.expand, expand, expand, expand_append, hf.word]
  cases a with
  | error failure => rfl
  | ok v =>
    have value := arithValue_negated v
    simp only [Except.map, bind, Except.bind, pure, Except.pure, Piece.expand, expand,
      List.append_nil, List.singleton_append, value]

/-- A form is inverted as a test. -/
theorem Form.Evaluates.not (hf : f.Evaluates env a) :
    (Form.ofWord [.decision true f.test]).Evaluates env (do return truth ((← a) ≠ 1)) := by
  refine .ofWord ?_
  rw [expand_singleton, Piece.expand, hf.test]
  cases a with
  | error failure => rfl
  | ok v =>
    by_cases one : v = 1 <;>
      simp [Except.map, bind, Except.bind, pure, Except.pure, one, boolText_eq_intText_truth]

end Operators

/-! ## Plain expressions -/

/-- The expressions of numbers and truth values that resolving gives: types follow from
operators, and no minus sign stands before a number, since it is part of the number then. -/
inductive Plain : Expr → Prop
  | int (v : Int64) : Plain (.int .integer v)
  | bool (b : Bool) : Plain (.bool .boolean b)
  | var {ty : Ty} {v : Variable} :
    ty = .integer ∨ ty = .boolean → IsName v.name → Plain (.var ty v)
  | binary {l r : Expr} (op : BinaryOp) :
    Plain l → Plain r → Plain (.binary (resultTy op l.ty r.ty) op l r)
  | negate {e : Expr} :
    Plain e → e.ty = .integer → e.isNumber = false → Plain (.unary .integer .negate e)
  | not {e : Expr} : Plain e → Plain (.unary .boolean .not e)

/-- A plain expression is a number or a truth value. -/
theorem Plain.ty {e : Expr} (h : Plain e) : e.ty = .integer ∨ e.ty = .boolean := by
  induction h with
  | int => exact .inl rfl
  | bool => exact .inr rfl
  | var ty => exact ty
  | binary op hl hr left right =>
    change resultTy op _ _ = _ ∨ resultTy op _ _ = _
    unfold resultTy
    split
    · exact .inr rfl
    · rcases left with left | left <;> rcases right with right | right <;> simp [left, right]
  | negate => exact .inl rfl
  | not => exact .inr rfl

/-- What a comparison gives is no whole number. -/
theorem Plain.not_comparison {e : Expr} (h : Plain e) (ty : e.ty = .integer) :
    e.isComparison = false := by
  cases h with
  | @binary l r op hl hr =>
    change resultTy op l.ty r.ty = .integer at ty
    cases comparison : op.isComparison with
    | false => exact comparison
    | true => simp [resultTy, comparison] at ty
  | _ => rfl

/-- Plain expressions are compared as numbers. -/
theorem Plain.comparesText {l r : Expr} (hl : Plain l) (hr : Plain r) (op : BinaryOp) :
    comparesText op l r = false := by
  rcases hl.ty with left | left <;> rcases hr.ty with right | right <;>
    simp [Script.comparesText, left, right]

section Writing

variable {m : Mode} {op : BinaryOp} {l r : Expr} {tl tr : String}

theorem isOpposite_number (op : BinaryOp) : isOpposite false op = false := by
  cases op <;> rfl

/-- The text of arithmetic. -/
theorem exprText_arith (arith : op.isArithmetic = true) (ty : Ty)
    (text : comparesText op l r = false)
    (hl : exprText { m with decide := true, quote := false } l = .ok tl)
    (hr : exprText { m with decide := true, quote := false } r = .ok tr) :
    exprText m (.binary ty op l r) =
      .ok ("$" ++ ("((" ++ tl ++ (" " ++ operatorWord false op ++ " ") ++ tr ++ "))")) := by
  have comparison : op.isComparison = false := by rw [BinaryOp.isComparison, arith]; rfl
  have logical : op.isLogical = false := by cases op <;> first | rfl | cases arith
  have dollar (t : String) : "$" ++ ("((" ++ t) = "$((" ++ t := (String.append_assoc ..).symm
  simp [exprText, text, logical, arith, comparison, hl, hr, binaryOpen, binaryClose,
    isOpposite_number, operandOpen, operandClose, bind, Except.bind, pure, Except.pure, dollar,
    String.append_assoc]

/-- The text of a comparison as a bare test. -/
theorem exprText_compare (arith : op.isArithmetic = false) (logical : op.isLogical = false)
    (ty : Ty) (text : comparesText op l r = false) (undecided : m.decide = false)
    (hl : exprText { m with decide := true, quote := false } l = .ok tl)
    (hr : exprText { m with decide := true, quote := false } r = .ok tr) :
    exprText m (.binary ty op l r) =
      .ok (tl ++ (" " ++ operatorWord false op ++ " ") ++ tr) := by
  simp [exprText, text, logical, arith, undecided, hl, hr, binaryOpen, binaryClose,
    isOpposite_number, operandOpen, operandClose, bind, Except.bind, pure, Except.pure,
    String.append_assoc]

/-- The text of a connective as a bare test. -/
theorem exprText_logical (logical : op.isLogical = true) (ty : Ty)
    (text : comparesText op l r = false) (undecided : m.decide = false)
    (hl : exprText { m with decide := false, quote := false } l = .ok tl)
    (hr : exprText { m with decide := false, quote := false } r = .ok tr) :
    exprText m (.binary ty op l r) =
      .ok ((operandOpen op l ++ tl ++ operandClose op l) ++ (" " ++ operatorWord false op ++ " ")
        ++ (operandOpen op r ++ tr ++ operandClose op r)) := by
  have arith : op.isArithmetic = false := by cases op <;> first | rfl | cases logical
  simp [exprText, text, logical, arith, undecided, hl, hr, binaryOpen, binaryClose,
    isOpposite_number, bind, Except.bind, pure, Except.pure, String.append_assoc]

end Writing

/-- The digits of a number spell it. -/
theorem intText_spells (v : Int64) (quoted : Bool) :
    SpellsWord quoted (intText v) ((intText v).toList.map .plain) := by
  have digit : ∀ c ∈ Nat.toDigits 10 v.toInt.natAbs, c.isDigit = true := fun c mem =>
    Nat.isDigit_of_mem_toDigits (by decide) (by decide) mem
  refine .plain ?_ ?_ quoted
  · intro c mem
    rw [intText_toList] at mem
    split at mem
    · rcases List.mem_cons.mp mem with rfl | mem
      · rfl
      · simp [digit c mem]
    · simp [digit c mem]
  · intro empty
    have none : (intText v).toList = [] := by rw [empty]; rfl
    rw [intText_toList] at none
    split at none
    · cases none
    · exact Nat.toDigits_ne_nil none

/-- How an expression is written: in a mode that gives values, as its word, and in one
that gives tests, as its test, both where a logical operator has it for operand and
where it stands alone. -/
structure Expr.Written (e : Expr) : Prop where
  word : ∀ m : Mode, (m.decide = true ∨ e.isComparison = false) →
    ∃ t, exprText m e = .ok t ∧ SpellsWord m.quote t e.form.word
  test : ∀ m : Mode, (m.decide = false ∨ e.isComparison = false) →
    ∃ t, exprText m e = .ok t ∧ SpellsTest (t ++ testClose e) e.form.test ∧
      ∀ op : BinaryOp, op.isLogical = true →
        SpellsCondition (operandOpen op e ++ t ++ operandClose op e) e.form.test

/-- An expression that is no comparison has one way to be written, which is
tested for being `1`. -/
theorem Expr.Written.ofWord {e : Expr} {w : List Piece} (form : e.form = .ofWord w)
    (noComparison : e.isComparison = false) (noLogical : e.isLogical = false)
    (h : ∀ m : Mode, ∃ t, exprText m e = .ok t ∧ SpellsWord m.quote t w) : e.Written where
  word m _ := by
    rw [form]
    exact h m
  test m _ := by
    obtain ⟨t, text, spells⟩ := h m
    have one : SpellsWord m.quote "1" [.plain '1'] := intText_spells 1 m.quote
    have condition : SpellsCondition (t ++ " -eq 1") e.form.test := by
      rw [form, Form.ofWord_test]
      have equal := SpellsCondition.compare spells one .eq
      rwa [String.append_assoc] at equal
    refine ⟨t, text, ?_, ?_⟩
    · rw [testClose, noComparison]
      exact condition.test
    · intro op logical
      simpa [operandOpen, operandClose, testClose, logical, noLogical, noComparison]
        using condition

/-- A comparison is written as its test or, decided, as its word. -/
theorem Expr.Written.ofTest {e : Expr} {test : Test} (form : e.form = .ofTest test)
    (comparison : e.isComparison = true)
    (h : ∀ m : Mode, m.decide = false → ∃ t, exprText m e = .ok t ∧ SpellsTest t test ∧
      (e.isLogical = false → SpellsCondition t test)) : e.Written where
  word m decides := by
    obtain ⟨t, text, spells, -⟩ := h { m with decide := false } rfl
    have deciding : m.decide = true := decides.resolve_right (by simp [comparison])
    refine ⟨decided t, ?_, ?_⟩
    · rw [exprText_comparison comparison, text, deciding]
      rfl
    · rw [form]
      exact (SpellsExpansion.decision spells).word m.quote
  test m undecides := by
    have undecided : m.decide = false := undecides.resolve_right (by simp [comparison])
    obtain ⟨t, text, spells, condition⟩ := h m undecided
    refine ⟨t, text, ?_, ?_⟩
    · rw [form]
      simpa [testClose, comparison] using spells
    · intro op logical
      rw [form]
      cases nested : e.isLogical with
      | true =>
        simpa [operandOpen, operandClose, logical, nested] using SpellsCondition.group spells
      | false =>
        simpa [operandOpen, operandClose, testClose, logical, nested, comparison] using
          condition nested

/-- Arithmetic is written as its form, if its operands are. -/
theorem written_arith {op : BinaryOp} {ty : Ty} {l r : Expr} (arith : op.isArithmetic = true)
    (text : comparesText op l r = false) (hl : l.Written) (hr : r.Written) :
    (Expr.binary ty op l r).Written := by
  have comparison : op.isComparison = false := by rw [BinaryOp.isComparison, arith]; rfl
  have logical : op.isLogical = false := by cases op <;> first | rfl | cases arith
  have form : (Expr.binary ty op l r).form = .ofWord [.arith (l.form.word ++ .plain ' ' ::
      ((operatorWord false op).toList.map .plain ++ .plain ' ' :: r.form.word))] := by
    cases op <;> first | rfl | cases arith
  refine .ofWord form comparison logical fun m => ?_
  obtain ⟨tl, textl, spellsl⟩ := hl.word { m with decide := true, quote := false } (.inl rfl)
  obtain ⟨tr, textr, spellsr⟩ := hr.word { m with decide := true, quote := false } (.inl rfl)
  have marks : ∀ c ∈ (operatorWord false op).toList, isArithMark c = true ∧ c ≠ '(' ∧
      c ≠ ')' := by
    intro c mem
    cases op <;> first | (cases List.mem_singleton.mp mem; decide) | cases arith
  exact ⟨_, exprText_arith arith ty text textl textr,
    (SpellsExpansion.arith spellsl spellsr marks).word m.quote⟩

/-- So is a comparison. -/
theorem written_compare {op : BinaryOp} {ty : Ty} {l r : Expr} {relation : Relation}
    (arith : op.isArithmetic = false) (logical : op.isLogical = false)
    (word : operatorWord false op = relation.word)
    (form : binaryForm op l.form r.form = .ofTest (.compare relation l.form.word r.form.word))
    (text : comparesText op l r = false) (hl : l.Written) (hr : r.Written) :
    (Expr.binary ty op l r).Written := by
  have comparison : op.isComparison = true := by rw [BinaryOp.isComparison, arith]; rfl
  refine .ofTest form comparison fun m undecided => ?_
  obtain ⟨tl, textl, spellsl⟩ := hl.word { m with decide := true, quote := false } (.inl rfl)
  obtain ⟨tr, textr, spellsr⟩ := hr.word { m with decide := true, quote := false } (.inl rfl)
  have spells := SpellsCondition.compare spellsl spellsr relation
  rw [← word] at spells
  exact ⟨_, exprText_compare arith logical ty text undecided textl textr, spells.test,
    fun _ => spells⟩

/-- So is a connective. -/
theorem written_logical {op : BinaryOp} {ty : Ty} {l r : Expr} {join : Test → Test → Test}
    (logical : op.isLogical = true)
    (form : binaryForm op l.form r.form = .ofTest (join l.form.test r.form.test))
    (spells : ∀ {a b : String} {s t : Test}, SpellsCondition a s → SpellsCondition b t →
      SpellsTest (a ++ (" " ++ operatorWord false op ++ " ") ++ b) (join s t))
    (text : comparesText op l r = false) (hl : l.Written) (hr : r.Written) :
    (Expr.binary ty op l r).Written := by
  have comparison : op.isComparison = true := by cases op <;> first | rfl | cases logical
  refine .ofTest form comparison fun m undecided => ?_
  obtain ⟨tl, textl, -, spellsl⟩ := hl.test { m with decide := false, quote := false } (.inl rfl)
  obtain ⟨tr, textr, -, spellsr⟩ := hr.test { m with decide := false, quote := false } (.inl rfl)
  refine ⟨_, exprText_logical logical ty text undecided textl textr,
    spells (spellsl op logical) (spellsr op logical), fun notLogical => ?_⟩
  exact absurd logical (by rw [show op.isLogical = false from notLogical]; decide)

/-- By induction on the expression, in all modes at once. -/
theorem Plain.written {e : Expr} (h : Plain e) : e.Written := by
  induction h with
  | int v => exact .ofWord rfl rfl rfl fun m => ⟨_, rfl, intText_spells v m.quote⟩
  | bool b =>
    refine .ofWord rfl rfl rfl fun m => ⟨boolText b, rfl, ?_⟩
    rw [boolText_eq_intText_truth]
    exact intText_spells (truth b) m.quote
  | var ty name =>
    refine .ofWord rfl rfl rfl fun m => ⟨_, rfl, ?_⟩
    have spells := SpellsExpansion.var name
    cases quoted : m.quote with
    | true => simpa [variableText, quoted, String.append_assoc] using spells.quotedWord
    | false => simpa [variableText, quoted] using spells.word false
  | @binary l r op hl hr left right =>
    have text := hl.comparesText hr op
    cases op with
    | and => exact written_logical rfl rfl .both text left right
    | or => exact written_logical rfl rfl .either text left right
    | eq | ne | lt | le | gt | ge => exact written_compare rfl rfl rfl rfl text left right
    | add | sub | mul | div | mod => exact written_arith rfl text left right
  | @negate e h ty number ih =>
    refine .ofWord rfl rfl rfl fun m => ?_
    -- The mode may ask for tests here, but a whole number is written as a word all the same.
    obtain ⟨t, text, spells⟩ := ih.word { m with quote := false, substitute := true }
      (.inr (h.not_comparison ty))
    refine ⟨"$" ++ ("((-(" ++ t ++ ")))"), ?_, (SpellsExpansion.negated spells).word m.quote⟩
    rw [exprText, number, if_neg (by decide), text]
    simp only [bind, Except.bind, pure, Except.pure, ← String.append_assoc]
    rfl
  | @not e h ih =>
    refine .ofWord rfl rfl rfl fun m => ?_
    obtain ⟨t, text, spells, -⟩ := ih.test { m with decide := false } (.inl rfl)
    refine ⟨"$" ++ ("(! [[ " ++ (t ++ testClose e) ++ decisionClose), ?_,
      (SpellsExpansion.inverted spells).word m.quote⟩
    rw [exprText, text]
    simp only [bind, Except.bind, pure, Except.pure, ← String.append_assoc]
    rfl

/-- As a condition an expression is written as its test, whether it is a comparison or not. -/
theorem Expr.Written.condition {e : Expr} (h : e.Written) (m : Mode) :
    ∃ t, conditionText m e = .ok t ∧ SpellsTest t e.form.test := by
  have tests : (conditionMode m e).decide = false ∨ e.isComparison = false := by
    cases comparison : e.isComparison with
    | true => exact .inl (by simp [conditionMode, comparison])
    | false => exact .inr rfl
  obtain ⟨t, text, spells, -⟩ := h.test (conditionMode m e) tests
  refine ⟨t ++ testClose e, ?_, spells⟩
  rw [conditionText, text]
  rfl

/-! ## Resolved expressions -/

/-- A minus sign before something other than a number stays a minus sign. -/
theorem applyUnary_negate {e : Expr} (number : e.isNumber = false) :
    applyUnary .negate e =
      .unary (if e.ty = .undef then .integer else e.ty) .negate e := by
  cases e <;> first | rfl | cases number

/-- An operator fails with its operands, or because it divides by zero. -/
theorem binaryValue_error {op : BinaryOp} {a b : Except Failure Int64} {failure : Failure}
    (h : binaryValue op a b = .error failure) :
    a = .error failure ∨ b = .error failure ∨ failure = .divisionByZero := by
  cases a with
  | error first => cases op <;> exact .inl h
  | ok x =>
    cases b with
    | error second =>
      cases op
      case and | or =>
        simp only [binaryValue, bind, Except.bind] at h
        split at h
        all_goals first | exact .inr (.inl h) | cases h
      all_goals exact .inr (.inl h)
    | ok y =>
      cases op
      case and | or =>
        simp only [binaryValue, bind, Except.bind] at h
        split at h <;> cases h
      case div | mod =>
        simp only [binaryValue, bind, Except.bind, arithmetic, divideBy] at h
        split at h <;> cases h
        exact .inr (.inr rfl)
      all_goals cases h

/-- Only a division can be without value. -/
theorem Plain.divisionByZero {e : Expr} (h : Plain e) {values : String → Int64}
    {failure : Failure} (fails : e.value values = .error failure) :
    failure = .divisionByZero := by
  induction h with
  | int | bool | var => cases fails
  | binary op hl hr left right =>
    rcases binaryValue_error fails with first | second | division
    · exact left first
    · exact right second
    · exact division
  | @negate e h ty number ih | @not e h ih =>
    cases value : e.value values with
    | error first =>
      rw [Expr.value, value] at fails
      exact ih (value.trans fails)
    | ok v =>
      rw [Expr.value, value] at fails
      cases fails

end Shellwright.Core
