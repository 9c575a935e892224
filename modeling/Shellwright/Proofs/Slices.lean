import Shellwright.Source.Text

/-!
# Slices of a text

A byte offset is of use for cutting a text only if it lies within the text and between two
characters. Where both ends of a span do, the characters under the span are the text without what
stands before and behind.

* `Source.IsBoundary`, `Source.isBoundary_iff`: the offsets at which a text can be cut.
* `Source.Covers`, `Source.slice_append`: the spans that can be cut out, and what comes out.
* `Source.cut?`, `Source.Covers.cut?_eq`: cutting that refuses all other spans.
-/

namespace Shellwright

open Text (byteSize)

namespace Text

theorem byteSize_eq_utf8ByteSize (cs : List Char) :
    byteSize cs = (String.ofList cs).utf8ByteSize := by
  induction cs with
  | nil => rfl
  | cons c cs ih => rw [byteSize, ih, String.ofList_cons, String.utf8ByteSize_append,
      String.utf8ByteSize_singleton]

theorem byteSize_eq_zero {cs : List Char} (h : byteSize cs = 0) : cs = [] := by
  cases cs with
  | nil => rfl
  | cons c cs =>
    have := c.utf8Size_pos
    rw [byteSize] at h
    omega

/-- A text can be cut at an offset in one way only. -/
theorem append_inj_of_byteSize {a b a' b' : List Char} (same : a ++ b = a' ++ b')
    (size : byteSize a = byteSize a') : a = a' ∧ b = b' := by
  rcases List.append_eq_append_iff.mp same with ⟨c, rfl, rfl⟩ | ⟨c, rfl, rfl⟩
  all_goals
    rw [byteSize_append] at size
    obtain rfl : c = [] := byteSize_eq_zero (by omega)
    simp

end Text

namespace Source

variable {s : Source}

/-! ## Boundaries -/

/-- The offset lies within the text and not inside a character. -/
def IsBoundary (s : Source) (pos : Nat) : Prop := (String.Pos.Raw.mk pos).IsValid s.text

instance (s : Source) (pos : Nat) : Decidable (s.IsBoundary pos) :=
  decidable_of_iff ((String.Pos.Raw.mk pos).isValid s.text = true)
    String.Pos.Raw.isValid_eq_true_iff

/-- The boundaries are the ends of the texts that the text begins with. -/
theorem isBoundary_iff {pos : Nat} :
    s.IsBoundary pos ↔ ∃ before after, s.chars = before ++ after ∧ byteSize before = pos := by
  rw [IsBoundary, String.Pos.Raw.isValid_iff_exists_append]
  constructor
  · rintro ⟨before, after, whole, ends⟩
    refine ⟨before.toList, after.toList, ?_, ?_⟩
    · rw [chars, whole, String.toList_append]
    · rw [Text.byteSize_eq_utf8ByteSize, String.ofList_toList]
      exact (congrArg String.Pos.Raw.byteIdx ends).symm
  · rintro ⟨before, after, whole, size⟩
    refine ⟨String.ofList before, String.ofList after, ?_, ?_⟩
    · rw [← String.ofList_append, ← whole, chars, String.ofList_toList]
    · rw [← size, Text.byteSize_eq_utf8ByteSize]
      rfl

theorem isBoundary_of_append {before after : List Char} (h : s.chars = before ++ after) :
    s.IsBoundary (byteSize before) :=
  isBoundary_iff.mpr ⟨before, after, h, rfl⟩

/-- No boundary lies behind the text. -/
theorem IsBoundary.le_size {pos : Nat} (h : s.IsBoundary pos) : pos ≤ s.size := by
  obtain ⟨before, after, whole, rfl⟩ := isBoundary_iff.mp h
  rw [size, whole, Text.byteSize_append]
  omega

theorem isBoundary_zero (s : Source) : s.IsBoundary 0 := by
  have whole : s.chars = [] ++ s.chars := rfl
  exact isBoundary_of_append whole

theorem isBoundary_size (s : Source) : s.IsBoundary s.size :=
  isBoundary_of_append (List.append_nil s.chars).symm

/-! ## Slices -/

/-- What stands before the span is passed over. -/
theorem sliceFrom_before {start stop pos : Nat} {xs : List Char} (h : pos + byteSize xs ≤ start)
    (cs : List Char) :
    sliceFrom start stop pos (xs ++ cs) = sliceFrom start stop (pos + byteSize xs) cs := by
  induction xs generalizing pos with
  | nil => rfl
  | cons x xs ih =>
    have := x.utf8Size_pos
    rw [byteSize] at h
    have early : ¬(start ≤ pos && pos < stop) = true := by
      simp only [Bool.and_eq_true, decide_eq_true_eq]
      omega
    rw [List.cons_append, sliceFrom, if_neg early, ih (by omega), byteSize, Nat.add_assoc]

/-- What stands in it is kept. -/
theorem sliceFrom_inside {start stop pos : Nat} {xs : List Char} (begun : start ≤ pos)
    (h : pos + byteSize xs ≤ stop) (cs : List Char) :
    sliceFrom start stop pos (xs ++ cs) = xs ++ sliceFrom start stop (pos + byteSize xs) cs := by
  induction xs generalizing pos with
  | nil => rfl
  | cons x xs ih =>
    have := x.utf8Size_pos
    rw [byteSize] at h
    have inside : (start ≤ pos && pos < stop) = true := by
      simp only [Bool.and_eq_true, decide_eq_true_eq]
      omega
    rw [List.cons_append, sliceFrom, if_pos inside, ih (by omega) (by omega), byteSize,
      Nat.add_assoc]
    rfl

/-- Nothing behind it is kept. -/
theorem sliceFrom_after {start stop pos : Nat} (h : stop ≤ max start pos) (cs : List Char) :
    sliceFrom start stop pos cs = [] := by
  induction cs generalizing pos with
  | nil => rfl
  | cons c cs ih =>
    have late : ¬(start ≤ pos && pos < stop) = true := by
      simp only [Bool.and_eq_true, decide_eq_true_eq]
      omega
    rw [sliceFrom, if_neg late, ih (by omega)]

theorem slice_eq_nil {span : Span} (h : span.stop ≤ span.start) : s.slice span = [] :=
  sliceFrom_after (by omega) s.chars

/-- What stands between two boundaries. -/
theorem slice_append {before inside after : List Char}
    (h : s.chars = before ++ (inside ++ after)) :
    s.slice ⟨byteSize before, byteSize before + byteSize inside⟩ = inside := by
  rw [slice, h]
  dsimp only
  rw [sliceFrom_before (by omega), sliceFrom_inside (by omega) (by omega),
    sliceFrom_after (by omega), List.append_nil]

/-! ## Spans that can be cut out -/

/-- The span lies within the text, and neither end is inside a character. -/
structure Covers (s : Source) (span : Span) : Prop where
  ordered : span.start ≤ span.stop
  within : span.stop ≤ s.size
  start : s.IsBoundary span.start
  stop : s.IsBoundary span.stop

/-- A part of the text can be cut out. -/
theorem covers_of_append {before inside after : List Char}
    (h : s.chars = before ++ (inside ++ after)) :
    s.Covers ⟨byteSize before, byteSize before + byteSize inside⟩ := by
  have stop : s.IsBoundary (byteSize before + byteSize inside) := by
    rw [← Text.byteSize_append]
    exact isBoundary_of_append (by rw [h, List.append_assoc])
  exact ⟨Nat.le_add_right _ _, stop.le_size, isBoundary_of_append h, stop⟩

/-- A span that can be cut out is that of a part of the text. -/
theorem Covers.exists_append {span : Span} (h : s.Covers span) :
    ∃ before inside after, s.chars = before ++ (inside ++ after) ∧
      span = ⟨byteSize before, byteSize before + byteSize inside⟩ := by
  obtain ⟨before, rest, whole, start⟩ := isBoundary_iff.mp h.start
  obtain ⟨upTo, after, whole', stop⟩ := isBoundary_iff.mp h.stop
  obtain ⟨start', stop'⟩ := span
  have ordered := h.ordered
  dsimp only at start stop ordered
  subst start stop
  rcases List.append_eq_append_iff.mp (whole.symm.trans whole')
    with ⟨inside, rfl, rfl⟩ | ⟨c, rfl, rfl⟩
  · exact ⟨before, inside, after, whole, by rw [Text.byteSize_append]⟩
  · rw [Text.byteSize_append] at ordered
    obtain rfl : c = [] := Text.byteSize_eq_zero (by omega)
    exact ⟨upTo, [], rest, whole', by simp [byteSize]⟩

/-- The characters under a span; nothing if the span is not one of the text or cuts a
character. -/
def cut? (s : Source) (span : Span) : Option (List Char) :=
  if span.start ≤ span.stop ∧ s.IsBoundary span.start ∧
    s.IsBoundary span.stop then some (s.slice span)
  else none

theorem Covers.cut?_eq {span : Span} (h : s.Covers span) : s.cut? span = some (s.slice span) :=
  if_pos ⟨h.ordered, h.start, h.stop⟩

/-- Cutting out a part of the text gives that part. -/
theorem cut?_append {before inside after : List Char}
    (h : s.chars = before ++ (inside ++ after)) :
    s.cut? ⟨byteSize before, byteSize before + byteSize inside⟩ = some inside := by
  rw [(covers_of_append h).cut?_eq, slice_append h]

end Source

end Shellwright
