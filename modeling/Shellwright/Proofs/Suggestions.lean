import Mathlib.Data.Prod.Lex
import Mathlib.Data.String.Basic
import Shellwright.Core.Resolve
import Shellwright.Proofs.EditDistance

/-!
# The name that is suggested

Of the known names within reach the one with the least pair of distance and spelling is
suggested. Two spellings are compared by their bytes, which is the order of their
characters too, so there is one such name at most, and neither the order of the known names
nor their repetition changes it.

* `bytes`, `bytes_le_iff`: texts in the order of their bytes.
* `Precedes`, `foldl_nearer`: the least of some candidates.
* `nearest?_eq_none_iff`, `nearest?_eq_some_iff`: when a name is suggested, and which.
* `help_of_unknown_variable`, `help_of_unknown_function`: the advice for unknown names.
* `suggestions_nearest`: suggestions are nearest names, and say nothing about the order of names.
-/

namespace Shellwright.Suggest

/-! ## The order of bytes -/

/-- The bytes of a text in UTF-8. -/
def bytes (s : String) : List UInt8 := s.toUTF8.data.toList

theorem bytes_eq (s : String) : bytes s = s.toList.flatMap String.utf8EncodeChar := by
  rw [bytes, String.toUTF8_eq_toByteArray, ← String.utf8Encode_toList, List.utf8Encode,
    List.toList_data_toByteArray]

/-- Of two characters the lesser one has the lesser bytes, whatever follows them: the
first byte tells how many there are, and each byte after it holds six bits of the code
point, the highest ones first. -/
theorem utf8EncodeChar_append_lt {c d : Char} (h : c < d) (u v : List UInt8) :
    String.utf8EncodeChar c ++ u < String.utf8EncodeChar d ++ v := by
  have less : c.val.toNat < d.val.toNat := h
  have bound : d.val.toNat < 0x110000 := by
    have valid := d.valid
    simp only [UInt32.isValidChar, Nat.isValidChar] at valid
    omega
  have twice (n : Nat) : n / 4096 = n / 64 / 64 := by omega
  have thrice (n : Nat) : n / 262144 = n / 64 / 64 / 64 := by omega
  simp only [String.utf8EncodeChar]
  repeat' split
  all_goals
    simp only [List.cons_append, List.nil_append, List.cons_lt_cons_iff, UInt8.lt_iff_toNat_lt,
      ← UInt8.toNat_inj, UInt8.toNat_ofNat', twice, thrice]
    omega

/-- Encoding keeps the order of texts. -/
theorem flatMap_utf8EncodeChar_lt {cs ds : List Char} (h : cs < ds) :
    cs.flatMap String.utf8EncodeChar < ds.flatMap String.utf8EncodeChar := by
  induction h with
  | @nil d ds =>
    obtain ⟨first, others, spelled⟩ :=
      List.exists_cons_of_ne_nil (String.utf8EncodeChar_ne_nil (c := d))
    rw [List.flatMap_nil, List.flatMap_cons, spelled]
    exact List.nil_lt_cons _ _
  | rel less => exact utf8EncodeChar_append_lt less _ _
  | cons _ ih => exact List.append_left_lt ih

/-- Texts are in the same order byte by byte as character by character. -/
theorem bytes_lt_iff {s t : String} : bytes s < bytes t ↔ s < t := by
  rw [bytes_eq, bytes_eq]
  constructor
  · intro less
    rcases lt_trichotomy s t with h | rfl | h
    · exact h
    · exact absurd less (List.lt_irrefl _)
    · exact absurd (flatMap_utf8EncodeChar_lt h) (List.lt_asymm less)
  · exact flatMap_utf8EncodeChar_lt

theorem bytes_le_iff {s t : String} : bytes s ≤ bytes t ↔ s ≤ t :=
  not_congr bytes_lt_iff

/-! ## The least candidate -/

/-- The first pair of a distance and a name is not behind the second: it is nearer, or as near
and not behind in the order of bytes. -/
def Precedes (a b : Nat × String) : Prop := a.1 < b.1 ∨ a.1 = b.1 ∧ bytes a.2 ≤ bytes b.2

/-- Candidates are ordered by distance, then by name. -/
theorem precedes_iff {a b : Nat × String} : Precedes a b ↔ toLex a ≤ toLex b := by
  rw [Precedes, bytes_le_iff, Prod.Lex.toLex_le_toLex]

/-- Of two candidates the earlier one is kept unless the later one comes before
it in that order. -/
theorem nearer_eq (a b : Nat × String) : nearer a b = if toLex b < toLex a then b else a := by
  unfold nearer
  congr 1
  simp [Prod.Lex.toLex_lt_toLex]

theorem nearer_mem (a b : Nat × String) : nearer a b = a ∨ nearer a b = b := by
  rw [nearer_eq]
  split
  · exact .inr rfl
  · exact .inl rfl

/-- The candidate that is kept comes before both. -/
theorem toLex_nearer_le (a b : Nat × String) :
    toLex (nearer a b) ≤ toLex a ∧ toLex (nearer a b) ≤ toLex b := by
  rw [nearer_eq]
  split
  · next less => exact ⟨less.le, le_rfl⟩
  · next other => exact ⟨le_rfl, not_lt.mp other⟩

/-- Going through the candidates keeps the least of those seen so far. -/
theorem foldl_nearer (c : Nat × String) (cs : List (Nat × String)) :
    cs.foldl nearer c ∈ c :: cs ∧ ∀ d ∈ c :: cs, toLex (cs.foldl nearer c) ≤ toLex d := by
  induction cs generalizing c with
  | nil =>
    refine ⟨.head _, fun d mem => ?_⟩
    rw [List.mem_singleton.mp mem, List.foldl_nil]
  | cons next cs ih =>
    obtain ⟨mem, least⟩ := ih (nearer c next)
    obtain ⟨first, second⟩ := toLex_nearer_le c next
    have upTo := least (nearer c next) (.head _)
    refine ⟨?_, fun d isIn => ?_⟩
    · rcases List.mem_cons.mp mem with same | later
      · rw [List.foldl_cons, same]
        rcases nearer_mem c next with same | same <;> simp [same]
      · exact .tail _ (.tail _ later)
    · rcases List.mem_cons.mp isIn with rfl | isIn
      · exact upTo.trans first
      · rcases List.mem_cons.mp isIn with rfl | later
        · exact upTo.trans second
        · exact least d (.tail _ later)

/-! ## Suggestions -/

section

variable {input : String} {candidates : List String} {c : String}

/-- A name with its distance from the one that was written. -/
def ranked (input c : String) : Nat × String := (editDistance input.toList c.toList, c)

/-- The candidates in reach are other names, near enough. -/
theorem mem_inReach {r : Nat × String} :
    r ∈ inReach input candidates ↔
      ∃ c ∈ candidates, c ≠ input ∧ editDistance input.toList c.toList ≤ reach input ∧
        ranked input c = r := by
  simp only [inReach, List.mem_filter, List.mem_map, decide_eq_true_eq]
  constructor
  · rintro ⟨⟨c, ⟨mem, other⟩, rfl⟩, near⟩
    exact ⟨c, mem, other, near, rfl⟩
  · rintro ⟨c, mem, other, near, rfl⟩
    exact ⟨⟨c, ⟨mem, other⟩, rfl⟩, near⟩

/-- Nothing is suggested just if no other name is near enough. -/
theorem nearest?_eq_none_iff :
    nearest? input candidates = none ↔
      ∀ c ∈ candidates, c ≠ input → reach input < editDistance input.toList c.toList := by
  have absent : nearest? input candidates = none ↔ inReach input candidates = [] := by
    unfold nearest?
    cases inReach input candidates <;> simp
  rw [absent, List.eq_nil_iff_forall_not_mem]
  constructor
  · intro nothing c mem other
    refine Nat.lt_of_not_le fun near => nothing (ranked input c) ?_
    exact mem_inReach.mpr ⟨c, mem, other, near, rfl⟩
  · intro far r mem
    obtain ⟨c, mem, other, near, -⟩ := mem_inReach.mp mem
    exact absurd near (Nat.not_le_of_lt (far c mem other))

/-- The name is one of the candidates and within reach, and no candidate precedes it. -/
structure IsNearest (input : String) (candidates : List String) (c : String) : Prop where
  mem : c ∈ candidates
  other : c ≠ input
  near : editDistance input.toList c.toList ≤ reach input
  least : ∀ d ∈ candidates, d ≠ input → Precedes (ranked input c) (ranked input d)

/-- There is at most one nearest name. -/
theorem IsNearest.unique {d : String} (hc : IsNearest input candidates c)
    (hd : IsNearest input candidates d) : c = d := by
  have le := precedes_iff.mp (hc.least d hd.mem hd.other)
  have ge := precedes_iff.mp (hd.least c hc.mem hc.other)
  have same : ranked input c = ranked input d := toLex_inj.mp (le_antisymm le ge)
  exact congrArg Prod.snd same

theorem isNearest_of_nearest? (h : nearest? input candidates = some c) :
    IsNearest input candidates c := by
  unfold nearest? at h
  split at h
  · cases h
  · next first others listed =>
    cases h
    obtain ⟨mem, least⟩ := foldl_nearer first others
    rw [← listed] at mem least
    obtain ⟨c, isIn, other, near, same⟩ := mem_inReach.mp mem
    rw [← same] at least ⊢
    refine ⟨isIn, other, near, fun d isIn' other' => ?_⟩
    by_cases near' : editDistance input.toList d.toList ≤ reach input
    · exact precedes_iff.mpr (least _ (mem_inReach.mpr ⟨d, isIn', other', near', rfl⟩))
    · exact .inl (Nat.lt_of_le_of_lt near (Nat.lt_of_not_le near'))

/-- What is suggested is the nearest name. -/
theorem nearest?_eq_some_iff :
    nearest? input candidates = some c ↔ IsNearest input candidates c := by
  constructor
  · exact isNearest_of_nearest?
  · intro isNearest
    cases found : nearest? input candidates with
    | none =>
      have far := nearest?_eq_none_iff.mp found c isNearest.mem isNearest.other
      exact absurd isNearest.near (Nat.not_le_of_lt far)
    | some d => rw [(isNearest_of_nearest? found).unique isNearest]

/-- The order of the candidates does not matter. -/
theorem IsNearest.congr {others : List String} (same : ∀ c, c ∈ candidates ↔ c ∈ others)
    (h : IsNearest input candidates c) : IsNearest input others c :=
  ⟨(same c).mp h.mem, h.other, h.near, fun d isIn => h.least d ((same d).mpr isIn)⟩

/-- Only which names there are counts. -/
theorem nearest?_congr {others : List String} (same : ∀ c, c ∈ candidates ↔ c ∈ others) :
    nearest? input candidates = nearest? input others := by
  refine Option.ext fun c => ?_
  rw [nearest?_eq_some_iff, nearest?_eq_some_iff]
  exact ⟨.congr same, .congr fun c => (same c).symm⟩

end

end Shellwright.Suggest

namespace Shellwright.Core

/-! ## Unknown names -/

theorem Names.get?_eq_none {α : Type} {names : Names α} {name : String} :
    names.get? name = none ↔ name ∉ names.keys := by
  simp only [Names.get?, List.lookup_eq_none_iff, Names.keys, List.mem_map, bne_iff_ne]
  constructor
  · rintro absent ⟨entry, mem, rfl⟩
    exact absent entry mem rfl
  · intro absent entry mem same
    exact absent ⟨entry, mem, same.symm⟩

/-- A name is not found just if it is not known. -/
theorem Scope.find?_eq_none {s : Scope} {name : String} :
    s.find? name = none ↔ name ∉ s.known := by
  have absent : s.locals.bind (·.get? name) = none ↔
      name ∉ (s.locals.map Names.keys).getD [] := by
    cases s.locals with
    | none => simp
    | some locals => exact Names.get?_eq_none
  rw [Scope.known, List.mem_append, not_or, ← absent, ← Names.get?_eq_none, Scope.find?]
  cases s.locals.bind (·.get? name) with
  | none => simp
  | some ty => simp

section

variable {s : Scope} {name : String} {names : List String}

/-- The names may be listed in any order, and more than once. -/
theorem help_of_unknown_variable (unknown : name ∉ s.known)
    (listed : ∀ n, n ∈ names ↔ n ∈ s.known) (span : Span) :
    ∃ e, resolveExpr s (.var span name) = .error e ∧
      e.fault.help = (Suggest.nearest? name names).map ScopeFault.didYouMean := by
  have same : Suggest.nearest? name names = Suggest.nearest? name s.known :=
    Suggest.nearest?_congr listed
  refine ⟨s.error (.undefinedVariable name (Suggest.nearest? name s.known)) span, ?_, ?_⟩
  · simp only [resolveExpr, Scope.find?_eq_none.mpr unknown]
  · rw [same]
    rfl

/-- The help for an unknown function names the nearest one. -/
theorem help_of_unknown_function (unknown : name ∉ s.signatures.keys)
    (listed : ∀ n, n ∈ names ↔ n ∈ s.signatures.keys) (span : Span) (args : List Surface.Expr) :
    ∃ e, resolveExpr s (.call span name args) = .error e ∧
      e.fault.help = some (((Suggest.nearest? name names).map ScopeFault.didYouMean).getD
        "use @( ... ) to run an external command") := by
  have same : Suggest.nearest? name names = Suggest.nearest? name s.signatures.keys :=
    Suggest.nearest?_congr listed
  refine ⟨s.error (.undefinedFunction name (Suggest.nearest? name s.signatures.keys)) span,
    ?_, ?_⟩
  · simp only [resolveExpr, Names.get?_eq_none.mpr unknown]
  · rw [same]
    rfl

end

end Shellwright.Core

namespace Shellwright

open Suggest

/-- The distance is the least number of edits. With a reach of half the characters of the name,
but at least one edit and at most two, nothing is suggested exactly when no other candidate lies
within reach; else it is the candidate with the least pair of distance and bytes. Which
candidates there are is all that counts, so the advice for an unknown name is the same however
the known names are listed. -/
theorem suggestions_nearest :
    (∀ a b : String, IsLeast {n | Edits n a.toList b.toList} (editDistance a.toList b.toList)) ∧
    (∀ (input : String) (candidates : List String),
      (nearest? input candidates = none ↔ ∀ c ∈ candidates, c ≠ input →
        max 1 (min 2 (input.toList.length / 2)) < editDistance input.toList c.toList) ∧
      (∀ c, nearest? input candidates = some c ↔
        c ∈ candidates ∧ c ≠ input ∧
          editDistance input.toList c.toList ≤ max 1 (min 2 (input.toList.length / 2)) ∧
          ∀ d ∈ candidates, d ≠ input → Precedes (ranked input c) (ranked input d)) ∧
      ∀ others : List String, (∀ c, c ∈ candidates ↔ c ∈ others) →
        nearest? input candidates = nearest? input others) ∧
    ∀ (s : Core.Scope) (span : Span) (name : String) (names : List String),
      (name ∉ s.known → (∀ n, n ∈ names ↔ n ∈ s.known) →
        ∃ e, Core.resolveExpr s (.var span name) = .error e ∧
          e.fault.help = (nearest? name names).map Core.ScopeFault.didYouMean) ∧
      (name ∉ s.signatures.keys → (∀ n, n ∈ names ↔ n ∈ s.signatures.keys) →
        ∀ args, ∃ e, Core.resolveExpr s (.call span name args) = .error e ∧
          e.fault.help = some (((nearest? name names).map Core.ScopeFault.didYouMean).getD
            "use @( ... ) to run an external command")) := by
  refine ⟨fun a b => editDistance_isLeast a.toList b.toList, fun input candidates => ?_,
    fun s span name names => ⟨?_, ?_⟩⟩
  · refine ⟨nearest?_eq_none_iff, fun c => ?_, fun others => nearest?_congr⟩
    rw [nearest?_eq_some_iff]
    constructor
    · rintro ⟨mem, other, near, least⟩
      exact ⟨mem, other, near, least⟩
    · rintro ⟨mem, other, near, least⟩
      exact ⟨mem, other, near, least⟩
  · intro unknown listed
    exact Core.help_of_unknown_variable unknown listed span
  · intro unknown listed args
    exact Core.help_of_unknown_function unknown listed span args

/-- Two candidates lie one edit away from the name; the first of them in the order of bytes is
suggested, from both ends of the list. -/
theorem suggestions_nearest_tie :
    editDistance "totl".toList "total".toList = 1 ∧
    editDistance "totl".toList "tota".toList = 1 ∧
    (∀ c, c ∈ ["total", "tota", "other"] ↔ c ∈ ["other", "tota", "total", "tota"]) ∧
    nearest? "totl" ["total", "tota", "other"] = some "tota" ∧
    nearest? "totl" ["other", "tota", "total", "tota"] = some "tota" := by
  have same : ∀ c, c ∈ ["total", "tota", "other"] ↔ c ∈ ["other", "tota", "total", "tota"] := by
    intro c
    simp only [List.mem_cons, List.not_mem_nil, or_false]
    tauto
  have found : nearest? "totl" ["total", "tota", "other"] = some "tota" := by decide +kernel
  have unchanged := (suggestions_nearest.2.1 "totl" ["total", "tota", "other"]).2.2 _ same
  exact ⟨by decide +kernel, by decide +kernel, same, found, unchanged ▸ found⟩

end Shellwright
