import Mathlib.Order.Bounds.Basic
import Shellwright.Suggest

/-!
# The edit distance

The table that `editDistance` goes through row by row holds the distances between initial
parts of two texts. Here that distance is defined for itself, by recursion from the ends of
both parts, and shown to be the least number of edits; where two characters agree no edit at
that place can help.

* `Edit`, `Edits`: one character is put in, taken out or replaced, and this so many times.
* `distance`: the distance of two texts that are given backwards.
* `distance_cons`: one character more or less changes the distance by one at most.
* `nextEntries_entries`, `foldl_nextRow`: the rows of the table hold distances.
* `editDistance_isLeast`: the last entry of the last row is the least number of edits.
-/

namespace Shellwright.Suggest

/-! ## Edits -/

/-- One character of a text is put in, taken out or replaced. -/
inductive Edit : List Char → List Char → Prop
  | insert (before : List Char) (c : Char) (after : List Char) :
    Edit (before ++ after) (before ++ c :: after)
  | delete (before : List Char) (c : Char) (after : List Char) :
    Edit (before ++ c :: after) (before ++ after)
  | substitute (before : List Char) (c d : Char) (after : List Char) :
    Edit (before ++ c :: after) (before ++ d :: after)

/-- So many edits, one after the other, turn the first text into the second. -/
inductive Edits : Nat → List Char → List Char → Prop
  | none (a : List Char) : Edits 0 a a
  | more {n : Nat} {a b c : List Char} : Edit a b → Edits n b c → Edits (n + 1) a c

section

variable {n : Nat} {a b : List Char}

/-- An edit can be made behind a character. -/
theorem Edit.cons (x : Char) (h : Edit a b) : Edit (x :: a) (x :: b) := by
  cases h with
  | insert before c after => exact .insert (x :: before) c after
  | delete before c after => exact .delete (x :: before) c after
  | substitute before c d after => exact .substitute (x :: before) c d after

theorem Edits.cons (x : Char) (h : Edits n a b) : Edits n (x :: a) (x :: b) := by
  induction h with
  | none a => exact .none (x :: a)
  | more first _ ih => exact .more (first.cons x) ih

/-- An edit read backwards is an edit. -/
theorem Edit.reverse (h : Edit a b) : Edit a.reverse b.reverse := by
  cases h with
  | insert before c after => simpa using Edit.insert after.reverse c before.reverse
  | delete before c after => simpa using Edit.delete after.reverse c before.reverse
  | substitute before c d after => simpa using Edit.substitute after.reverse c d before.reverse

theorem Edits.reverse (h : Edits n a b) : Edits n a.reverse b.reverse := by
  induction h with
  | none a => exact .none a.reverse
  | more first _ ih => exact .more first.reverse ih

/-- As many edits lead from one text to another read backwards as read forwards. -/
theorem edits_reverse_iff : Edits n a.reverse b.reverse ↔ Edits n a b := by
  constructor
  · intro h
    simpa using h.reverse
  · exact Edits.reverse

end

/-! ## Distances from the ends -/

/-- The distance of two texts, given backwards: if their last characters agree, that of
what stands before; else one more than the least of the distances that remain when one of
them or both are dropped. -/
def distance : List Char → List Char → Nat
  | [], b => b.length
  | c :: a, [] => (c :: a).length
  | c :: a, d :: b =>
    if c = d then distance a b
    else 1 + min (min (distance a b) (distance a (d :: b))) (distance (c :: a) b)
termination_by a b => a.length + b.length

theorem distance_nil_left (b : List Char) : distance [] b = b.length := by
  rw [distance]

theorem distance_nil_right (a : List Char) : distance a [] = a.length := by
  cases a with
  | nil => rw [distance_nil_left]
  | cons c a => rw [distance]

/-- The recursion of the distance, character by character. -/
theorem distance_cons_cons (c d : Char) (a b : List Char) :
    distance (c :: a) (d :: b) =
      if c = d then distance a b
      else 1 + min (min (distance a b) (distance a (d :: b))) (distance (c :: a) b) := by
  rw [distance]

theorem distance_self (a : List Char) : distance a a = 0 := by
  induction a with
  | nil => rw [distance_nil_left, List.length_nil]
  | cons c a ih => rw [distance_cons_cons, if_pos rfl, ih]

/-- The distance is the same both ways. -/
theorem distance_comm (a b : List Char) : distance a b = distance b a := by
  match a, b with
  | [], b => rw [distance_nil_left, distance_nil_right]
  | c :: a, [] => rw [distance_nil_left, distance_nil_right]
  | c :: a, d :: b =>
    rw [distance_cons_cons, distance_cons_cons, distance_comm a b, distance_comm a (d :: b),
      distance_comm (c :: a) b]
    by_cases same : c = d
    · rw [if_pos same, if_pos same.symm]
    · rw [if_neg same, if_neg (Ne.symm same)]
      omega
termination_by a.length + b.length

/-- A character more or less changes the distance by one at most. -/
theorem distance_cons (c : Char) (a b : List Char) :
    distance (c :: a) b ≤ distance a b + 1 ∧ distance a b ≤ distance (c :: a) b + 1 := by
  match b with
  | [] =>
    rw [distance_nil_right, distance_nil_right, List.length_cons]
    omega
  | d :: b =>
    -- The same for the other text, which is one character shorter here.
    have shorter := distance_cons d b a
    rw [distance_comm (d :: b), distance_comm b] at shorter
    rw [distance_cons_cons]
    by_cases same : c = d
    · rw [if_pos same]
      omega
    · have rest := distance_cons c a b
      rw [if_neg same]
      omega
termination_by a.length + b.length

/-- One character more changes the distance by at most one. -/
theorem distance_cons_right (d : Char) (a b : List Char) :
    distance a (d :: b) ≤ distance a b + 1 ∧ distance a b ≤ distance a (d :: b) + 1 := by
  have left := distance_cons d b a
  rwa [distance_comm (d :: b), distance_comm b] at left

/-- Where two characters agree, putting in, taking out or replacing one of them is no gain. -/
theorem distance_cons_cons_le (c d : Char) (a b : List Char) :
    distance (c :: a) (d :: b) ≤
      1 + min (min (distance a b) (distance a (d :: b))) (distance (c :: a) b) := by
  rw [distance_cons_cons]
  by_cases same : c = d
  · have left := distance_cons c a b
    have right := distance_cons_right d a b
    rw [if_pos same]
    omega
  · rw [if_neg same]

/-! ## The least number of edits -/

section

variable {n : Nat} {a a' b : List Char}

/-- Texts that lie one edit apart everywhere still do behind a further character. -/
theorem distance_cons_le_of_forall (h : ∀ b, distance a b ≤ distance a' b + 1) (x : Char)
    (b : List Char) : distance (x :: a) b ≤ distance (x :: a') b + 1 := by
  induction b with
  | nil =>
    have lengths := h []
    rw [distance_nil_right, distance_nil_right] at lengths ⊢
    simp only [List.length_cons]
    omega
  | cons d b ih =>
    have both := h b
    have one := h (d :: b)
    rw [distance_cons_cons, distance_cons_cons]
    by_cases same : x = d
    · rw [if_pos same, if_pos same]
      exact both
    · rw [if_neg same, if_neg same]
      omega

/-- Exchanging a character changes the distance by at most one. -/
theorem distance_substitute (c d : Char) (a b : List Char) :
    distance (c :: a) b ≤ distance (d :: a) b + 1 := by
  induction b with
  | nil =>
    rw [distance_nil_right, distance_nil_right]
    exact Nat.le_succ _
  | cons e b ih =>
    have least := distance_cons_cons_le c e a b
    rw [distance_cons_cons d]
    by_cases same : d = e
    · rw [if_pos same]
      omega
    · rw [if_neg same]
      omega

/-- An edit changes the distance from any text by one at most. -/
theorem Edit.distance_le (h : Edit a a') (b : List Char) : distance a b ≤ distance a' b + 1 := by
  have behind {u u' : List Char} (step : ∀ b, distance u b ≤ distance u' b + 1)
      (before : List Char) : ∀ b, distance (before ++ u) b ≤ distance (before ++ u') b + 1 := by
    induction before with
    | nil => exact step
    | cons x before ih => exact distance_cons_le_of_forall ih x
  cases h with
  | insert before c after => exact behind (fun b => (distance_cons c after b).2) before b
  | delete before c after => exact behind (fun b => (distance_cons c after b).1) before b
  | substitute before c d after => exact behind (distance_substitute c d after) before b

/-- No fewer edits than the distance lead from one text to the other. -/
theorem Edits.distance_le (h : Edits n a b) : distance a b ≤ n := by
  induction h with
  | none a => exact Nat.le_of_eq (distance_self a)
  | more first _ ih =>
    have step := first.distance_le
    exact Nat.le_trans (step _) (Nat.succ_le_succ ih)

theorem edits_of_nil (b : List Char) : Edits b.length [] b := by
  induction b with
  | nil => exact .none []
  | cons d b ih => exact .more (.insert [] d []) (ih.cons d)

theorem edits_to_nil (a : List Char) : Edits a.length a [] := by
  induction a with
  | nil => exact .none []
  | cons c a ih => exact .more (.delete [] c a) ih

/-- As many edits as the distance says are enough. -/
theorem edits_distance (a b : List Char) : Edits (distance a b) a b := by
  fun_induction distance a b with
  | case1 b => exact edits_of_nil b
  | case2 c a => exact edits_to_nil (c :: a)
  | case3 a c b both => exact both.cons c
  | case4 c a d b other both shorter longer =>
    have substituted := Edits.more (.substitute [] c d a) (both.cons d)
    have deleted := Edits.more (.delete [] c a) shorter
    have inserted := Edits.more (.insert [] d (c :: a)) (longer.cons d)
    rw [Nat.add_comm]
    rcases Nat.le_total (min (distance a b) (distance a (d :: b))) (distance (c :: a) b)
      with le | le
    · rw [Nat.min_eq_left le]
      rcases Nat.le_total (distance a b) (distance a (d :: b)) with le | le
      · rw [Nat.min_eq_left le]
        exact substituted
      · rw [Nat.min_eq_right le]
        exact deleted
    · rw [Nat.min_eq_right le]
      exact inserted

/-- The distance is the least number of edits. -/
theorem distance_isLeast (a b : List Char) : IsLeast {n | Edits n a b} (distance a b) :=
  ⟨edits_distance a b, fun _ edits => edits.distance_le⟩

end

/-! ## Rows of the table -/

/-- The distances of a text from the texts that begin with `b` and take one more character of
`ds` each; all texts but `ds` are given backwards. -/
def entries (a b : List Char) : List Char → List Nat
  | [] => []
  | d :: ds => distance a (d :: b) :: entries a (d :: b) ds

/-- The row of the table that belongs to `a`, which is given backwards. -/
def row (b a : List Char) : List Nat := distance a [] :: entries a [] b

/-- What is carried along a row, the entry above-left and the entry left, are distances too. -/
theorem nextEntries_entries (c : Char) (a b ds : List Char) :
    nextEntries c ds (distance a b) (distance (c :: a) b) (entries a b ds) =
      entries (c :: a) b ds := by
  induction ds generalizing b with
  | nil => rfl
  | cons d ds ih =>
    have here := distance_cons_cons c d a b
    rw [entries, entries, nextEntries, ← here, ih]

/-- From the row of a text the row of the text with one character more is computed. -/
theorem nextRow_row (b a : List Char) (c : Char) : nextRow b (row b a) c = row b (c :: a) := by
  have first : distance a [] + 1 = distance (c :: a) [] := by
    rw [distance_nil_right, distance_nil_right, List.length_cons]
  rw [row, nextRow, first, nextEntries_entries, row]

theorem entries_nil (b ds : List Char) :
    entries [] b ds = List.range' (b.length + 1) ds.length := by
  induction ds generalizing b with
  | nil => rfl
  | cons d ds ih => rw [entries, ih, distance_nil_left, List.length_cons, List.length_cons,
      List.range'_succ]

/-- The first row counts the characters to be put in. -/
theorem row_nil (b : List Char) : row b [] = List.range (b.length + 1) := by
  rw [row, entries_nil, distance_nil_left, List.range_eq_range', List.range'_succ,
    List.length_nil]

/-- The rows below the row of `a`, as the characters of `cs` are added to it. -/
theorem foldl_nextRow (b a cs : List Char) :
    cs.foldl (nextRow b) (row b a) = row b (cs.reverse ++ a) := by
  induction cs generalizing a with
  | nil => rfl
  | cons c cs ih => rw [List.foldl_cons, nextRow_row, ih, List.reverse_cons, List.append_assoc,
      List.singleton_append]

/-- The last entry of a row is the distance to the whole text. -/
theorem getLast?_entries (a b ds : List Char) :
    (distance a b :: entries a b ds).getLast? = some (distance a (ds.reverse ++ b)) := by
  induction ds generalizing b with
  | nil => rfl
  | cons d ds ih =>
    rw [entries, List.getLast?_cons_cons, ih, List.reverse_cons, List.append_assoc,
      List.singleton_append]

/-- The distance that is computed is that of the texts read backwards. -/
theorem editDistance_eq (a b : List Char) : editDistance a b = distance a.reverse b.reverse := by
  have last := getLast?_entries a.reverse [] b
  rw [List.append_nil] at last
  rw [editDistance, ← row_nil, foldl_nextRow, List.append_nil, row, last, Option.getD_some]

/-- The distance is the least number of characters that have to be put in, taken out or
replaced. -/
theorem editDistance_isLeast (a b : List Char) :
    IsLeast {n | Edits n a b} (editDistance a b) := by
  have least := distance_isLeast a.reverse b.reverse
  simp only [edits_reverse_iff] at least
  rwa [editDistance_eq]

end Shellwright.Suggest
