import Shellwright.Files.Tree
import Shellwright.Proofs.Outcome

/-!
# Files that are written

A write changes one place, and there was no directory there before. So each directory
on the way to that place is still one afterwards, and the path that was written to
leads to what was written.

* `Grows t t'`, `Grows.follow`: a path that led somewhere leads there still.
* `Leads t home path parent last`: the way to the place that a path writes at.
* `readText_write`, `node?_write_of_ne`: what is found after a write, there and elsewhere.
-/

namespace Shellwright.Tree

variable {t t' : Tree} {home place other parent : List String} {path : Path} {node : Node}

/-! ## One place -/

theorem lookup_filter_ne (nodes : List (List String × Node)) (ne : other ≠ place) :
    (nodes.filter (·.1 ≠ place)).lookup other = nodes.lookup other := by
  induction nodes with
  | nil => rfl
  | cons n rest ih =>
    obtain ⟨here, node⟩ := n
    by_cases same : here = place
    · rw [List.filter_cons_of_neg (by simp [same]), ih, List.lookup_cons, same,
        beq_false_of_ne ne]
    · rw [List.filter_cons_of_pos (by simp [same]), List.lookup_cons, List.lookup_cons, ih]

/-- Setting a place leaves the others alone. -/
theorem node?_set_of_ne (ne : other ≠ place) :
    (t.set place node).node? other = t.node? other := by
  unfold node? set
  rw [List.lookup_cons, beq_false_of_ne ne, lookup_filter_ne _ ne]

theorem node?_set (t : Tree) (node : Node) (inner : place ≠ []) :
    (t.set place node).node? place = some node := by
  unfold node? set
  rw [if_neg (by simpa using inner), List.lookup_cons_self]

theorem isDirectory_eq_true : t.isDirectory place = true ↔ t.node? place = some .directory := by
  unfold isDirectory
  split
  case h_1 found => exact iff_of_true rfl found
  case h_2 other => exact iff_of_false Bool.false_ne_true other

/-! ## Following paths -/

/-- The directories of a tree are directories of another one, and nothing is gone. -/
structure Grows (t t' : Tree) : Prop where
  directory : ∀ place, t.isDirectory place = true → t'.isDirectory place = true
  there : ∀ place, (t.node? place).isSome = true → (t'.node? place).isSome = true

theorem grows_set (free : t.isDirectory place = false) : Grows t (t.set place node) := by
  have differs {p : List String} (directory : t.isDirectory p = true) : p ≠ place := by
    rintro rfl
    exact Bool.false_ne_true (free.symm.trans directory)
  have inner : place ≠ [] := (differs rfl).symm
  refine ⟨fun p directory => ?_, fun p there => ?_⟩
  · rw [isDirectory_eq_true, node?_set_of_ne (differs directory)]
    exact isDirectory_eq_true.mp directory
  · by_cases same : p = place
    · rw [same, node?_set t node inner]
      rfl
    · rwa [node?_set_of_ne same]

theorem follow_cons {piece : String} {rest : List String}
    (directory : t.isDirectory place = true) :
    t.follow place (piece :: rest) =
      if piece = "" || piece = "." then t.follow place rest
      else if piece = ".." then t.follow place.dropLast rest
      else if (t.node? (place ++ [piece])).isSome then t.follow (place ++ [piece]) rest
      else .error .notFound := by
  rw [Tree.follow, directory, Bool.not_true, if_neg Bool.false_ne_true]

/-- A path that leads somewhere still does when a tree has grown. -/
theorem Grows.follow (grows : Grows t t') {pieces : List String}
    (h : t.follow place pieces = .ok other) : t'.follow place pieces = .ok other := by
  have still {p : List String} (directory : ¬ (!t.isDirectory p) = true) :
      t'.isDirectory p = true := grows.directory p (by simpa using directory)
  fun_induction Tree.follow t place pieces with
  | case1 => exact h
  | case2 | case6 => cases h
  | case3 place piece rest directory stays ih =>
    rw [follow_cons (still directory), if_pos stays]
    exact ih h
  | case4 place rest directory stays ih =>
    rw [follow_cons (still directory), if_neg stays, if_pos rfl]
    exact ih h
  | case5 place piece rest directory stays up there ih =>
    rw [follow_cons (still directory), if_neg stays, if_neg up, if_pos (grows.there _ there)]
    exact ih h

/-- A path is followed piece by piece. -/
theorem follow_append {middle : List String} {before after : List String}
    (h : t.follow place before = .ok middle) :
    t.follow place (before ++ after) = t.follow middle after := by
  fun_induction Tree.follow t place before with
  | case1 =>
    cases h
    rfl
  | case2 | case6 => cases h
  | case3 place piece rest directory stays ih =>
    rw [List.cons_append, Tree.follow, if_neg directory, if_pos stays]
    exact ih h
  | case4 place rest directory stays ih =>
    rw [List.cons_append, Tree.follow, if_neg directory, if_neg stays, if_pos rfl]
    exact ih h
  | case5 place piece rest directory stays up there ih =>
    rw [List.cons_append, Tree.follow, if_neg directory, if_neg stays, if_neg up, if_pos there]
    exact ih h

/-! ## Writing -/

/-- The way to the place at which a path writes a file: to a directory, and from there by a name
that no directory in it has. -/
structure Leads (t : Tree) (home : List String) (path : Path) (parent : List String)
    (last : String) : Prop where
  way : ∃ before, piecesOf path = before ++ [last] ∧
    t.follow (startOf home path) before = .ok parent
  directory : t.isDirectory parent = true
  name : last ≠ "" ∧ last ≠ "." ∧ last ≠ ".."
  free : t.isDirectory (parent ++ [last]) = false

/-- Where the last piece is not empty, nothing is trimmed. -/
theorem eq_append_of_dropWhile {pieces before : List String} {last : String}
    (trimmed : pieces.reverse.dropWhile (· = "") = last :: before)
    (ends : pieces.getLast? ≠ some "") : pieces = before.reverse ++ [last] := by
  rw [← List.head?_reverse] at ends
  rw [← List.reverse_reverse pieces, ← List.reverse_cons, ← trimmed]
  cases back : pieces.reverse with
  | nil => rfl
  | cons first rest =>
    rw [back] at ends
    rw [List.dropWhile_cons_of_neg (by simpa using ends)]

/-- A place that can be written to is a new or old name in a directory. -/
theorem exists_leads (h : t.destination home path = .ok place) :
    ∃ parent last, Leads t home path parent last ∧ place = parent ++ [last] := by
  unfold destination at h
  simp only at h
  split at h
  case h_1 => cases h
  case h_2 last before trimmed =>
    obtain ⟨parent, way, h⟩ := bind_eq_ok.mp h
    split at h
    case isTrue => cases h
    case isFalse directory =>
      split at h
      case isTrue => cases h
      case isFalse named =>
        split at h
        case isTrue => cases h
        case isFalse free =>
          cases h
          simp only [Bool.or_eq_true, decide_eq_true_eq, not_or] at named
          obtain ⟨⟨noDot, noDots⟩, ends⟩ := named
          have pieces := eq_append_of_dropWhile trimmed ends
          have nonempty : last ≠ "" := by
            rintro rfl
            exact ends (by rw [pieces, List.getLast?_concat])
          exact ⟨parent, last, ⟨⟨before.reverse, pieces, way⟩, by simpa using directory,
            ⟨nonempty, noDot, noDots⟩, by simpa using free⟩, rfl⟩

theorem Leads.text_isEmpty {last : String} (h : Leads t home path parent last) :
    path.text.isEmpty = false := by
  obtain ⟨before, pieces, _⟩ := h.way
  rw [Bool.eq_false_iff]
  intro empty
  have none : piecesOf path = [""] := by
    unfold piecesOf Path.chars
    rw [String.isEmpty_iff.mp empty]
    rfl
  have ends := congrArg List.getLast? (pieces.symm.trans none)
  rw [List.getLast?_concat] at ends
  exact h.name.1 (Option.some.inj ends)

/-- What has been written at the end of a path is found there. -/
theorem Leads.locate {last : String} (h : Leads t home path parent last) (grows : Grows t t')
    (there : (t'.node? (parent ++ [last])).isSome = true) :
    t'.locate home path = .ok (parent ++ [last]) := by
  obtain ⟨before, pieces, way⟩ := h.way
  obtain ⟨nonempty, noDot, noDots⟩ := h.name
  unfold Tree.locate
  rw [h.text_isEmpty, if_neg Bool.false_ne_true, pieces, follow_append (grows.follow way),
    follow_cons (grows.directory _ h.directory), if_neg (by simp [nonempty, noDot]),
    if_neg noDots, if_pos there]
  rfl

theorem fromUTF8?_toUTF8 (text : String) : String.fromUTF8? text.toUTF8 = some text := by
  unfold String.fromUTF8?
  exact dif_pos text.isValidUTF8

/-- Writing sets one place. -/
theorem exists_set_of_write {text : String} {executable : Bool}
    (h : t.write home path text executable = .ok t') :
    ∃ place runs, t.destination home path = .ok place ∧
      t' = t.set place (.file text.toUTF8 runs) := by
  obtain ⟨place, reached, h⟩ := bind_eq_ok.mp h
  cases h
  exact ⟨place, _, reached, rfl⟩

/-- What is written to a path is read from it. -/
theorem readText_write {text : String} {executable : Bool}
    (h : t.write home path text executable = .ok t') : t'.readText home path = .ok text := by
  obtain ⟨place, runs, reached, rfl⟩ := exists_set_of_write h
  obtain ⟨parent, last, leads, rfl⟩ := exists_leads reached
  have here := node?_set t (.file text.toUTF8 runs) (List.concat_ne_nil last parent)
  have located := leads.locate (grows_set leads.free) (by rw [here]; rfl)
  unfold readText
  rw [located]
  simp only [here, fromUTF8?_toUTF8]

/-- A write changes nothing but the place it writes at. -/
theorem node?_write_of_ne {text : String} {executable : Bool}
    (h : t.write home path text executable = .ok t') (ne : t.destination home path ≠ .ok other) :
    t'.node? other = t.node? other := by
  obtain ⟨place, runs, reached, rfl⟩ := exists_set_of_write h
  exact node?_set_of_ne fun same => ne (same ▸ reached)

end Shellwright.Tree
