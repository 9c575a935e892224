import Shellwright.Proofs.Slices
import Shellwright.Source.Diagnostic

/-!
# Lines, columns and marks

Offsets count bytes and columns count characters, and where a line begins is looked up in a table
of offsets. What comes out of it is said here by the text alone: a line lies between two
newlines, and a place is in the line that the last newline before it begins.

* `pairwise_lineStarts`, `LastUpTo.search_eq`: the table of line starts is in order, and what a
  search in it finds.
* `lastLine`, `firstLine`: what a text has of its last and of its first line.
* `HasLine`, `HasLine.lineText_eq`: a line between what stands before and behind it.
* `lineCol_lineText`: line, column and text of a line, for all places and all lines.
* `Diagnostic.Marks`, `located_marks`: the mark below a line stands under the characters meant.
-/

namespace Shellwright

open Text (byteSize)

namespace Source

/-! ## The table of line starts -/

/-- A line begins after each newline. -/
theorem breaksFrom_newline (pos : Nat) (cs : List Char) :
    breaksFrom pos ('\n' :: cs) = (pos + 1) :: breaksFrom (pos + 1) cs := by
  rw [breaksFrom, if_pos rfl]

/-- The line starts of a text are those of its first part and, further on, those of its
second. -/
theorem breaksFrom_append (pos : Nat) (a b : List Char) :
    breaksFrom pos (a ++ b) = breaksFrom pos a ++ breaksFrom (pos + byteSize a) b := by
  induction a generalizing pos with
  | nil => rfl
  | cons c a ih =>
    rw [List.cons_append, breaksFrom, breaksFrom, byteSize, ← Nat.add_assoc]
    by_cases newline : c = '\n'
    · subst newline
      rw [if_pos rfl, if_pos rfl, ih, List.cons_append]
      rfl
    · rw [if_neg newline, if_neg newline, ih]

/-- Without newline no line begins. -/
theorem breaksFrom_of_not_mem {cs : List Char} (h : '\n' ∉ cs) (pos : Nat) :
    breaksFrom pos cs = [] := by
  induction cs generalizing pos with
  | nil => rfl
  | cons c cs ih =>
    obtain ⟨other, rest⟩ := not_or.mp (mt List.mem_cons.mpr h)
    rw [breaksFrom, if_neg (Ne.symm other), ih rest]

/-- As many lines begin as there are newlines. -/
theorem length_breaksFrom (pos : Nat) (cs : List Char) :
    (breaksFrom pos cs).length = cs.count '\n' := by
  induction cs generalizing pos with
  | nil => rfl
  | cons c cs ih =>
    rw [breaksFrom, List.count_cons]
    by_cases newline : c = '\n'
    · rw [if_pos newline, List.length_cons, ih, if_pos (beq_iff_eq.mpr newline)]
    · rw [if_neg newline, ih, if_neg (mt beq_iff_eq.mp newline), Nat.add_zero]

/-- Each line but the first begins behind a newline of the text. -/
theorem breaksFrom_bounds {pos start : Nat} {cs : List Char} (mem : start ∈ breaksFrom pos cs) :
    pos < start ∧ start ≤ pos + byteSize cs := by
  induction cs generalizing pos with
  | nil => cases mem
  | cons c cs ih =>
    have := c.utf8Size_pos
    rw [byteSize]
    rw [breaksFrom] at mem
    split at mem
    · rcases List.mem_cons.mp mem with rfl | later
      · omega
      · have := ih later
        omega
    · have := ih mem
      omega

/-- Lines begin one after the other. -/
theorem pairwise_breaksFrom (pos : Nat) (cs : List Char) :
    (breaksFrom pos cs).Pairwise (· < ·) := by
  induction cs generalizing pos with
  | nil => exact .nil
  | cons c cs ih =>
    rw [breaksFrom]
    split
    · exact List.pairwise_cons.mpr ⟨fun start mem => (breaksFrom_bounds mem).1, ih _⟩
    · exact ih _

/-- The table of line starts is strictly increasing. -/
theorem pairwise_lineStarts (s : Source) : s.lineStarts.Pairwise (· < ·) :=
  List.pairwise_cons.mpr
    ⟨fun _ mem => Nat.zero_lt_of_lt (breaksFrom_bounds mem).1, pairwise_breaksFrom 0 s.chars⟩

/-! ## Looking a place up -/

/-- The entry `start`, at index `k`, is the last one of a table that is not past `pos`. -/
structure LastUpTo (table : List Nat) (pos k start : Nat) : Prop where
  found : table[k]? = some start
  le : start ≤ pos
  next : ∀ later, table[k + 1]? = some later → pos < later

/-- Up to a place at or after the first entry there is a last entry. -/
theorem exists_lastUpTo {pos first : Nat} (le : first ≤ pos) (rest : List Nat) :
    ∃ k start, LastUpTo (first :: rest) pos k start := by
  induction rest generalizing first with
  | nil => exact ⟨0, first, rfl, le, by intro later found; cases found⟩
  | cons next rest ih =>
    by_cases reached : next ≤ pos
    · obtain ⟨k, start, last⟩ := ih reached
      exact ⟨k + 1, start, last.found, last.le, last.next⟩
    · refine ⟨0, first, rfl, le, fun later found => ?_⟩
      cases found
      exact Nat.lt_of_not_le reached

/-- A search goes on behind an entry that is less. -/
theorem search_cons {pos first : Nat} (less : first < pos) (rest : List Nat) :
    search pos (first :: rest) =
      match search pos rest with
      | .ok index => .ok (index + 1)
      | .error index => .error (index + 1) := by
  have other : (first == pos) = false := beq_false_of_ne (Nat.ne_of_lt less)
  have counted : (first :: rest).countP (· < pos) = rest.countP (· < pos) + 1 :=
    List.countP_cons_of_pos (decide_eq_true less)
  unfold search
  rw [List.idxOf?_cons, other, counted]
  cases rest.idxOf? pos <;> rfl

/-- An offset before all entries would be put in first. -/
theorem search_of_lt {pos : Nat} {table : List Nat} (late : ∀ entry ∈ table, pos < entry) :
    search pos table = .error 0 := by
  have absent : table.idxOf? pos = none :=
    List.idxOf?_eq_none_iff.mpr fun mem => Nat.lt_irrefl pos (late pos mem)
  have none : table.countP (· < pos) = 0 :=
    List.countP_eq_zero.mpr fun entry mem => by
      have := late entry mem
      simp only [decide_eq_true_eq]
      omega
  unfold search
  rw [absent, none]

/-- In a table in order an offset is found at its last entry up to there, or would be
put in behind that. -/
theorem LastUpTo.search_eq {table : List Nat} {pos k start : Nat}
    (h : LastUpTo table pos k start) (increasing : table.Pairwise (· < ·)) :
    search pos table = if start = pos then .ok k else .error (k + 1) := by
  obtain ⟨found, le, next⟩ := h
  induction k generalizing table with
  | zero =>
    cases table with
    | nil => cases found
    | cons first rest =>
      cases found
      have late : ∀ entry ∈ rest, pos < entry := by
        cases rest with
        | nil => exact fun _ mem => nomatch mem
        | cons second rest =>
          have less := next second rfl
          have later := (List.pairwise_cons.mp (List.pairwise_cons.mp increasing).2).1
          intro entry mem
          rcases List.mem_cons.mp mem with rfl | mem
          · exact less
          · exact Nat.lt_trans less (later entry mem)
      by_cases same : start = pos
      · subst same
        rw [if_pos rfl, search, List.idxOf?_cons, beq_self_eq_true]
        rfl
      · rw [if_neg same, search_cons (Nat.lt_of_le_of_ne le same), search_of_lt late]
  | succ k ih =>
    cases table with
    | nil => cases found
    | cons first rest =>
      obtain ⟨later, increasing⟩ := List.pairwise_cons.mp increasing
      have less : first < pos := Nat.lt_of_lt_of_le (later start (List.mem_of_getElem? found)) le
      rw [search_cons less, ih increasing found next]
      by_cases same : start = pos
      · rw [if_pos same, if_pos same]
      · rw [if_neg same, if_neg same]

/-- The line of a place is the last one that starts at or before it. -/
theorem LastUpTo.lineIndex_eq {s : Source} {pos k start : Nat}
    (h : LastUpTo s.lineStarts pos k start) :
    s.lineIndex pos = k := by
  unfold lineIndex
  rw [h.search_eq s.pairwise_lineStarts]
  by_cases same : start = pos
  · rw [if_pos same]
  · rw [if_neg same]
    exact Nat.add_sub_cancel k 1

end Source

/-! ## Pieces of lines -/

namespace Text

/-- What stands behind the last newline of a text; all of it if there is none. -/
def lastLine (cs : List Char) : List Char := (cs.reverse.takeWhile (· ≠ '\n')).reverse

/-- What stands before the first newline of a text; all of it if there is none. -/
def firstLine (cs : List Char) : List Char := cs.takeWhile (· ≠ '\n')

/-- The text is nothing, or a newline is its end. -/
def BeginsLine (cs : List Char) : Prop := cs = [] ∨ ∃ upTo, cs = upTo ++ ['\n']

/-- The text is nothing, or a newline is its beginning. -/
def EndsLine (cs : List Char) : Prop := cs = [] ∨ ∃ rest, cs = '\n' :: rest

theorem newline_not_mem_firstLine (cs : List Char) : '\n' ∉ firstLine cs := by
  intro mem
  have passed := List.all_eq_true.mp (List.all_takeWhile (p := (· ≠ '\n')) (l := cs)) '\n' mem
  simp at passed

theorem newline_not_mem_lastLine (cs : List Char) : '\n' ∉ lastLine cs :=
  fun mem => newline_not_mem_firstLine cs.reverse (List.mem_reverse.mp mem)

/-- What follows the first line of a text begins with a newline, if there is anything. -/
theorem exists_firstLine (cs : List Char) :
    ∃ back, cs = firstLine cs ++ back ∧ EndsLine back := by
  refine ⟨cs.dropWhile (· ≠ '\n'), List.takeWhile_append_dropWhile.symm, ?_⟩
  have stop := List.head?_dropWhile_not (· ≠ '\n') cs
  cases rest : cs.dropWhile (· ≠ '\n') with
  | nil => exact .inl rfl
  | cons c rest' =>
    rw [rest] at stop
    have newline : c = '\n' := by simpa using stop
    exact .inr ⟨rest', by rw [newline]⟩

/-- What stands before the last line of a text ends in a newline, if there is anything. -/
theorem exists_lastLine (cs : List Char) :
    ∃ front, cs = front ++ lastLine cs ∧ BeginsLine front := by
  obtain ⟨back, whole, ends⟩ := exists_firstLine cs.reverse
  refine ⟨back.reverse, ?_, ?_⟩
  · calc cs = cs.reverse.reverse := (List.reverse_reverse cs).symm
      _ = (firstLine cs.reverse ++ back).reverse := congrArg List.reverse whole
      _ = back.reverse ++ lastLine cs := List.reverse_append
  · rcases ends with rfl | ⟨rest, rfl⟩
    · exact .inl rfl
    · exact .inr ⟨rest.reverse, List.reverse_cons⟩

/-- A first line without newline goes on in the text after it. -/
theorem firstLine_append {cs : List Char} (h : '\n' ∉ cs) (rest : List Char) :
    firstLine (cs ++ rest) = cs ++ firstLine rest := by
  refine List.takeWhile_append_of_pos fun c mem => decide_eq_true ?_
  rintro rfl
  exact h mem

theorem count_newline_append_lastLine {front cs : List Char}
    (whole : cs = front ++ lastLine cs) :
    front.count '\n' = cs.count '\n' := by
  have none := List.count_eq_zero.mpr (newline_not_mem_lastLine cs)
  have counted := congrArg (List.count '\n') whole
  rw [List.count_append, none, Nat.add_zero] at counted
  exact counted.symm

/-- Splitting at newlines gives one piece more than there are newlines. -/
theorem length_splitOn_newline (cs : List Char) :
    (cs.splitOn '\n').length = cs.count '\n' + 1 := by
  induction cs with
  | nil => rfl
  | cons c cs ih =>
    rw [List.splitOn_cons_eq_if_modifyHead, List.count_cons]
    split
    · rw [List.length_cons, ih]
    · rw [List.length_modifyHead, ih]

end Text

namespace Source

open Text (lastLine firstLine BeginsLine EndsLine)

variable {s : Source} {front line back : List Char}

/-- The last line start of a text that ends with a newline is the end of the text. -/
theorem getLast?_breaksFrom (h : BeginsLine front) :
    (breaksFrom 0 front).getLast?.getD 0 = byteSize front := by
  rcases h with rfl | ⟨upTo, rfl⟩
  · rfl
  · rw [breaksFrom_append, breaksFrom_newline, Text.byteSize_append]
    simp [breaksFrom, byteSize]
    rfl

/-! ## Lines -/

/-- The text has this line, between what stands before and behind it. -/
structure HasLine (s : Source) (front line back : List Char) : Prop where
  whole : s.chars = front ++ (line ++ back)
  begins : BeginsLine front
  single : '\n' ∉ line
  ends : EndsLine back

/-- The table of line starts has the lines before a line, the line, and those behind it. -/
theorem HasLine.lineStarts_eq (h : s.HasLine front line back) :
    s.lineStarts = (0 :: breaksFrom 0 front) ++
      breaksFrom (byteSize front + byteSize line) back := by
  rw [lineStarts, h.whole, breaksFrom_append, breaksFrom_append, breaksFrom_of_not_mem h.single,
    Nat.zero_add, List.nil_append, List.cons_append]

/-- A line begins where the text before it ends, and its number is that of the newlines there. -/
theorem HasLine.getElem?_lineStarts (h : s.HasLine front line back) :
    s.lineStarts[front.count '\n']? = some (byteSize front) := by
  have count : (breaksFrom 0 front).length = front.count '\n' := length_breaksFrom 0 front
  have last := List.getLast?_eq_getElem? (l := 0 :: breaksFrom 0 front)
  rw [List.length_cons, Nat.add_sub_cancel, count, List.getLast?_cons,
    getLast?_breaksFrom h.begins] at last
  rw [h.lineStarts_eq, List.getElem?_append_left (by simp [count]), ← last]

/-- The line after it begins behind the first newline after it. -/
theorem HasLine.getElem?_lineStarts_next (h : s.HasLine front line back) :
    s.lineStarts[front.count '\n' + 1]? =
      (breaksFrom (byteSize front + byteSize line) back)[0]? := by
  have count : (breaksFrom 0 front).length = front.count '\n' := length_breaksFrom 0 front
  rw [h.lineStarts_eq, List.getElem?_append_right (by simp [count]), List.length_cons, count,
    Nat.sub_self]

/-- The text of a line is found by its number. -/
theorem HasLine.lineText_eq (h : s.HasLine front line back) :
    s.lineText (front.count '\n' + 1) = String.ofList line := by
  have cut := congrArg String.ofList (slice_append h.whole)
  rw [lineText, h.getElem?_lineStarts, h.getElem?_lineStarts_next]
  dsimp only
  rcases h.ends with rfl | ⟨rest, rfl⟩
  · have size : s.size = byteSize front + byteSize line := by
      rw [Source.size, h.whole, List.append_nil, Text.byteSize_append]
    rw [← size] at cut
    exact cut
  · rw [breaksFrom_newline]
    exact cut

/-- Of all lines, the one that holds a place begins last before it. -/
theorem HasLine.lastUpTo (h : s.HasLine front line back) {pos : Nat} (le : byteSize front ≤ pos)
    (within : pos ≤ byteSize front + byteSize line) :
    LastUpTo s.lineStarts pos (front.count '\n') (byteSize front) := by
  refine ⟨h.getElem?_lineStarts, le, fun later found => ?_⟩
  rw [h.getElem?_lineStarts_next] at found
  exact Nat.lt_of_le_of_lt within (breaksFrom_bounds (List.mem_of_getElem? found)).1

/-- The line of a place is what stands around it up to the newlines on both sides. -/
theorem exists_hasLine {before after : List Char} (whole : s.chars = before ++ after) :
    ∃ front back, s.HasLine front (lastLine before ++ firstLine after) back ∧
      before = front ++ lastLine before := by
  obtain ⟨front, left, begins⟩ := Text.exists_lastLine before
  obtain ⟨back, right, ends⟩ := Text.exists_firstLine after
  refine ⟨front, back, ⟨?_, begins, ?_, ends⟩, left⟩
  · calc s.chars = before ++ after := whole
      _ = (front ++ lastLine before) ++ (firstLine after ++ back) := by rw [← left, ← right]
      _ = front ++ (lastLine before ++ firstLine after ++ back) := by simp
  · intro mem
    rcases List.mem_append.mp mem with mem | mem
    · exact Text.newline_not_mem_lastLine before mem
    · exact Text.newline_not_mem_firstLine after mem

/-- At any place of a text, the line there is the end of what comes before and the beginning
of what comes after. -/
theorem lineText_append {before after : List Char} (whole : s.chars = before ++ after) :
    s.lineText (before.count '\n' + 1) = String.ofList (lastLine before ++ firstLine after) := by
  obtain ⟨front, back, hasLine, left⟩ := exists_hasLine whole
  rw [← Text.count_newline_append_lastLine left]
  exact hasLine.lineText_eq

/-- The column counts the characters of the line before the place. -/
theorem lineCol_append {before after : List Char} (whole : s.chars = before ++ after) {pos : Nat}
    (here : s.clip pos = byteSize before) :
    s.lineCol pos = (before.count '\n' + 1, (lastLine before).length + 1) := by
  obtain ⟨front, back, hasLine, left⟩ := exists_hasLine whole
  have size : byteSize before = byteSize front + byteSize (lastLine before) := by
    rw [← Text.byteSize_append, ← left]
  have last : LastUpTo s.lineStarts (byteSize before) (front.count '\n') (byteSize front) :=
    hasLine.lastUpTo (by omega) (by rw [Text.byteSize_append]; omega)
  have start : s.lineStarts.getD (front.count '\n') 0 = byteSize front := by
    rw [List.getD_eq_getElem?_getD, last.found, Option.getD_some]
  have cut : s.slice ⟨byteSize front, byteSize before⟩ = lastLine before := by
    have split : s.chars = front ++ (lastLine before ++ after) := by
      rw [whole, ← List.append_assoc, ← left]
    rw [size]
    exact slice_append split
  rw [← Text.count_newline_append_lastLine left]
  simp only [lineCol, here, last.lineIndex_eq, start, cut]

/-- The pieces between newlines are the lines, behind a part of the text that
ends with a newline. -/
theorem exists_hasLine_of_splitOn {before cs piece : List Char} {k : Nat}
    (whole : s.chars = before ++ cs) (begins : BeginsLine before)
    (found : (cs.splitOn '\n')[k]? = some piece) :
    ∃ front back, s.HasLine front piece back ∧ front.count '\n' = before.count '\n' + k := by
  induction k generalizing before cs with
  | zero =>
    obtain ⟨back, split, ends⟩ := Text.exists_firstLine cs
    have single := Text.newline_not_mem_firstLine cs
    have first : piece = firstLine cs := by
      rw [split] at found
      rcases ends with rfl | ⟨rest, rfl⟩
      · rw [List.append_nil, List.splitOn_eq_singleton single] at found
        exact (Option.some.inj found).symm
      · rw [List.splitOn_append_cons_self_of_not_mem single] at found
        exact (Option.some.inj found).symm
    subst first
    exact ⟨before, back, ⟨by rw [whole, ← split], begins, single, ends⟩, rfl⟩
  | succ k ih =>
    obtain ⟨back, split, ends⟩ := Text.exists_firstLine cs
    have single := Text.newline_not_mem_firstLine cs
    have none := List.count_eq_zero.mpr single
    rw [split] at found
    rcases ends with rfl | ⟨rest, rfl⟩
    · rw [List.append_nil, List.splitOn_eq_singleton single] at found
      cases found
    · rw [List.splitOn_append_cons_self_of_not_mem single, List.getElem?_cons_succ] at found
      have further : s.chars = (before ++ firstLine cs ++ ['\n']) ++ rest :=
        calc s.chars = before ++ cs := whole
          _ = before ++ (firstLine cs ++ '\n' :: rest) := by rw [← split]
          _ = (before ++ firstLine cs ++ ['\n']) ++ rest := by simp
      obtain ⟨front, back, hasLine, count⟩ := ih further (.inr ⟨_, rfl⟩) found
      refine ⟨front, back, hasLine, ?_⟩
      rw [count, List.count_append, List.count_append, none, List.count_singleton_self]
      omega

/-- The lines of a text are the pieces between newlines. -/
theorem lineText_of_splitOn {k : Nat} {piece : List Char}
    (found : (s.chars.splitOn '\n')[k]? = some piece) :
    s.lineText (k + 1) = String.ofList piece := by
  have whole : s.chars = [] ++ s.chars := rfl
  obtain ⟨front, back, hasLine, count⟩ := exists_hasLine_of_splitOn whole (.inl rfl) found
  rw [List.count_nil, Nat.zero_add] at count
  rw [← count]
  exact hasLine.lineText_eq

/-- Behind the last line there are only empty ones. -/
theorem lineText_of_lt {k : Nat} (h : s.chars.count '\n' < k) : s.lineText (k + 1) = "" := by
  have absent : s.lineStarts[k]? = none := by
    refine List.getElem?_eq_none ?_
    rw [lineStarts, List.length_cons, length_breaksFrom]
    exact h
  rw [lineText, absent]

/-- With newlines between, the lines of a text are the text. -/
theorem intercalate_lineText (s : Source) :
    "\n".intercalate ((List.range (s.chars.count '\n' + 1)).map fun k => s.lineText (k + 1)) =
      s.text := by
  have pieces : (List.range (s.chars.count '\n' + 1)).map (fun k => s.lineText (k + 1)) =
      (s.chars.splitOn '\n').map String.ofList := by
    refine List.ext_getElem? fun k => ?_
    rw [← Text.length_splitOn_newline, List.getElem?_map, List.getElem?_map]
    cases found : (s.chars.splitOn '\n')[k]? with
    | none =>
      have beyond := List.getElem?_eq_none_iff.mp found
      rw [List.getElem?_eq_none (by simpa using beyond)]
      rfl
    | some piece =>
      obtain ⟨less, -⟩ := List.getElem?_eq_some_iff.mp found
      rw [List.getElem?_range less, Option.map_some, Option.map_some, lineText_of_splitOn found]
  rw [← String.toList_inj, String.toList_intercalate, pieces, List.map_map]
  have back : String.toList ∘ String.ofList = id := funext fun cs => String.toList_ofList
  rw [back, List.map_id]
  exact List.intercalate_splitOn '\n'

end Source

namespace Source

open Text (lastLine firstLine)

/-- For every text: a place, moved back to the end if it lies past it, is in the line after as
many newlines as stand before it, and as many characters behind the last of them; lines are the
pieces between newlines, there are no others, and with newlines between them they are the text;
and the line of a place is the one around it. -/
theorem lineCol_lineText (s : Source) :
    (∀ pos, s.IsBoundary (min pos s.size) → ∃ before after, s.chars = before ++ after ∧
      byteSize before = min pos s.size ∧
      s.lineCol pos = (1 + before.count '\n', 1 + (lastLine before).length) ∧
      s.lineText (s.lineCol pos).1 = String.ofList (lastLine before ++ firstLine after)) ∧
    (∀ k, 1 ≤ k → k ≤ s.chars.count '\n' + 1 → ∃ piece,
      (s.chars.splitOn '\n')[k - 1]? = some piece ∧ s.lineText k = String.ofList piece) ∧
    (∀ k, ¬(1 ≤ k ∧ k ≤ s.chars.count '\n' + 1) → s.lineText k = "") ∧
    "\n".intercalate ((List.range (s.chars.count '\n' + 1)).map fun k => s.lineText (k + 1)) =
      s.text := by
  refine ⟨fun pos boundary => ?_, fun k positive within => ?_, fun k outside => ?_,
    s.intercalate_lineText⟩
  · obtain ⟨before, after, whole, size⟩ := isBoundary_iff.mp boundary
    have here : s.clip pos = byteSize before := size.symm
    have place := lineCol_append whole here
    refine ⟨before, after, whole, size, ?_, ?_⟩
    · rw [place, Nat.add_comm 1, Nat.add_comm 1]
    · rw [place]
      exact lineText_append whole
  · have less : k - 1 < (s.chars.splitOn '\n').length := by
      rw [Text.length_splitOn_newline]
      omega
    have found := List.getElem?_eq_getElem less
    have text := lineText_of_splitOn found
    rw [Nat.sub_add_cancel positive] at text
    exact ⟨_, found, text⟩
  · match k with
    | 0 => rfl
    | k + 1 => exact lineText_of_lt (by omega)

/-- A place behind a character of two bytes and an empty line, and one past the end. -/
theorem lineCol_lineText_sample :
    (∃ before after, (⟨"é\n\nab\n"⟩ : Source).chars = before ++ after ∧ byteSize before = 5 ∧
      (⟨"é\n\nab\n"⟩ : Source).lineCol 5 =
        (1 + before.count '\n', 1 + (lastLine before).length) ∧
      (⟨"é\n\nab\n"⟩ : Source).lineText 3 = String.ofList (lastLine before ++ firstLine after)) ∧
    (⟨"é\n\nab\n"⟩ : Source).lineCol 5 = (3, 2) ∧ (⟨"é\n\nab\n"⟩ : Source).lineCol 100 = (4, 1) ∧
    (⟨"é\n\nab\n"⟩ : Source).lineText 5 = "" := by
  obtain ⟨places, -, outside, -⟩ := lineCol_lineText ⟨"é\n\nab\n"⟩
  have five : (⟨"é\n\nab\n"⟩ : Source).lineCol 5 = (3, 2) := by decide +kernel
  have size : min 5 (⟨"é\n\nab\n"⟩ : Source).size = 5 := by decide +kernel
  have here := places 5 (by decide +kernel)
  rw [five, size] at here
  exact ⟨by rw [five]; exact here, five, by decide +kernel, outside 5 (by decide +kernel)⟩

end Source

/-! ## Marks -/

namespace Diagnostic

open Source
open Text (lastLine firstLine)

variable {s : Source} {span : Span} {before inside after : List Char}

/-- The last line of the text is a caret and tildes under the line above it, and none of them
stands past the end of that line, unless a caret alone stands just behind its last character. -/
structure Marks (text line : List Char) (indent tildes : Nat) : Prop where
  lines : ∃ top, text.splitOn '\n' =
    top ++ [line, List.replicate indent ' ' ++ '^' :: List.replicate tildes '~']
  fits : indent + 1 + tildes ≤ line.length ∨ tildes = 0 ∧ indent = line.length

/-- How many tildes stand under a span: one for each character but the first, if all
are on a line. -/
def tildes (inside : List Char) : Nat :=
  if inside ≠ [] ∧ '\n' ∉ inside then inside.length - 1 else 0

/-- A span stays within a line just if no newline is under it. -/
theorem sameLine_iff (whole : s.chars = before ++ (inside ++ after))
    (start : s.clip span.start = byteSize before)
    (stop : s.clip span.stop = byteSize before + byteSize inside) :
    (s.lineCol span.start).1 = (s.lineCol span.stop).1 ↔ '\n' ∉ inside := by
  have regroup : s.chars = (before ++ inside) ++ after := by rw [whole, List.append_assoc]
  rw [← Text.byteSize_append] at stop
  rw [lineCol_append whole start, lineCol_append regroup stop, List.count_append,
    ← List.count_eq_zero]
  omega

/-- The line of marks, by line and column. -/
theorem markLine_eq (s : Source) (span : Span) :
    markLine s span = run ' ' ((s.lineCol span.start).2 - 1) ++ "^" ++
      run '~' ((if (s.lineCol span.start).1 = (s.lineCol span.stop).1 then
        (s.slice ⟨s.clip span.start, s.clip span.stop⟩).length else 1) - 1) := rfl

/-- The same line, by what stands before and under the span. -/
theorem markLine_append (whole : s.chars = before ++ (inside ++ after))
    (start : s.clip span.start = byteSize before)
    (stop : s.clip span.stop = byteSize before + byteSize inside) :
    markLine s span = run ' ' (lastLine before).length ++ "^" ++ run '~' (tildes inside) := by
  have same := sameLine_iff whole start stop
  have cut := slice_append whole
  rw [← stop, ← start] at cut
  have width : (if (s.lineCol span.start).1 = (s.lineCol span.stop).1 then inside.length
      else 1) - 1 = tildes inside := by
    unfold tildes
    by_cases single : '\n' ∈ inside
    · rw [if_neg (fun lines => same.mp lines single), if_neg (fun both => both.2 single)]
    · rw [if_pos (same.mpr single)]
      by_cases empty : inside = []
      · rw [if_neg (fun both => both.1 empty), empty]
        rfl
      · rw [if_pos ⟨empty, single⟩]
  rw [markLine_eq, cut, width, lineCol_append whole start, Nat.add_sub_cancel]

/-- The marks do not go beyond the line, unless the span stands at its end. -/
theorem mark_fits (before inside after : List Char) :
    (lastLine before).length + 1 + tildes inside ≤
        (lastLine before ++ firstLine (inside ++ after)).length ∨
      tildes inside = 0 ∧
        (lastLine before).length = (lastLine before ++ firstLine (inside ++ after)).length := by
  rw [List.length_append]
  unfold tildes
  split
  · next both =>
    have positive := List.length_pos_iff.mpr both.1
    rw [Text.firstLine_append both.2, List.length_append]
    omega
  · omega

/-- The characters of the line of marks. -/
theorem toList_markLine (whole : s.chars = before ++ (inside ++ after))
    (start : s.clip span.start = byteSize before)
    (stop : s.clip span.stop = byteSize before + byteSize inside) :
    (markLine s span).toList = List.replicate (lastLine before).length ' ' ++
      '^' :: List.replicate (tildes inside) '~' := by
  rw [markLine_append whole start stop]
  simp [run]

/-- The last two lines of a message with a place are the line and its marks. -/
theorem toList_located (s : Source) (file : String) (base : Option Path) (message : String)
    (span : Span) :
    ∃ top, (located s file base message span).toList =
      top ++ '\n' :: ((s.lineText (s.lineCol span.start).1).toList ++
        '\n' :: (markLine s span).toList) := by
  refine ⟨(Path.shown ⟨file⟩ base ++ ":" ++ toString (s.lineCol span.start).1 ++ ":" ++
    toString (s.lineCol span.start).2 ++ ": " ++ message).toList, ?_⟩
  simp [located]

/-- A text that ends with two lines has them last. -/
theorem splitOn_last_two {top line mark : List Char} (single : '\n' ∉ line)
    (single' : '\n' ∉ mark) :
    (top ++ '\n' :: (line ++ '\n' :: mark)).splitOn '\n' = top.splitOn '\n' ++ [line, mark] := by
  rw [List.splitOn_append_cons_self, List.splitOn_append_cons_self_of_not_mem single,
    List.splitOn_eq_singleton single']

/-- Under the line of its first character a span is marked by a caret there, and by a tilde for
each further character if all are on that line; where nothing is under the span, or a newline, by
the caret alone. No mark stands past the end of the line but a caret just behind it. -/
theorem located_marks (s : Source) (file : String) (base : Option Path) (message : String)
    (span : Span) (ordered : span.start ≤ span.stop)
    (starts : s.IsBoundary (min span.start s.size))
    (stops : s.IsBoundary (min span.stop s.size)) :
    ∃ before inside after, s.chars = before ++ (inside ++ after) ∧
      min span.start s.size = byteSize before ∧
      min span.stop s.size = byteSize before + byteSize inside ∧
      ((s.lineCol span.start).1 = (s.lineCol span.stop).1 ↔ '\n' ∉ inside) ∧
      (s.lineCol span.start).2 = (lastLine before).length + 1 ∧
      s.lineText (s.lineCol span.start).1 =
        String.ofList (lastLine before ++ firstLine (inside ++ after)) ∧
      Marks (located s file base message span).toList
        (lastLine before ++ firstLine (inside ++ after)) ((s.lineCol span.start).2 - 1)
        (tildes inside) := by
  have covers : s.Covers ⟨s.clip span.start, s.clip span.stop⟩ :=
    ⟨by simp only [clip]; omega, stops.le_size, starts, stops⟩
  obtain ⟨before, inside, after, whole, place⟩ := covers.exists_append
  obtain ⟨start, stop⟩ := Span.mk.inj place
  have begins := lineCol_append whole start
  have line := lineText_append whole
  have mark := toList_markLine whole start stop
  refine ⟨before, inside, after, whole, start, stop, sameLine_iff whole start stop,
    by rw [begins], by rw [begins, line], ?_⟩
  rw [begins, Nat.add_sub_cancel]
  refine ⟨?_, mark_fits before inside after⟩
  have single : '\n' ∉ lastLine before ++ firstLine (inside ++ after) := by
    rw [List.mem_append, not_or]
    exact ⟨Text.newline_not_mem_lastLine _, Text.newline_not_mem_firstLine _⟩
  have single' : '\n' ∉ List.replicate (lastLine before).length ' ' ++
      '^' :: List.replicate (tildes inside) '~' := by
    simp [List.mem_replicate]
  obtain ⟨top, text⟩ := toList_located s file base message span
  rw [begins, line, String.toList_ofList, mark] at text
  refine ⟨top.splitOn '\n', ?_⟩
  rw [text]
  exact splitOn_last_two single single'

/-- A character of two bytes under the first mark, and the place just past the end of a text. -/
theorem located_marks_samples :
    (∃ before inside after, (⟨"y = éa;"⟩ : Source).chars = before ++ (inside ++ after) ∧
      Marks (located ⟨"y = éa;"⟩ "f" none "m" ⟨4, 7⟩).toList
        (lastLine before ++ firstLine (inside ++ after)) 4 (tildes inside)) ∧
    markLine ⟨"y = éa;"⟩ ⟨4, 7⟩ = "    ^~" ∧
    (∃ before inside after, (⟨"y"⟩ : Source).chars = before ++ (inside ++ after) ∧
      Marks (located ⟨"y"⟩ "f" none "m" ⟨1, 2⟩).toList
        (lastLine before ++ firstLine (inside ++ after)) 1 (tildes inside)) ∧
    markLine ⟨"y"⟩ ⟨1, 2⟩ = " ^" := by
  have within := located_marks ⟨"y = éa;"⟩ "f" none "m" ⟨4, 7⟩ (by decide) (by decide +kernel)
    (by decide +kernel)
  have past := located_marks ⟨"y"⟩ "f" none "m" ⟨1, 2⟩ (by decide) (by decide +kernel)
    (by decide +kernel)
  have column : (⟨"y = éa;"⟩ : Source).lineCol 4 = (1, 5) := by decide +kernel
  have column' : (⟨"y"⟩ : Source).lineCol 1 = (1, 2) := by decide +kernel
  obtain ⟨before, inside, after, whole, -, -, -, -, -, marks⟩ := within
  obtain ⟨before', inside', after', whole', -, -, -, -, -, marks'⟩ := past
  rw [column] at marks
  rw [column'] at marks'
  exact ⟨⟨before, inside, after, whole, marks⟩, by decide +kernel,
    ⟨before', inside', after', whole', marks'⟩, by decide +kernel⟩

end Diagnostic

end Shellwright
