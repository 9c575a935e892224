/-!
# Suggestions for unknown names

The name a writer probably meant is the known name at the least edit distance, if that distance
is small for the length of the name. Equally near names are told apart by their spelling, so the
order in which the known names are listed never shows.
-/

namespace Shellwright.Suggest

/-! ## Edit distance -/

/-- The rest of the next row of the distance table. `diag` and `left` are the entries above-left
and left of the next entry; `above` is the rest of the row above. -/
def nextEntries (c : Char) : List Char → Nat → Nat → List Nat → List Nat
  | d :: ds, diag, left, up :: ups =>
    let here := if c = d then diag else 1 + min (min diag up) left
    here :: nextEntries c ds up here ups
  | _, _, _, _ => []

/-- A row of the distance table holds the distances from one fixed text to every initial part of
`b`. This is the row for that text with `c` after it. -/
def nextRow (b : List Char) (row : List Nat) (c : Char) : List Nat :=
  match row with
  | [] => []
  | first :: rest => (first + 1) :: nextEntries c b first (first + 1) rest

/-- The least number of insertions, deletions and substitutions of single characters that
turn `a` into `b`. -/
def editDistance (a b : List Char) : Nat :=
  ((a.foldl (nextRow b) (List.range (b.length + 1))).getLast?).getD 0

/-! ## The nearest name -/

/-- How far a suggestion may lie from a name: half its length, but at least one edit
and at most two. -/
def reach (input : String) : Nat :=
  max 1 (min 2 (input.toList.length / 2))

/-- The nearer of two candidates; of equally near ones the smaller spelling. -/
def nearer (a b : Nat × String) : Nat × String :=
  if b.1 < a.1 || (b.1 == a.1 && b.2 < a.2) then b else a

/-- The candidates within reach that differ from the input, each with its distance. -/
def inReach (input : String) (candidates : List String) : List (Nat × String) :=
  ((candidates.filter (· ≠ input)).map fun c => (editDistance input.toList c.toList, c)).filter
    fun c => c.1 ≤ reach input

/-- The candidate to suggest in place of an unknown name. -/
def nearest? (input : String) (candidates : List String) : Option String :=
  match inReach input candidates with
  | [] => none
  | c :: cs => some (cs.foldl nearer c).2

end Shellwright.Suggest
