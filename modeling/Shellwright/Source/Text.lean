import Shellwright.Text.Blank
import Shellwright.Source.Span

/-!
# Source texts

A source text is addressed by byte offset, and shown to people by line and column. Lines are
counted from one, columns from one and in characters. An offset past the end stands for the end.
-/

namespace Shellwright

open Text (byteSize)

/-- The text of one source file. -/
structure Source where
  text : String
  deriving DecidableEq, Inhabited

namespace Source

/-- The characters of the text. -/
def chars (s : Source) : List Char := s.text.toList

/-- The length of the text in bytes. -/
def size (s : Source) : Nat := byteSize s.chars

/-- An offset, moved back to the end of the text when it lies past it. -/
def clip (s : Source) (pos : Nat) : Nat := min pos s.size

/-! ## Slices -/

/-- The characters that begin at or after byte `start` and before byte `stop`, of a text whose
first character stands at byte `pos`. -/
def sliceFrom (start stop pos : Nat) : List Char → List Char
  | [] => []
  | c :: cs =>
    if start ≤ pos && pos < stop then c :: sliceFrom start stop (pos + c.utf8Size) cs
    else sliceFrom start stop (pos + c.utf8Size) cs

/-- The characters between two byte offsets. -/
def slice (s : Source) (span : Span) : List Char :=
  sliceFrom span.start span.stop 0 s.chars

/-! ## Lines -/

/-- The offsets just after each newline of a text whose first character stands at byte `pos`. -/
def breaksFrom (pos : Nat) : List Char → List Nat
  | [] => []
  | c :: cs =>
    if c = '\n' then (pos + 1) :: breaksFrom (pos + 1) cs else breaksFrom (pos + c.utf8Size) cs

/-- The offset at which each line begins, in order. -/
def lineStarts (s : Source) : List Nat := 0 :: breaksFrom 0 s.chars

/-- Where a table that is in order has an entry, or else where the entry would have
to be put in. -/
def search (entry : Nat) (table : List Nat) : Except Nat Nat :=
  match table.idxOf? entry with
  | some index => .ok index
  | none => .error (table.countP (· < entry))

/-- The index of the line that holds an offset. A line that begins before the offset stands just
before the place at which the offset would be put in. -/
def lineIndex (s : Source) (pos : Nat) : Nat :=
  match search pos s.lineStarts with
  | .ok index => index
  | .error index => index - 1

/-- Line and column of a byte offset. -/
def lineCol (s : Source) (pos : Nat) : Nat × Nat :=
  let pos := s.clip pos
  let index := s.lineIndex pos
  (index + 1, (s.slice ⟨s.lineStarts.getD index 0, pos⟩).length + 1)

/-- The text of a line without its newline; nothing for a line that does not exist. -/
def lineText (s : Source) (line : Nat) : String :=
  match line with
  | 0 => ""
  | k + 1 =>
    match s.lineStarts[k]? with
    | none => ""
    | some start =>
      let stop := match s.lineStarts[k + 1]? with
        | some next => next - 1
        | none => s.size
      String.ofList (s.slice ⟨start, stop⟩)

end Source

end Shellwright
