/-!
# Blank characters

The characters that count as blank around the body of an external command. They are the code
points with the Unicode property `White_Space`, so a no-break space or an ideographic space at
either end of a body is dropped as well as an ordinary one.
-/

namespace Shellwright.Text

/-- The code points with the property `White_Space`, as closed ranges in increasing order. -/
def blankRanges : List (Nat × Nat) :=
  [(0x09, 0x0D), (0x20, 0x20), (0x85, 0x85), (0xA0, 0xA0), (0x1680, 0x1680), (0x2000, 0x200A),
   (0x2028, 0x2029), (0x202F, 0x202F), (0x205F, 0x205F), (0x3000, 0x3000)]

/-- A blank character is one whose code point lies in one of the ranges. -/
def isBlank (c : Char) : Bool :=
  blankRanges.any fun r => r.1 ≤ c.toNat && c.toNat ≤ r.2

/-- Drops the blanks at the end. -/
def trimEnd (cs : List Char) : List Char :=
  (cs.reverse.dropWhile isBlank).reverse

/-- Drops the blanks at both ends. -/
def trim (cs : List Char) : List Char :=
  trimEnd (cs.dropWhile isBlank)

/-- The number of bytes of a text in UTF-8. -/
def byteSize : List Char → Nat
  | [] => 0
  | c :: cs => c.utf8Size + byteSize cs

@[simp]
theorem byteSize_append (a b : List Char) : byteSize (a ++ b) = byteSize a + byteSize b := by
  induction a with
  | nil => simp [byteSize]
  | cons c cs ih => simp [byteSize, ih, Nat.add_assoc]

end Shellwright.Text
