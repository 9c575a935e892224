/-!
# Powers

The powers that binary and decimal numbers are scaled by.
-/

namespace Shellwright

/-- The `n`th power of two. -/
def twoTo (n : Nat) : Nat := Nat.pow 2 n

/-- The `n`th power of ten. -/
def tenTo (n : Nat) : Nat := Nat.pow 10 n

end Shellwright
