import Shellwright.Number.Power

/-!
# Binary floating point numbers

Fractional literals are IEEE 754 numbers of 64 bits, held as their bits. A finite number is
`±significand · 2 ^ scale`; both parts are read off the bits, so all questions about a number are
questions about natural numbers.
-/

namespace Shellwright

/-- A number of the format binary64, as its bits: sign, 11 bits of exponent, 52 bits of
fraction. -/
structure Binary64 where
  bits : UInt64
  deriving DecidableEq, Repr, Inhabited

namespace Binary64

/-- The sign bit is set. -/
def isNegative (v : Binary64) : Bool := twoTo 63 ≤ v.bits.toNat

/-- The biased exponent. -/
def exponentField (v : Binary64) : Nat := v.bits.toNat / twoTo 52 % twoTo 11

/-- The fraction bits. -/
def fractionField (v : Binary64) : Nat := v.bits.toNat % twoTo 52

def isNaN (v : Binary64) : Bool := v.exponentField = 2047 && v.fractionField ≠ 0

def isFinite (v : Binary64) : Bool := v.exponentField ≠ 2047

/-- The integer part of the magnitude `significand · 2 ^ scale`. -/
def significand (v : Binary64) : Nat :=
  if v.exponentField = 0 then v.fractionField else v.fractionField + twoTo 52

/-- The power of two of the magnitude `significand · 2 ^ scale`. -/
def scale (v : Binary64) : Int := (max 1 v.exponentField : Nat) - 1075

/-- The same magnitude with the other sign. -/
def neg (v : Binary64) : Binary64 := ⟨v.bits ^^^ 0x8000000000000000⟩

/-- The magnitude, if it is a whole number. -/
def whole? (v : Binary64) : Option Nat :=
  if v.scale < 0 then
    let unit := twoTo (-v.scale).toNat
    if v.significand % unit = 0 then some (v.significand / unit) else none
  else some (v.significand * twoTo v.scale.toNat)

/-! ## Reading -/

/-- A quotient rounded to the nearest whole number; a half goes to the even neighbour. -/
def roundDiv (num den : Nat) : Nat :=
  let q := num / den
  let twice := 2 * (num % den)
  if twice < den || (twice = den && q % 2 = 0) then q else q + 1

/-- `num / (den · 2 ^ q)`, rounded to the nearest whole number. -/
def roundScaled (num den : Nat) (q : Int) : Nat :=
  if 0 ≤ q then roundDiv num (den * twoTo q.toNat) else roundDiv (num * twoTo (-q).toNat) den

/-- Whether `num / den` is at least `2 ^ e`. -/
def atLeastPower (num den : Nat) (e : Int) : Bool :=
  if 0 ≤ e then den * twoTo e.toNat ≤ num else den ≤ num * twoTo (-e).toNat

/-- The scale at which `num / den` has a significand of 53 bits, or the least scale there is. -/
def scaleOf (num den : Nat) : Int :=
  let e := (Nat.log2 num : Int) - Nat.log2 den
  let top := if atLeastPower num den e then e else e - 1
  max (-1074) (top - 52)

/-- The number nearest to the positive rational `num / den`; of two equally near ones the one
with the even significand. A rational beyond the largest number gives infinity. -/
def ofRatio (num den : Nat) : Binary64 :=
  if num = 0 then ⟨0⟩
  else
    let q := scaleOf num den
    let bits := (q + 1074).toNat * twoTo 52 + roundScaled num den q
    ⟨.ofNat (min bits (2047 * twoTo 52))⟩

end Binary64

end Shellwright
