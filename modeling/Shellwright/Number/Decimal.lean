import Shellwright.Number.Binary64

/-!
# Decimal texts of binary numbers

A number is written with the fewest decimal digits that read back as that number, and of those
the ones nearest to it. `Decimal` holds such digits with the place of the point, and a `Layout`
says how they are set out as text.
-/

namespace Shellwright

/-- The number `0.DIGITS · 10 ^ point`. The first and the last digit are not zero. -/
structure Decimal where
  digits : List Char
  point : Int

namespace Decimal

/-! ## The fewest digits -/

/-- The reals that read back as a number: those from `num - below` to `num + above`, over `den`.
The ends count when `closed`. -/
structure Interval where
  num : Nat
  den : Nat
  below : Nat
  above : Nat
  closed : Bool

/-- The interval of a finite number other than zero. Its ends are halfway to the neighbours, and
the neighbour below a power of two is nearer than the one above it. -/
def Interval.of (v : Binary64) : Interval :=
  let up := twoTo v.scale.toNat
  let down := twoTo (-v.scale).toNat
  { num := 4 * v.significand * up
    den := 4 * down
    below := (if v.fractionField = 0 && 1 < v.exponentField then 1 else 2) * up
    above := 2 * up
    closed := v.significand % 2 = 0 }

/-- The number of zeros after the point in the decimal expansion of `num / den < 1`, counting at
most `fuel` of them. -/
def leadingZeros (den : Nat) : Nat → Nat → Nat
  | 0, _ => 0
  | fuel + 1, num => if den ≤ 10 * num then 0 else 1 + leadingZeros den fuel (10 * num)

/-- The exponent `k` with `10 ^ (k - 1) ≤ num / den < 10 ^ k`. -/
def pointOf (num den : Nat) : Int :=
  if den ≤ num then (Nat.toDigits 10 (num / den)).length
  else -(leadingZeros den 400 num : Int)

/-- Of the two multiples of `10 ^ (point - count)` around the number, the nearest one that reads
back as it, as a count of such units. Halfway between, the greater one is taken. -/
def Interval.onGrid? (i : Interval) (point : Int) (count : Nat) : Option Nat :=
  let shift := point - count
  let grow := tenTo (-shift).toNat
  let unit := i.den * tenTo shift.toNat
  let num := i.num * grow
  let low := num / unit
  let fits (units : Nat) : Bool :=
    let lower := num - i.below * grow
    let upper := num + i.above * grow
    if i.closed then lower ≤ units * unit && units * unit ≤ upper
    else lower < units * unit && units * unit < upper
  let lowFits := fits low
  let highFits := fits (low + 1)
  if lowFits && (!highFits || 2 * (num % unit) < unit) then some low
  else if highFits then some (low + 1)
  else none

/-- The first of the grids with `count`, `count + 1`, … digits that has a
multiple that reads back. -/
def Interval.search (i : Interval) (point : Int) : Nat → Nat → Nat × Nat
  | 0, count =>
    (i.num * tenTo (count - point).toNat / (i.den * tenTo (point - count).toNat), count)
  | tries + 1, count =>
    match i.onGrid? point count with
    | some units => (units, count)
    | none => i.search point tries (count + 1)

/-- Drops the zeros at the end. -/
def dropZeros (ds : List Char) : List Char :=
  (ds.reverse.dropWhile (· = '0')).reverse

/-- The digits of a finite number other than zero. Seventeen of them always read back. -/
def shortest (v : Binary64) : Decimal :=
  let i := Interval.of v
  let point := pointOf i.num i.den
  let (units, count) := i.search point 17 1
  let ds := Nat.toDigits 10 units
  ⟨dropZeros ds, point + (ds.length - count : Int)⟩

/-! ## Setting out -/

/-- A run of zeros. -/
def zeros (n : Nat) : String := String.ofList (List.replicate n '0')

/-- The digits with the point at its place. A whole number ends in `tail`. -/
def positional (d : Decimal) (tail : String) : String :=
  let n := d.digits.length
  if d.point ≤ 0 then "0." ++ zeros (-d.point).toNat ++ String.ofList d.digits
  else
    let k := d.point.toNat
    if n ≤ k then String.ofList d.digits ++ zeros (k - n) ++ tail
    else String.ofList (d.digits.take k) ++ "." ++ String.ofList (d.digits.drop k)

/-- One digit before the point and a power of ten after the rest. -/
def scientific (d : Decimal) : String :=
  let rest := d.digits.drop 1
  String.ofList (d.digits.take 1) ++ (if rest.isEmpty then "" else "." ++ String.ofList rest)
    ++ "e" ++ toString (d.point - 1)

end Decimal

/-! ## Layouts -/

/-- How numbers are set out. -/
structure Layout where
  /-- What a whole number ends in. -/
  wholeTail : String
  /-- The least and the greatest place of the point that is written out; beyond them a power of
  ten is used. Without bounds every number is written out. -/
  bounds : Option (Int × Int)

namespace Layout

/-- Every digit is written out, and a whole number has no point. -/
def plain : Layout := ⟨"", none⟩

/-- A whole number ends in `.0`; numbers below `0.0001` or from `10 ^ 16` on have
a power of ten. -/
def dump : Layout := ⟨".0", some (-3, 16)⟩

/-- The text of a magnitude. -/
def magnitude (l : Layout) (v : Binary64) : String :=
  if !v.isFinite then "inf"
  else if v.significand = 0 then "0" ++ l.wholeTail
  else
    let d := Decimal.shortest v
    match l.bounds with
    | some (least, greatest) =>
      if d.point < least || greatest < d.point then d.scientific else d.positional l.wholeTail
    | none => d.positional l.wholeTail

/-- The text of a number. A number that is none has no sign. -/
def write (l : Layout) (v : Binary64) : String :=
  if v.isNaN then "NaN"
  else (if v.isNegative then "-" else "") ++ l.magnitude v

end Layout

end Shellwright
