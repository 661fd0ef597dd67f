import LivePanel.Number.Binary64
import LivePanel.Number.Digits

/-!
Decimal numbers between text and double precision: the double nearest a written decimal, and the
shortest decimal that reads back as a given double.
-/
namespace LivePanel

/-- Ten, multiplied with itself `n` times. -/
def powerOfTen (n : Nat) : Nat := Nat.pow 10 n

/-- The number `coefficient * 10 ^ exponent`. -/
structure Decimal where
  coefficient : Nat
  exponent : Int
  deriving DecidableEq

namespace Decimal

/-- The power of ten of the first digit, for a coefficient above zero. -/
def magnitude (d : Decimal) : Int := d.exponent + ((digits d.coefficient).length - 1 : Nat)

/-- The double nearest `d`; `none` if that is beyond the largest double. Powers of ten that leave no
doubt about the outcome are not computed. -/
def toBinary64? (negative : Bool) (d : Decimal) : Option Binary64 :=
  if d.coefficient = 0 then some (.zero negative)
  else if 309 ≤ d.magnitude then none
  else if d.magnitude < -325 then some (.zero negative)
  else Binary64.ofRatio? negative (d.coefficient * powerOfTen d.exponent.toNat)
    (powerOfTen (-d.exponent).toNat)

end Decimal

namespace Binary64

/-- Four times the distance, in units, from `x` to the midpoints with its two neighbours. Below a
power of two the numbers lie twice as close. -/
def margins (x : Binary64) : Nat × Nat :=
  let step := powerOfTwo x.shift
  (if x.significand = powerOfTwo 52 ∧ x.shift ≠ 0 then step else 2 * step, 2 * step)

/-- Whether `d` rounds to the size of `x`: it lies between the midpoints, which themselves round to
`x` when its significand is even. -/
def readsBack (x : Binary64) (d : Decimal) : Bool :=
  let point := d.coefficient * powerOfTen d.exponent.toNat * powerOfTwo 1076
  let low := (4 * x.units - x.margins.1) * powerOfTen (-d.exponent).toNat
  let high := (4 * x.units + x.margins.2) * powerOfTen (-d.exponent).toNat
  if x.significand % 2 = 0 then low ≤ point && point ≤ high else low < point && point < high

/-- The power of ten of the first digit of a size above zero. -/
def magnitude (x : Binary64) : Int :=
  let guess : Int := (digits x.units).length - (digits (powerOfTwo 1074)).length
  let leading := powerOfTwo 1074 * powerOfTen guess.toNat
  if leading ≤ x.units * powerOfTen (-guess).toNat then guess else guess - 1

/-- The best decimal of `n` digits that reads back as `x`: of the two next to `x`, the one that
reads back, the nearer if both do, and the even one if both are equally near. -/
def decimalOfLength? (x : Binary64) (n : Nat) : Option Decimal :=
  let exponent := x.magnitude - (n - 1 : Nat)
  let num := x.units * powerOfTen (-exponent).toNat
  let den := powerOfTwo 1074 * powerOfTen exponent.toNat
  let below : Decimal := ⟨num / den, exponent⟩
  let above : Decimal := ⟨num / den + 1, exponent⟩
  match x.readsBack below, x.readsBack above with
  | true, true => some ⟨roundHalfEven num den, exponent⟩
  | true, false => some below
  | false, true => some above
  | false, false => none

/-- The shortest decimal that reads back. Seventeen digits always suffice. -/
def shortest (x : Binary64) : Decimal :=
  if x.isZero then ⟨0, 0⟩
  else ((List.range' 1 17).findSome? x.decimalOfLength?).getD ⟨0, 0⟩

end Binary64

namespace Decimal

def zeros (n : Nat) : List Char := List.replicate n '0'

/-- Digits with a point after the digit for `10 ^ 0`, and at least one digit on each side. -/
def plain (ds : List Char) (magnitude : Int) : List Char :=
  match magnitude with
  | .ofNat m =>
    let wholePart := ds.take (m + 1) ++ zeros (m + 1 - ds.length)
    let fraction := ds.drop (m + 1)
    wholePart ++ '.' :: (if fraction.isEmpty then ['0'] else fraction)
  | .negSucc m => '0' :: '.' :: zeros m ++ ds

/-- One digit before the point, no point after a single digit, and a signed power of ten. -/
def scientific (ds : List Char) (magnitude : Int) : List Char :=
  ds.take 1 ++ (if ds.length ≤ 1 then [] else '.' :: ds.drop 1) ++
    'e' :: (if magnitude < 0 then '-' else '+') :: digits magnitude.natAbs

/-- Plain from `0.00001` up to sixteen digits before the point, scientific elsewhere. -/
def text (d : Decimal) : List Char :=
  let ds := ((digits d.coefficient).reverse.dropWhile (· == '0')).reverse
  if d.coefficient = 0 then ['0', '.', '0']
  else if -5 ≤ d.magnitude ∧ d.magnitude ≤ 15 then plain ds d.magnitude
  else scientific ds d.magnitude

end Decimal

/-- The sign, and the shortest decimal that reads back. -/
def Binary64.text (x : Binary64) : List Char :=
  if x.negative then '-' :: x.shortest.text else x.shortest.text

end LivePanel
