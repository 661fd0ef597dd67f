/-!
Finite double-precision numbers, held exactly. Each is a whole multiple of `2 ^ -1074`, so a number
is a sign and a natural number of such units, written as a significand of at most 53 bits times a
power of two. Rounding, products and quotients are exact questions about natural numbers.
-/
namespace LivePanel

/-- Two, multiplied with itself `n` times. -/
def powerOfTwo (n : Nat) : Nat := Nat.pow 2 n

/-- The one form each size has: 53 significant bits, fewer only on the finest grid. -/
def Canonical (significand shift : Nat) : Prop :=
  significand < powerOfTwo 53 ∧ (powerOfTwo 52 ≤ significand ∨ shift = 0) ∧ shift ≤ 2045

instance (significand shift : Nat) : Decidable (Canonical significand shift) :=
  inferInstanceAs (Decidable (_ ∧ _ ∧ _))

/-- The number `±significand * 2 ^ shift / 2 ^ 1074`. Zero keeps its sign. -/
structure Binary64 where
  negative : Bool
  significand : Nat
  shift : Nat
  canonical : Canonical significand shift
  deriving DecidableEq

namespace Binary64

/-- The size in units of `2 ^ -1074`. -/
def units (x : Binary64) : Nat := x.significand * powerOfTwo x.shift

def zero (negative : Bool) : Binary64 := ⟨negative, 0, 0, by decide⟩

def neg (x : Binary64) : Binary64 := { x with negative := !x.negative }

def isZero (x : Binary64) : Bool := x.significand == 0

/-- The whole number nearest `num / den`, the even one of two equally near. -/
def roundHalfEven (num den : Nat) : Nat :=
  let floor := num / den
  let twice := 2 * (num % den)
  if twice < den then floor else if den < twice then floor + 1 else floor + floor % 2

def make? (negative : Bool) (significand shift : Nat) : Option Binary64 :=
  if h : Canonical significand shift then some ⟨negative, significand, shift, h⟩ else none

/-- The number nearest `num / den` units, a tie going to the even significand; `none` beyond the
largest number. A significand that rounds up to `2 ^ 53` moves to the next power of two. -/
def nearest? (negative : Bool) (num den : Nat) : Option Binary64 :=
  let shift := Nat.log2 (num / den) - 52
  let significand := roundHalfEven num (den * powerOfTwo shift)
  if significand = powerOfTwo 53 then make? negative (powerOfTwo 52) (shift + 1)
  else make? negative significand shift

/-- The number nearest `num / den`. -/
def ofRatio? (negative : Bool) (num den : Nat) : Option Binary64 :=
  nearest? negative (num * powerOfTwo 1074) den

/-- Sizes multiplied; the sign is that of `x`. -/
def scaleUp? (x y : Binary64) : Option Binary64 :=
  nearest? x.negative (x.units * y.units) (powerOfTwo 1074)

/-- Sizes divided; the sign is that of `x`. -/
def scaleDown? (x y : Binary64) : Option Binary64 :=
  nearest? x.negative (x.units * powerOfTwo 1074) y.units

/-- The value, when it is a whole number. -/
def whole? (x : Binary64) : Option Int :=
  if x.units % powerOfTwo 1074 = 0 then
    let size : Int := x.units / powerOfTwo 1074
    some (if x.negative then -size else size)
  else none

end Binary64
end LivePanel
