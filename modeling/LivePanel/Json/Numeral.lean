import LivePanel.Json.Basic
import LivePanel.Number.Decimal

/-!
Numbers in JSON text, read a character at a time. Digits are gathered in a 64-bit word; those that
no longer fit are left out. The word is rounded to a double, which is then multiplied or divided by
a power of ten, so a number with a point or a power of ten goes through more than one rounding.
-/
namespace LivePanel

/-- The digits read so far: the number meant is near `value * 10 ^ scale`. -/
structure Significand where
  value : Nat
  scale : Int
  /-- A digit of the part being read did not fit, so none after it is taken. -/
  full : Bool
  deriving DecidableEq

namespace Significand

def ofDigit (c : Char) : Significand := ⟨digitValue c, 0, false⟩

def fits (s : Significand) (c : Char) : Bool := !s.full && pushDigit s.value c < powerOfTwo 64

/-- A digit before the point. One left out still counts as a place. -/
def pushWhole (s : Significand) (c : Char) : Significand :=
  if s.fits c then ⟨pushDigit s.value c, s.scale, false⟩ else ⟨s.value, s.scale + 1, true⟩

/-- A digit after the point. -/
def pushFraction (s : Significand) (c : Char) : Significand :=
  if s.fits c then ⟨pushDigit s.value c, s.scale - 1, false⟩ else { s with full := true }

end Significand

namespace Binary64

def powerOfTen? (n : Nat) : Option Binary64 := Decimal.toBinary64? false ⟨1, n⟩

/-- Divides by `10 ^ 308` as often as told, or until nothing is left. -/
def shrink? : Nat → Binary64 → Option Binary64
  | 0, x => some x
  | n + 1, x =>
    if x.isZero then some x
    else ((powerOfTen? 308).bind x.scaleDown?).bind (shrink? n)

/-- `x * 10 ^ power`, rounded at each step; `none` if it grows beyond the largest double. -/
def scale? (x : Binary64) (power : Int) : Option Binary64 :=
  let size := power.natAbs
  if 0 ≤ power then
    if size ≤ 308 then (powerOfTen? size).bind x.scaleUp?
    else if x.isZero then some x else none
  else
    let blocks := (size - 1) / 308
    (x.shrink? blocks).bind fun y => (powerOfTen? (size - 308 * blocks)).bind y.scaleDown?

end Binary64

/-- A number of which a part has been read. -/
inductive Numeral where
  /-- A minus sign; a digit must follow. -/
  | sign : Numeral
  /-- A leading zero, after which no digit may follow. -/
  | zero : (negative : Bool) → Numeral
  | whole : (negative : Bool) → Significand → Numeral
  /-- A point; a digit must follow. -/
  | point : (negative : Bool) → Significand → Numeral
  | fraction : (negative : Bool) → Significand → Numeral
  /-- The letter before a power of ten. -/
  | mark : (negative : Bool) → Significand → Numeral
  /-- The sign of a power of ten; a digit must follow. -/
  | markSign : (negative : Bool) → Significand → (down : Bool) → Numeral
  | power : (negative : Bool) → Significand → (down : Bool) → Nat → Numeral

namespace Numeral

/-- The beginning of a number. -/
def ofChar? (c : Char) : Option Numeral :=
  if c = '-' then some .sign
  else if c = '0' then some (.zero false)
  else if isDigit c then some (.whole false (.ofDigit c))
  else none

def isMark (c : Char) : Bool := c == 'e' || c == 'E'

/-- Takes one more character; `none` if it does not belong to the number. -/
def next? : Numeral → Char → Option Numeral
  | .sign, c =>
    if c = '0' then some (.zero true)
    else if isDigit c then some (.whole true (.ofDigit c))
    else none
  | .zero n, c =>
    if c = '.' then some (.point n ⟨0, 0, false⟩)
    else if isMark c then some (.mark n ⟨0, 0, false⟩)
    else none
  | .whole n s, c =>
    if isDigit c then some (.whole n (s.pushWhole c))
    else if c = '.' then some (.point n { s with full := false })
    else if isMark c then some (.mark n s)
    else none
  | .point n s, c => if isDigit c then some (.fraction n (s.pushFraction c)) else none
  | .fraction n s, c =>
    if isDigit c then some (.fraction n (s.pushFraction c))
    else if isMark c then some (.mark n s)
    else none
  | .mark n s, c =>
    if isDigit c then some (.power n s false (digitValue c))
    else if c = '+' then some (.markSign n s false)
    else if c = '-' then some (.markSign n s true)
    else none
  | .markSign n s down, c => if isDigit c then some (.power n s down (digitValue c)) else none
  | .power n s down p, c => if isDigit c then some (.power n s down (pushDigit p c)) else none

inductive Failure where
  | incomplete : Failure
  | tooLarge : Failure
  deriving DecidableEq

def real (negative : Bool) (s : Significand) (power : Int) : Except Failure Number :=
  match (Binary64.ofRatio? negative s.value 1).bind (·.scale? (s.scale + power)) with
  | some x => .ok (.real x)
  | none => .error .tooLarge

/-- The number that has been read, if it may end here. Without point and power of ten it is whole
while a 64-bit word can hold it; a negative zero is a double. -/
def value : Numeral → Except Failure Number
  | .zero n => if n then .ok (.real (.zero true)) else .ok (.whole ⟨0, by decide, by decide⟩)
  | .whole n s =>
    if s.full then real n s 0
    else match Whole.ofInt? (if n then -s.value else s.value) with
      | some w => .ok (.whole w)
      | none => real n s 0
  | .fraction n s => real n s 0
  | .power n s down p => real n s (if down then -p else p)
  | .sign | .point .. | .mark .. | .markSign .. => .error .incomplete

end Numeral
end LivePanel
