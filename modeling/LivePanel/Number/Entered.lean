import LivePanel.Number.Decimal
import LivePanel.Text.Blank

/-!
Numbers as people type them: a sign, ASCII digits, and for real numbers a point and a power of ten.
-/
namespace LivePanel

/-- One digit or more, and nothing else. -/
def readDigits? (cs : List Char) : Option Nat :=
  if cs ≠ [] ∧ cs.all isDigit then some (ofDigits cs) else none

/-- A natural number below `bound`; a plus sign may lead it. -/
def readNatBelow? (bound : Nat) (cs : List Char) : Option Nat :=
  let ds := match cs with
    | '+' :: ds => ds
    | ds => ds
  (readDigits? ds).filter (· < bound)

/-- A number that fits an unsigned 64-bit word. -/
def readWord? (cs : List Char) : Option UInt64 :=
  (readNatBelow? (powerOfTwo 64) cs).map UInt64.ofNat

/-- Splits a sign off; no sign counts as plus. -/
def splitSign : List Char → Bool × List Char
  | '-' :: cs => (true, cs)
  | '+' :: cs => (false, cs)
  | cs => (false, cs)

/-- An integer that fits a signed 64-bit word. -/
def readInt64? (cs : List Char) : Option Int :=
  let (negative, ds) := splitSign cs
  (readDigits? ds).bind fun n =>
    let value : Int := if negative then -n else n
    if -(powerOfTwo 63 : Int) ≤ value ∧ value < powerOfTwo 63 then some value else none

/-- The power of ten after a mantissa: nothing, or `e` and an integer. -/
def readExponent? : List Char → Option Int
  | [] => some 0
  | c :: cs =>
    if c = 'e' ∨ c = 'E' then
      let (negative, ds) := splitSign cs
      (readDigits? ds).map fun n => if negative then -(n : Int) else n
    else none

/-- Digits with at most one point among or beside them, then perhaps a power of ten. -/
def readDecimal? (cs : List Char) : Option Decimal :=
  let whole := cs.takeWhile isDigit
  let afterWhole := cs.dropWhile isDigit
  let (fraction, rest) := match afterWhole with
    | '.' :: r => (r.takeWhile isDigit, r.dropWhile isDigit)
    | r => ([], r)
  if whole.isEmpty && fraction.isEmpty then none
  else (readExponent? rest).map fun e => ⟨ofDigits (whole ++ fraction), e - fraction.length⟩

/-- The double nearest a typed real number; `none` for other text and for numbers too large. -/
def readReal? (cs : List Char) : Option Binary64 :=
  let (negative, ds) := splitSign cs
  (readDecimal? ds).bind (·.toBinary64? negative)

end LivePanel
