import LivePanel.Number.Digits
import LivePanel.Text.Unprintable

/-!
Text quoted for a reader of messages: between double quotes, with a backslash form for quotes,
backslashes and whatever would not show.
-/
namespace LivePanel

def hexDigit (d : Nat) : Char := if d < 10 then digitChar d else Char.ofNat ('a'.toNat + (d - 10))

/-- Lower-case hexadecimal digits, without leading zeros. -/
def hexDigits (n : Nat) : List Char :=
  if n < 16 then [hexDigit n] else hexDigits (n / 16) ++ [hexDigit (n % 16)]

/-- A character inside quotes. The ones without a mark of their own are named by code point. -/
def quotedChar (c : Char) : List Char :=
  if c = '\x00' then ['\\', '0']
  else if c = '\t' then ['\\', 't']
  else if c = '\r' then ['\\', 'r']
  else if c = '\n' then ['\\', 'n']
  else if c = '"' then ['\\', '"']
  else if c = '\\' then ['\\', '\\']
  else if isUnprintable c then ['\\', 'u', '\x7b'] ++ hexDigits c.toNat ++ ['\x7d']
  else [c]

def quoted (s : String) : String :=
  .ofList ('"' :: s.toList.flatMap quotedChar ++ ['"'])

end LivePanel
