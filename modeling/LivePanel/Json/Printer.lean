import LivePanel.Json.Basic
import LivePanel.Number.Decimal
import LivePanel.Text.Quoted

/-!
JSON written without spaces, members in the order they are held.
-/
namespace LivePanel

/-- A whole number has digits only; a double always has a point or a power of ten. -/
def Number.text : Number → List Char
  | .whole n => signedDigits n.val
  | .real x => x.text

namespace Json

/-- A character inside a string: quotes, backslashes and controls are escaped, the rest stands for
itself. -/
def escapedChar (c : Char) : List Char :=
  if c = '"' then ['\\', '"']
  else if c = '\\' then ['\\', '\\']
  else if c = '\x08' then ['\\', 'b']
  else if c = '\x0c' then ['\\', 'f']
  else if c = '\n' then ['\\', 'n']
  else if c = '\r' then ['\\', 'r']
  else if c = '\t' then ['\\', 't']
  else if c.toNat < 0x20 then
    ['\\', 'u', '0', '0', hexDigit (c.toNat / 16), hexDigit (c.toNat % 16)]
  else [c]

def stringText (s : String) : List Char := '"' :: s.toList.flatMap escapedChar ++ ['"']

def boolText (b : Bool) : List Char := if b then "true".toList else "false".toList

mutual

def write : Json → List Char
  | .null => "null".toList
  | .bool b => boolText b
  | .number n => n.text
  | .string s => stringText s
  | .array vs => '[' :: writeItems vs ++ [']']
  | .object ms => '\x7b' :: writeMembers ms ++ ['\x7d']

/-- Values with commas between them. -/
def writeItems : List Json → List Char
  | [] => []
  | [v] => write v
  | v :: vs => write v ++ ',' :: writeItems vs

/-- Members with commas between them. -/
def writeMembers : List (String × Json) → List Char
  | [] => []
  | [(name, v)] => stringText name ++ ':' :: write v
  | (name, v) :: ms => stringText name ++ ':' :: write v ++ ',' :: writeMembers ms

end

def text (v : Json) : String := .ofList v.write

end Json
end LivePanel
