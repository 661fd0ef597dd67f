import LivePanel.Json.Printer
import LivePanel.Json.Reader

/-!
What can be wrong with a message or an entry of one: its text is no JSON, or the JSON has not the
shape that was due.
-/
namespace LivePanel

/-- What stood in the place of something else. -/
inductive Found where
  | null : Found
  | bool : Bool → Found
  | number : Number → Found
  | string : String → Found
  | sequence : Found
  | map : Found
  deriving DecidableEq

def Json.found : Json → Found
  | .null => .null
  | .bool b => .bool b
  | .number n => .number n
  | .string s => .string s
  | .array _ => .sequence
  | .object _ => .map

def Found.message : Found → String
  | .null => "null"
  | .bool b => "boolean `" ++ .ofList (Json.boolText b) ++ "`"
  | .number (.whole n) => "integer `" ++ .ofList (Number.text (.whole n)) ++ "`"
  | .number (.real x) => "floating point `" ++ .ofList x.text ++ "`"
  | .string s => "string " ++ quoted s
  | .sequence => "sequence"
  | .map => "map"

/-- The two kinds of entries. -/
inductive EntryKind where
  | descriptor : EntryKind
  | assignment : EntryKind
  deriving DecidableEq

namespace EntryKind

/-- The members of an entry, in the order in which an array lists them. -/
def members : EntryKind → List String
  | .descriptor => ["handle", "name", "datatype", "description", "options", "value"]
  | .assignment => ["handle", "value"]

def title : EntryKind → String
  | .descriptor => "struct VariableDescriptor"
  | .assignment => "struct ValueEntry"

end EntryKind

inductive Wanted where
  | string : Wanted
  | map : Wanted
  | sequence : Wanted
  | entry : EntryKind → Wanted
  deriving DecidableEq

def Wanted.message : Wanted → String
  | .string => "a string"
  | .map => "a map"
  | .sequence => "a sequence"
  | .entry k => k.title

inductive Defect where
  /-- The text is not one JSON value. -/
  | unreadable : Json.Fault → Defect
  | wrongType : Found → Wanted → Defect
  | noHandle : Defect
  | noDatatype : Defect
  | missing : (member : String) → Defect
  /-- An array ends before a member that every entry has. -/
  | tooShort : (length : Nat) → EntryKind → Defect
  | tooLong : (length : Nat) → Defect
  deriving DecidableEq

def decimalText (n : Nat) : String := .ofList (digits n)

def Defect.message : Defect → String
  | .unreadable .unfinished => "text ends too early"
  | .unreadable .unexpected => "unexpected character"
  | .wrongType found wanted => "invalid type: " ++ found.message ++ ", expected " ++ wanted.message
  | .noHandle => "data did not match any variant of untagged enum Handle"
  | .noDatatype => "data did not match any variant of untagged enum RawDatatype"
  | .missing member => "missing field `" ++ member ++ "`"
  | .tooShort n kind =>
    "invalid length " ++ decimalText n ++ ", expected " ++ kind.title ++ " with " ++
      decimalText kind.members.length ++ " elements"
  | .tooLong n => "invalid length " ++ decimalText n ++ ", expected fewer elements in array"

end LivePanel
