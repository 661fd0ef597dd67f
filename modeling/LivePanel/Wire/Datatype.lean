import LivePanel.Number.Digits
import LivePanel.Json.Basic

/-!
The declared type of a variable. A server names it by a code or by a name; tags the panel does not
know are kept as they are, so that a field registered for them can claim them.
-/
namespace LivePanel

inductive Datatype where
  | integer : Datatype
  | float : Datatype
  | double : Datatype
  | time : Datatype
  | other : String → Datatype
  deriving DecidableEq

namespace Datatype

/-- The datatypes that the built-in field presents. -/
def numeric : List Datatype := [.integer, .float, .double]

def ofCode (code : Nat) : Datatype :=
  match code with
  | 0 => .integer
  | 1 => .float
  | 2 => .double
  | 3 => .time
  | n => .other (.ofList (digits n))

def ofName (name : String) : Datatype :=
  if name = "integer" ∨ name = "int" then .integer
  else if name = "float" then .float
  else if name = "double" then .double
  else if name = "time" then .time
  else .other name

def name : Datatype → String
  | .integer => "integer"
  | .float => "float"
  | .double => "double"
  | .time => "time"
  | .other tag => tag

/-- A code or a name; no other JSON value is a datatype. -/
def ofJson? : Json → Option Datatype
  | .number (.whole n) => if 0 ≤ n.val then some (ofCode n.val.toNat) else none
  | .string s => some (ofName s)
  | _ => none

@[simp] theorem name_other (tag : String) : (other tag).name = tag := rfl

end Datatype
end LivePanel
