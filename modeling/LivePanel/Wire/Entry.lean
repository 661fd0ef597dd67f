import LivePanel.Issue

/-!
Entries of the server's messages. A descriptor introduces a variable or changes what is known of it;
a value entry carries a value. Either is an object or an array of the same members in a fixed order,
and both forms are read by taking one member after another into a draft.
-/
namespace LivePanel

/-- What a `hello` entry says of a variable. Whatever it leaves out stays as it was. -/
structure Descriptor where
  handle : Handle
  name : Option String := none
  datatype : Option Datatype := none
  description : Option String := none
  options : Option Options := none
  value : Option Json := none

/-- What a `refresh` entry says. -/
structure Assignment where
  handle : Handle
  value : Json

namespace Entry

/-- A null stands for an absent member. -/
def optional {α : Type} (read : Json → Except Defect α) : Json → Except Defect (Option α)
  | .null => .ok none
  | v => (read v).map some

def readString : Json → Except Defect String
  | .string s => .ok s
  | v => .error (.wrongType v.found .string)

def readOptions : Json → Except Defect Options
  | .object ms => .ok ms
  | v => .error (.wrongType v.found .map)

def readHandle (v : Json) : Except Defect Handle :=
  match Handle.ofJson? v with
  | some h => .ok h
  | none => .error .noHandle

def readDatatype (v : Json) : Except Defect Datatype :=
  match Datatype.ofJson? v with
  | some d => .ok d
  | none => .error .noDatatype

end Entry

open Entry

namespace Descriptor

/-- A descriptor of which some members have been read. -/
structure Draft where
  handle : Option Handle := none
  name : Option String := none
  datatype : Option Datatype := none
  description : Option String := none
  options : Option Options := none
  value : Option Json := none

/-- Takes one member; members that no descriptor has are passed over. -/
def Draft.put (d : Draft) (member : String × Json) : Except Defect Draft :=
  match member.1 with
  | "handle" => (optional readHandle member.2).map fun x => { d with handle := x }
  | "name" => (optional readString member.2).map fun x => { d with name := x }
  | "datatype" => (optional readDatatype member.2).map fun x => { d with datatype := x }
  | "description" => (optional readString member.2).map fun x => { d with description := x }
  | "options" => (optional readOptions member.2).map fun x => { d with options := x }
  | "value" => (optional .ok member.2).map fun x => { d with value := x }
  | _ => .ok d

def Draft.take (ms : List (String × Json)) : Except Defect Draft := ms.foldlM Draft.put {}

def readDraft : Json → Except Defect Draft
  | .object ms => Draft.take ms
  | .array vs => do
    if vs.isEmpty then throw (.tooShort 0 .descriptor)
    let d ← Draft.take (EntryKind.descriptor.members.zip vs)
    if EntryKind.descriptor.members.length < vs.length then throw (.tooLong vs.length)
    return d
  | v => .error (.wrongType v.found (.entry .descriptor))

def ofJson (v : Json) : Except Issue Descriptor := do
  let d ← (readDraft v).mapError .malformed
  match d.handle with
  | none => .error (.incomplete .handle)
  | some h => .ok ⟨h, d.name, d.datatype, d.description, d.options, d.value⟩

end Descriptor

namespace Assignment

structure Draft where
  handle : Option Handle := none
  value : Option Json := none

/-- Takes one member. Unlike in a descriptor, a null is a value and no handle. -/
def Draft.put (d : Draft) (member : String × Json) : Except Defect Draft :=
  match member.1 with
  | "handle" => (readHandle member.2).map fun h => { d with handle := some h }
  | "value" => .ok { d with value := some member.2 }
  | _ => .ok d

def Draft.take (ms : List (String × Json)) : Except Defect Draft := ms.foldlM Draft.put {}

/-- The entry, once both members are there; the first that is not is named. -/
def Draft.entry (d : Draft) : Except Defect Assignment :=
  match d.handle, d.value with
  | some h, some v => .ok ⟨h, v⟩
  | none, _ => .error (.missing "handle")
  | some _, none => .error (.missing "value")

def readEntry : Json → Except Defect Assignment
  | .object ms => (Draft.take ms).bind Draft.entry
  | .array vs => do
    let d ← Draft.take (EntryKind.assignment.members.zip vs)
    if vs.length < EntryKind.assignment.members.length then throw (.tooShort vs.length .assignment)
    if EntryKind.assignment.members.length < vs.length then throw (.tooLong vs.length)
    d.entry
  | v => .error (.wrongType v.found (.entry .assignment))

def ofJson (v : Json) : Except Issue Assignment := (readEntry v).mapError .malformed

end Assignment
end LivePanel
