import LivePanel.Wire.Entry

/-!
Messages of either side. The server sends `hello` and `refresh`, whose entries are kept unread so
that a bad one does not spoil the others; the panel sends updates.
-/
namespace LivePanel

inductive Message where
  | hello : (entries : List Json) → Message
  | refresh : (entries : List Json) → Message
  /-- A type that nobody handles. -/
  | unrecognized : (type : String) → Message

namespace Message

def readEntries (ms : Members) : Except Defect (List Json) :=
  match ms.get? "vars" with
  | some (.array entries) => .ok entries
  | some v => .error (.wrongType v.found .sequence)
  | none => .error (.missing "vars")

/-- A message is an object with a string `type`. -/
def ofJson (v : Json) : Except Issue Message :=
  match v with
  | .object ms =>
    match Members.get? "type" ms with
    | some (.string "hello") => ((readEntries ms).map hello).mapError .malformed
    | some (.string "refresh") => ((readEntries ms).map refresh).mapError .malformed
    | some (.string type) => .ok (.unrecognized type)
    | _ => .error (.incomplete .messageType)
  | _ => .error (.incomplete .messageType)

def ofText (payload : String) : Except Issue Message :=
  match Json.ofText payload with
  | .ok v => ofJson v
  | .error f => .error (.malformed (.unreadable f))

end Message

/-- A value that a user chose for a variable. -/
structure Update where
  handle : Handle
  value : Json

/-- The members go out in the order `type`, `handle`, `value`. -/
def Update.text (u : Update) : String :=
  Json.text (.object [("type", .string "update"), ("handle", u.handle.json), ("value", u.value)])

end LivePanel
