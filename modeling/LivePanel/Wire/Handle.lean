import LivePanel.Json.Printer
import LivePanel.Number.Entered

/-!
Handles: the server's names for variables, numbers or texts. A handle keeps the JSON form it came
in, so it can be sent back unchanged, and a window addresses it by a key that tells `5` from `"5"`.
-/
namespace LivePanel

inductive Handle where
  | number : UInt64 → Handle
  | text : String → Handle
  deriving DecidableEq

namespace Handle

/-- A handle in messages for people. -/
def display : Handle → String
  | .number n => .ofList (digits n.toNat)
  | .text t => t

def key : Handle → String
  | .number n => .ofList ('n' :: ':' :: digits n.toNat)
  | .text t => .ofList ('s' :: ':' :: t.toList)

/-- The handle a key stands for. Any spelling of a number is taken, also with a plus sign or leading
zeros. -/
def ofKey? (key : String) : Option Handle :=
  match key.toList with
  | 'n' :: ':' :: cs => (readWord? cs).map .number
  | 's' :: ':' :: cs => some (.text (.ofList cs))
  | _ => none

def json : Handle → Json
  | .number n => .number (.whole (.ofWord n))
  | .text t => .string t

def ofJson? : Json → Option Handle
  | .number (.whole n) => if 0 ≤ n.val then some (.number (.ofNat n.val.toNat)) else none
  | .string s => some (.text s)
  | _ => none

end Handle
end LivePanel
