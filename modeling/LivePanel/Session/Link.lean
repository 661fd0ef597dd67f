import LivePanel.Command

/-!
The connection as the session sees it. An attempt to connect starts a new generation; what
transports of other generations report is ignored. Connecting again is always somebody's decision.
-/
namespace LivePanel

/-- The sub-protocol the panel asks for. -/
def subProtocol : String := "v1.tweaklib.sidvind.com"

structure Link where
  url : String
  status : Status := .disconnected
  generation : UInt64 := 0
  /-- The reason of the last failure, until a connection is open. -/
  lastFailure : Option String := none
  deriving DecidableEq

namespace Link

def owns (l : Link) (generation : UInt64) : Bool := generation == l.generation

/-- Starts an attempt, unless one is under way or has succeeded. -/
def dial (l : Link) : Link × Option Opening :=
  if l.status = .disconnected then
    let generation := l.generation + 1
    ({ l with status := .connecting, generation }, some ⟨generation, l.url, subProtocol⟩)
  else (l, none)

/-- Leaves the link disconnected; the status is told if that is news. -/
def drop (l : Link) : Link × Option Status :=
  if l.status = .disconnected then (l, none)
  else ({ l with status := .disconnected }, some .disconnected)

def opened (l : Link) (generation : UInt64) : Link × Option Status :=
  if l.owns generation ∧ l.status = .connecting then
    ({ l with status := .connected, lastFailure := none }, some .connected)
  else (l, none)

def failed (l : Link) (generation : UInt64) (reason : String) : Link × Option Status :=
  if l.owns generation then { l with lastFailure := some reason }.drop else (l, none)

def closed (l : Link) (generation : UInt64) : Link × Option Status :=
  if l.owns generation then l.drop else (l, none)

/-- Lets an update through while connected; none waits for a later connection. -/
def allow (l : Link) (u : Update) : Except Issue Update :=
  if l.status = .connected then .ok u else .error (.offline l.status)

end Link
end LivePanel
