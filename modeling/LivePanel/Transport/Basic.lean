import LivePanel.Issue
import LivePanel.Session.Basic
import LivePanel.Transport.Address
import LivePanel.Transport.Outbox

/-!
Transports: what carries messages for one connection. An open request is refused before any socket
is made if its address, its sub-protocol or its scheme cannot be used.
-/
namespace LivePanel

/-- Addresses a panel can start with. -/
def validateAddress (url : String) : Except Issue Unit :=
  match Address.ofText url with
  | .ok _ => .ok ()
  | .error f => .error (.transport ("invalid socket url " ++ url ++ ": " ++ f.message))

/-- Why no socket is made. -/
inductive Obstacle where
  | address : Address.Fault → Obstacle
  /-- The sub-protocol cannot stand in a header. -/
  | subProtocol : Obstacle
  | encryption : Obstacle
  | scheme : Obstacle
  deriving DecidableEq

def Obstacle.message : Obstacle → String
  | .address f => "invalid socket url: " ++ f.message
  | .subProtocol => "invalid sub-protocol: failed to parse header value"
  | .encryption => "handshake failed: URL error: TLS support not compiled in"
  | .scheme => "handshake failed: URL error: URL scheme not supported"

/-- A header value holds no control character but the tab. -/
def isHeaderChar (c : Char) : Bool := c == '\t' || (0x20 ≤ c.toNat && c.toNat != 0x7f)

namespace Opening

/-- What stands in the way of a socket: address first, then sub-protocol, then scheme. -/
def obstacle? (r : Opening) : Option Obstacle :=
  match Address.ofText r.url with
  | .error f => some (.address f)
  | .ok a =>
    if !r.subProtocol.toList.all isHeaderChar then some .subProtocol
    else if a.scheme = some "ws" then none
    else if a.scheme = some "wss" then some .encryption
    else some .scheme

/-- What a transport reports of a request that comes to nothing. -/
def failure? (r : Opening) : Option Report :=
  r.obstacle?.map fun o => .errored (Issue.transport o.message).message

end Opening

/-- A transport in use, with the texts it has yet to send. -/
structure Transport where
  generation : UInt64
  outbox : Outbox

def Transport.ofRequest (capacity : UInt64) (r : Opening) : Transport :=
  ⟨r.generation, { capacity := capacity.toNat }⟩

end LivePanel
