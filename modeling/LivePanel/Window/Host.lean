import LivePanel.Panel.Basic
import LivePanel.Window.Basic

/-!
A window with a transport: what carries out the calls of a panel. A new connection replaces the
transport of the one before, and an update goes to the transport there is, if there is one.
-/
namespace LivePanel

structure Host where
  /-- How many updates a transport keeps for sending. -/
  capacity : UInt64
  window : Window := {}
  transport : Option Transport := none
  /-- Updates lost for want of room. -/
  lost : UInt64 := 0
  /-- What the transports reported, with their generations, oldest first. -/
  reports : List (UInt64 × Report) := []

/-- What a command does to the window. -/
def Command.windowCall? : Command → Option WindowCall
  | .render view => some (.attach view)
  | .show h text => some (.show h.key text)
  | .status s => some (.status s)
  | .dial _ | .send _ => none

/-- What a call does to the window, in order. -/
def Call.windowCalls : Call → List WindowCall
  | .carryOut commands => commands.filterMap Command.windowCall?
  | .advance p => [.progress p.percent p.label]
  | .reveal => [.reveal]
  | .hangUp => []
  | .showBanner banner => [.banner banner]

namespace Host

def new (settings : Settings) : Host := { capacity := settings.outboxCapacity }

/-- Queues an update. Without a transport it is dropped. -/
def send (h : Host) (u : Update) : Host :=
  match h.transport with
  | none => h
  | some t =>
    let (outbox, offer) := t.outbox.offer u.text
    { h with transport := some { t with outbox }, lost := Outbox.countLoss h.lost offer }

/-- Opens a transport in place of the one there is. A request that comes to nothing is reported. -/
def openTransport (h : Host) (r : Opening) : Host :=
  { h with
    transport := some (.ofRequest h.capacity r)
    reports := h.reports ++ (r.failure?.map fun report => (r.generation, report)).toList }

/-- The part of a command that concerns transports. -/
def carry (h : Host) : Command → Host
  | .dial r => h.openTransport r
  | .send u => h.send u
  | .render _ | .show .. | .status _ => h

def perform (h : Host) (c : Call) : Host :=
  let h := { h with window := h.window.applyAll c.windowCalls }
  match c with
  | .carryOut commands => commands.foldl carry h
  | .hangUp => { h with transport := none }
  | .advance _ | .reveal | .showBanner _ => h

def performAll (h : Host) (cs : List Call) : Host := cs.foldl perform h

end Host

/-- What a panel receives that runs on its own window and transport against an address no socket can
be made for: the report of its first transport, if it opens one, and the end once the window is
closed. -/
def Settings.refusedInbox (settings : Settings) : List Receipt :=
  let request : Opening := ⟨1, settings.url, subProtocol⟩
  (request.failure?.map fun report => Receipt.event (.transport 1 report)).toList ++
    [.event .shutdown]

end LivePanel
