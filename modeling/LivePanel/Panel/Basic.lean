import LivePanel.Panel.Pipeline
import LivePanel.Panel.Settings
import LivePanel.Session.Basic
import LivePanel.Transport.Basic

/-!
A panel from start to end. It receives events, hands them to its session, and calls on a window and
a transport. What it receives is a list whose end stands for a closed channel, so a whole run is a
function of that list.
-/
namespace LivePanel

/-- One attempt to receive: an event, or none before the time was over. -/
inductive Receipt where
  | event : Event → Receipt
  | silence : Receipt
  deriving DecidableEq

/-- What a panel calls for outside its session. -/
inductive Call where
  | carryOut : List Command → Call
  | advance : Progress → Call
  | reveal : Call
  | hangUp : Call
  | showBanner : (banner : String) → Call

structure Panel (φ : Type) where
  session : Session φ
  settings : Settings
  /-- What is still to be received. -/
  inbox : List Receipt
  /-- The calls made so far, oldest first. -/
  calls : List Call := []
  /-- Whether somebody asked for the end. -/
  shutdown : Bool := false

/-- A failed startup in words for a window; the failing step is named already. -/
def startupBanner (message : String) : String :=
  let lead := "task failed: ".toList
  let cs := message.toList
  "Task failed: " ++ .ofList (if lead.isPrefixOf cs then cs.drop lead.length else cs)

namespace Panel

variable {φ : Type}

def new (c : Catalog φ) (settings : Settings) (inbox : List Receipt) : Panel φ :=
  { session := .new c settings.url, settings, inbox }

def call (p : Panel φ) (c : Call) : Panel φ := { p with calls := p.calls ++ [c] }

/-- Checks that the address can be used at all. -/
def validate (p : Panel φ) : Panel φ × Except String Unit :=
  (p, (validateAddress p.settings.url).mapError Issue.message)

/-- Claims the numeric datatypes that nobody has claimed. -/
def claimNumeric (p : Panel φ) : Panel φ × Except String Unit :=
  let catalog := p.session.catalog.installNumeric
  ({ p with session := { p.session with catalog } },
    if catalog.size = 0 then .error "no field types available" else .ok ())

/-- Why there was no `hello` in time. -/
def timeoutReason (p : Panel φ) : String :=
  "no hello from " ++ p.settings.url ++ " within " ++
    decimalText p.settings.connectTimeout.toNat ++ " ms"

def closedReason : String := "event channel closed"

def shutdownReason : String := "shutdown requested"

/-- Why the connection ended before a `hello`. -/
def lostReason (p : Panel φ) : String :=
  p.session.link.lastFailure.getD "connection closed before hello"

/-- Whether the connection is gone and there was no `hello`. -/
def lost (p : Panel φ) : Bool := p.session.status == .disconnected && !p.session.greeted

variable [FieldKind φ]

/-- Handles an event other than a shutdown. -/
def step (p : Panel φ) (e : Event) : Panel φ :=
  let (session, commands) := p.session.step e
  { p with session }.call (.carryOut commands)

/-- Handles events until the first `hello`, the loss of the connection, or the end of the wait. -/
def awaitHello (p : Panel φ) : List Receipt → Panel φ × Except String Unit
  | [] =>
    ({ p with inbox := [] }, if p.session.greeted then .ok () else .error closedReason)
  | r :: rs =>
    if p.session.greeted then ({ p with inbox := r :: rs }, .ok ())
    else match r with
      | .silence => ({ p with inbox := rs }, .error p.timeoutReason)
      | .event .shutdown => ({ p with inbox := rs, shutdown := true }, .error shutdownReason)
      | .event e =>
        let p := p.step e
        if p.lost then ({ p with inbox := rs }, .error p.lostReason) else p.awaitHello rs

/-- Opens the first connection and waits for its `hello`. -/
def dial (p : Panel φ) : Panel φ × Except String Unit :=
  let (session, commands) := p.session.dial
  ({ p with session }.call (.carryOut commands)).awaitHello p.inbox

/-- Handles events until the wait is over. -/
def awaitSilence (p : Panel φ) : List Receipt → Panel φ × Except String Unit
  | [] => ({ p with inbox := [] }, .error closedReason)
  | .silence :: rs => ({ p with inbox := rs }, .ok ())
  | .event .shutdown :: rs => ({ p with inbox := rs, shutdown := true }, .error shutdownReason)
  | .event e :: rs => (p.step e).awaitSilence rs

/-- Shows the panel, after a wait if there is one. -/
def reveal (p : Panel φ) : Panel φ × Except String Unit :=
  if p.settings.revealDelay = 0 then (p.call .reveal, .ok ())
  else match p.awaitSilence p.inbox with
    | (p, .ok ()) => (p.call .reveal, .ok ())
    | (p, .error reason) => (p, .error reason)

def stages : List (Stage (Panel φ)) :=
  [⟨"Validating socket endpoint", validate⟩, ⟨"Registering field types", claimNumeric⟩,
    ⟨"Connecting to application", dial⟩, ⟨"Rendering variables", reveal⟩]

/-- A failed startup is final: no transport is left, and connecting again is not offered. -/
def giveUp (p : Panel φ) (issue : Issue) : Panel φ :=
  ((p.call .hangUp).call (.carryOut [.status .disconnected])).call
    (.showBanner (startupBanner issue.message))

/-- Runs the startup; tells whether the panel is shown. A shutdown ends it without a word. -/
def startUp (p : Panel φ) : Panel φ × Bool :=
  match Pipeline.run (fun p progress => p.call (.advance progress)) stages p with
  | (p, .ok ()) => (p, true)
  | (p, .error issue) => (if p.shutdown then p else p.giveUp issue, false)

/-- Handles events until a shutdown or the end of the channel. -/
def serve (p : Panel φ) : List Receipt → Panel φ
  | [] => { p with inbox := [] }
  | .silence :: rs => p.serve rs
  | .event .shutdown :: rs => { p with inbox := rs, shutdown := true }
  | .event e :: rs => (p.step e).serve rs

omit [FieldKind φ] in
/-- Ignores events until a shutdown or the end of the channel. -/
def linger (p : Panel φ) : List Receipt → Panel φ
  | [] => { p with inbox := [] }
  | .event .shutdown :: rs => { p with inbox := rs, shutdown := true }
  | _ :: rs => p.linger rs

def run (p : Panel φ) : Panel φ :=
  match p.startUp with
  | (p, true) => p.serve p.inbox
  | (p, false) => if p.shutdown then p else p.linger p.inbox

end Panel
end LivePanel
