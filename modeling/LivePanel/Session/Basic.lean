import LivePanel.Session.Link
import LivePanel.Store.Basic

/-!
A session: the catalog of fields, the variables, the connection and a tally. It takes one event
after another and answers each with commands; `run` folds `step` over a list of events.
-/
namespace LivePanel

/-- What a transport reports. -/
inductive Report where
  | opened : Report
  | closed : Report
  | errored : (reason : String) → Report
  | message : (payload : String) → Report
  deriving DecidableEq

inductive Event where
  | transport : (generation : UInt64) → Report → Event
  /-- A user committed a text in the field with this key. -/
  | edit : (key text : String) → Event
  | reconnect : Event
  | shutdown : Event
  deriving DecidableEq

/-- How often the session met what. A count that passes the largest word begins anew. -/
structure Tally where
  hellos : UInt64 := 0
  refreshes : UInt64 := 0
  malformed : UInt64 := 0
  unrecognized : UInt64 := 0
  issues : UInt64 := 0
  sent : UInt64 := 0
  rejected : UInt64 := 0
  deriving DecidableEq

structure Session (φ : Type) where
  catalog : Catalog φ
  store : Store φ
  link : Link
  tally : Tally

namespace Session

variable {φ : Type}

def new (c : Catalog φ) (url : String) : Session φ := ⟨c, .empty, { url }, {}⟩

def status (s : Session φ) : Status := s.link.status

/-- Whether a `hello` has been taken since the session began. -/
def greeted (s : Session φ) : Bool := 0 < s.tally.hellos

/-- Starts an attempt to connect; nothing happens unless disconnected. -/
def dial (s : Session φ) : Session φ × List Command :=
  match s.link.dial with
  | (link, some request) => ({ s with link }, [.status .connecting, .dial request])
  | (link, none) => ({ s with link }, [])

/-- Keeps the link and passes on a change of status. -/
def settle (s : Session φ) : Link × Option Status → Session φ × List Command
  | (link, news) => ({ s with link }, (news.map Command.status).toList)

variable [FieldKind φ]

/-- Keeps what a message made of the store, and counts its issues. -/
def conclude (s : Session φ) : Store φ × Outcomes → Session φ × List Command
  | (store, os) =>
    let issues := s.tally.issues + .ofNat os.issues.length
    ({ s with store, tally := { s.tally with issues } }, os.commands)

omit [FieldKind φ] in
theorem conclude_of_no_issues (s : Session φ) (store : Store φ) {os : Outcomes}
    (hos : os.issues = []) : s.conclude (store, os) = ({ s with store }, os.commands) := by
  have hissues : s.tally.issues + .ofNat os.issues.length = s.tally.issues := by
    rw [hos]
    exact UInt64.add_zero _
  rw [conclude, hissues]

def hello (s : Session φ) (entries : List Json) : Session φ × List Command :=
  let s := { s with tally := { s.tally with hellos := s.tally.hellos + 1 } }
  s.conclude (s.store.hello s.catalog entries)

def refresh (s : Session φ) (entries : List Json) : Session φ × List Command :=
  let s := { s with tally := { s.tally with refreshes := s.tally.refreshes + 1 } }
  s.conclude (s.store.refresh entries)

def receive (s : Session φ) (payload : String) : Session φ × List Command :=
  match Message.ofText payload with
  | .error _ => ({ s with tally := { s.tally with malformed := s.tally.malformed + 1 } }, [])
  | .ok (.hello entries) => s.hello entries
  | .ok (.refresh entries) => s.refresh entries
  | .ok (.unrecognized _) =>
    ({ s with tally := { s.tally with unrecognized := s.tally.unrecognized + 1 } }, [])

def report (s : Session φ) (generation : UInt64) : Report → Session φ × List Command
  | .opened => s.settle (s.link.opened generation)
  | .errored reason => s.settle (s.link.failed generation reason)
  | .closed => s.settle (s.link.closed generation)
  | .message payload => if s.link.owns generation then s.receive payload else (s, [])

def reject (s : Session φ) (commands : List Command) : Session φ × List Command :=
  ({ s with tally := { s.tally with rejected := s.tally.rejected + 1 } }, commands)

/-- An edit is sent or rejected. It changes the field before it is known whether it can be sent. -/
def edit (s : Session φ) (key text : String) : Session φ × List Command :=
  match s.store.edit key text with
  | (store, .error refusal) => { s with store }.reject refusal.restore.toList
  | (store, .ok update) =>
    let s := { s with store }
    match s.link.allow update with
    | .ok update =>
      ({ s with tally := { s.tally with sent := s.tally.sent + 1 } }, [.send update])
    | .error _ => s.reject []

def step (s : Session φ) : Event → Session φ × List Command
  | .transport generation report => s.report generation report
  | .edit key text => s.edit key text
  | .reconnect => s.dial
  | .shutdown => (s, [])

/-- The session after some events, and all commands in order. -/
def run (s : Session φ) : List Event → Session φ × List Command
  | [] => (s, [])
  | e :: es =>
    let (s, cs) := s.step e
    let (s, ds) := s.run es
    (s, cs ++ ds)

@[simp] theorem run_nil (s : Session φ) : s.run [] = (s, []) := rfl

theorem run_cons (s : Session φ) (e : Event) (es : List Event) :
    s.run (e :: es) =
      (((s.step e).1.run es).1, (s.step e).2 ++ ((s.step e).1.run es).2) := rfl

theorem run_append (s : Session φ) (es fs : List Event) :
    s.run (es ++ fs) = (((s.run es).1.run fs).1, (s.run es).2 ++ ((s.run es).1.run fs).2) := by
  induction es generalizing s with
  | nil => simp
  | cons e es ih => simp [run_cons, ih]

end Session
end LivePanel
