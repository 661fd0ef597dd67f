import LivePanel.Proofs.Session.Statuses
import LivePanel.Proofs.Window.Rows

/-!
# The connection in the window

A window labels the connection with the status it was told last, and offers to connect again while
there is none. What it shows is what the session has. Main statement: `connection_shown`.
-/
namespace LivePanel

namespace Window

/-- Whether a window shows a status: its label, and the offer that goes with it. -/
def Shows (w : Window) (a : Status) : Prop :=
  w.status = a.label ∧ w.offersReconnect = a.offersReconnect

theorem shows_new : ({} : Window).Shows .disconnected := ⟨rfl, rfl⟩

theorem carryOut_cons (w : Window) (c : Command) (cs : List Command) :
    w.carryOut (c :: cs) = (c.windowCall?.elim w w.apply).carryOut cs := by
  unfold carryOut applyAll
  cases hc : c.windowCall? <;> simp [hc]

theorem Shows.apply {w : Window} {a : Status} (hw : w.Shows a) (c : Command) :
    (c.windowCall?.elim w w.apply).Shows (c.status?.getD a) := by
  cases c with
  | dial request | send u => exact hw
  | status b => exact ⟨rfl, rfl⟩
  | render view | «show» h text =>
    simp only [Command.windowCall?, Option.elim_some, Window.apply]
    split
    · exact hw
    · exact hw

/-- A window that carries out commands shows the status they tell last. -/
theorem Shows.carryOut {w : Window} {a : Status} (hw : w.Shows a) (cs : List Command) :
    (w.carryOut cs).Shows ((statuses cs).getLastD a) := by
  induction cs generalizing w a with
  | nil => exact hw
  | cons c cs ih =>
    have hnext := ih (hw.apply c)
    rw [carryOut_cons]
    cases hc : c.status? with
    | none =>
      have hstatuses : statuses (c :: cs) = statuses cs := List.filterMap_cons_none hc
      rw [hc, Option.getD_none] at hnext
      rwa [hstatuses]
    | some b =>
      have hstatuses : statuses (c :: cs) = b :: statuses cs := List.filterMap_cons_some hc
      rw [hc, Option.getD_some] at hnext
      rwa [hstatuses, List.getLastD_cons]

end Window

variable {φ : Type} [FieldKind φ]

namespace Session

/-- What is told of the connection in a run of a session with this address. -/
structure TellsConnection (s : Session φ) (url : String) (inputs : List (Input φ)) : Prop where
  /-- The status told last is the present one. Before the first there is no connection. -/
  last : (statuses (commands (s.play inputs).2)).getLastD .disconnected = (s.play inputs).1.status
  path : List.IsChain Status.Leads (.disconnected :: statuses (commands (s.play inputs).2))
  unrepeated : List.IsChain (· ≠ ·) (.disconnected :: statuses (commands (s.play inputs).2))
  /-- A connection is opened right after its status was told, and nothing else is done with it. -/
  dialed : ∀ i request, .dial request ∈ ((s.play inputs).1.take i).2 →
    ((s.play inputs).1.take i).2 = [.status .connecting, .dial request]
  numbered : ∀ k request, (s.openings inputs)[k]? = some request →
    request.url = url ∧ request.subProtocol = subProtocol ∧
      (k + 1 < UInt64.size → request.generation.toNat = k + 1)
  /-- While there is a connection, or an attempt at one, nobody connects again. -/
  unmoved : (s.play inputs).1.status ≠ .disconnected →
    (s.play inputs).1.step .reconnect = ((s.play inputs).1, [])
  faultless : (s.play inputs).1.status = .connected → (s.play inputs).1.link.lastFailure = none
  shown : (({} : Window).carryOut (commands (s.play inputs).2)).Shows (s.play inputs).1.status

end Session

/-- What the user sees of the connection is what it is. Whatever happens to a session, the statuses it
tells are a path of its connection, and a new window that carries out its commands ends up with the
label and the offer of the present status. -/
theorem connection_shown (c : Catalog φ) (url : String) (inputs : List (Input φ)) :
    (Session.new c url).TellsConnection url inputs := by
  obtain ⟨hpath, hlast⟩ := (Session.new c url).statuses_play inputs
  constructor
  case last => exact hlast
  case path => exact hpath
  case unrepeated => exact hpath.imp fun _ _ h => h.ne
  case dialed => exact fun i request => Session.take_eq_of_dial
  case numbered =>
    intro k request hk
    have hrequest := (Session.new c url).openings_numbered inputs k hk
    refine ⟨by rw [hrequest]; rfl, by rw [hrequest], fun hsize => ?_⟩
    have hcount : (Session.new c url).link.generation.toNat + (k + 1) < UInt64.size := by
      change 0 + (k + 1) < UInt64.size
      omega
    rw [hrequest, toNat_count hcount]
    exact Nat.zero_add (k + 1)
  case unmoved => exact Session.dials_reconnect _
  case faultless =>
    have hfirst : (Session.new c url).link.status = .connected →
        (Session.new c url).link.lastFailure = none := fun _ => rfl
    exact Session.faultless_play hfirst inputs
  case shown =>
    rw [← hlast]
    exact Window.shows_new.carryOut (commands ((Session.new c url).play inputs).2)

end LivePanel
