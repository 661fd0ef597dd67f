import LivePanel.Proofs.Field.Label
import LivePanel.Proofs.Panel.Failures
import LivePanel.Window.Host

/-!
# Failed startups in the window

After a startup that failed no call is made, whatever is still received. The window is left hidden,
with a banner, the label of a closed connection and no offer to connect again, and no transport is
left. Main statement: `failure_final`.
-/
namespace LivePanel

namespace Window

theorem visible_apply {w : Window} {c : WindowCall} (hc : c ≠ .reveal) :
    (w.apply c).visible = w.visible := by
  cases c with
  | reveal => exact absurd rfl hc
  | attach | «show» =>
    simp only [apply]
    split <;> rfl
  | status | progress | banner => rfl

theorem visible_applyAll {cs : List WindowCall} (hcs : WindowCall.reveal ∉ cs) (w : Window) :
    (w.applyAll cs).visible = w.visible := by
  unfold applyAll
  induction cs generalizing w with
  | nil => rfl
  | cons c cs ih =>
    have hc : c ≠ .reveal := fun h => hcs (h ▸ List.mem_cons_self)
    rw [List.foldl_cons, ih (fun h => hcs (List.mem_cons_of_mem c h)), visible_apply hc]

end Window

theorem Call.reveal_not_mem_windowCalls {c : Call} (hc : c.routine) :
    WindowCall.reveal ∉ c.windowCalls := by
  cases c with
  | advance progress => simp [windowCalls]
  | carryOut commands =>
    intro hmem
    obtain ⟨command, -, hcommand⟩ := List.mem_filterMap.1 hmem
    cases command <;> cases hcommand
  | reveal | hangUp | showBanner banner => exact hc.elim

namespace Host

theorem window_send (h : Host) (u : Update) : (h.send u).window = h.window := by
  unfold send
  split <;> rfl

theorem window_carry (h : Host) (c : Command) : (h.carry c).window = h.window := by
  cases c with
  | send u => exact h.window_send u
  | dial | render | «show» | status => rfl

theorem window_perform (h : Host) (c : Call) :
    (h.perform c).window = h.window.applyAll c.windowCalls := by
  cases c with
  | advance | reveal | hangUp | showBanner => rfl
  | carryOut commands =>
    have hcarry : ∀ g : Host, (commands.foldl carry g).window = g.window := by
      induction commands with
      | nil => exact fun _ => rfl
      | cons command commands ih => exact fun g => (ih (g.carry command)).trans (g.window_carry _)
    exact hcarry _

/-- Routine calls do not show a window. -/
theorem visible_performAll {cs : List Call} (hcs : ∀ c ∈ cs, c.routine) (h : Host) :
    (h.performAll cs).window.visible = h.window.visible := by
  unfold performAll
  induction cs generalizing h with
  | nil => rfl
  | cons c cs ih =>
    have hc := Call.reveal_not_mem_windowCalls (hcs c List.mem_cons_self)
    rw [List.foldl_cons, ih fun d hd => hcs d (List.mem_cons_of_mem c hd), window_perform,
      Window.visible_applyAll hc]

end Host

namespace Panel

variable {φ : Type} [FieldKind φ]

/-- How a panel is left that gave up at a stage, for a reason. -/
structure Abandoned (p : Panel φ) (label reason : String) : Prop where
  /-- The calls end with those for a failure; what comes before is progress and commands. -/
  closing : ∃ before, p.run.calls = before ++ (Ending.failed label reason).calls ∧
    ∀ call ∈ before, call.routine
  /-- No call is made after the startup, and the session is left as it was then, with its tally. -/
  final : p.run.calls = p.startUp.1.calls ∧ p.run.session = p.startUp.1.session
  /-- The run ends with the first shutdown that is received, or else with the channel. -/
  returned : p.run.inbox = (p.startUp.1.inbox.dropWhile (· != .event .shutdown)).tail ∧
    p.run.shutdown = p.startUp.1.inbox.contains (.event .shutdown)
  /-- Whatever else might have been received after the failure, all this would be the same. -/
  deaf : ∀ later, (p.startUp.1.linger later).calls = p.run.calls ∧
    (p.startUp.1.linger later).session = p.run.session
  /-- What is left of a new host that carries out the calls. -/
  hosted : ∀ settings, let host := (Host.new settings).performAll p.run.calls
    host.transport = none ∧
      host.window.failure = "Task failed: " ++ label ++ ": " ++ reason ∧
      host.window.offersReconnect = false ∧
      host.window.status = Status.disconnected.label ∧
      host.window.visible = false

end Panel

/-- A failed startup is final, whatever the session was at its start and whatever is received. -/
theorem failure_final {φ : Type} [FieldKind φ] (p : Panel φ) (fresh : p.calls = [])
    (failed : p.startUp.2 = false) (unasked : p.startUp.1.shutdown = false) :
    ∃ label reason, p.Abandoned label reason := by
  obtain ⟨q, label, reason, ⟨before, hq, hbefore⟩, hstart⟩ := Panel.startUp_failed failed unasked
  have hclosing : p.startUp.1.calls = before ++ (Ending.failed label reason).calls := by
    have hgive : (q.giveUp (.stageFailed label reason)).calls =
        q.calls ++ (Ending.failed label reason).calls := q.calls_conclude (.failed label reason)
    rw [hstart, hgive, hq, fresh, List.nil_append]
  have hrun : p.run = _ := (Panel.run_failed failed unasked).trans (Panel.linger_eq _ _)
  have hcalls : p.run.calls = p.startUp.1.calls := by rw [hrun]
  have hsession : p.run.session = p.startUp.1.session := by rw [hrun]
  refine ⟨label, reason, ?_⟩
  constructor
  case closing => exact ⟨before, hcalls.trans hclosing, hbefore⟩
  case final => exact ⟨hcalls, hsession⟩
  case returned =>
    rw [hrun, unasked]
    exact ⟨rfl, Bool.false_or _⟩
  case deaf =>
    intro later
    rw [hcalls, hsession, Panel.linger_eq]
    exact ⟨rfl, rfl⟩
  case hosted =>
    intro settings
    have hvisible := (Host.new settings).visible_performAll hbefore
    rw [hcalls, hclosing]
    unfold Host.performAll at hvisible ⊢
    rw [List.foldl_append]
    exact ⟨rfl, rfl, rfl, rfl, hvisible⟩

/-- A connection that stays silent for too long, and what arrives once the panel has given up. -/
def silentInbox : List Receipt :=
  [.event (.transport 1 .opened), .silence, .event .reconnect,
    .event (.transport 1 (.message "\x7b\"type\":\"hello\",\"vars\":[]\x7d")),
    .event (.edit "n:1" "5"), .event (.transport 1 .closed), .event .shutdown, .event .reconnect]

/-- The session still takes its connection for open when the panel gives up. -/
theorem failure_final_silent :
    let p : Panel Label := .new .empty .default silentInbox
    (∃ label reason, p.Abandoned label reason) ∧ p.run.session.status = .connected ∧
      p.run.inbox = [.event .reconnect] :=
  ⟨failure_final _ rfl (by decide +kernel) (by decide +kernel), by decide +kernel,
    by decide +kernel⟩

end LivePanel
