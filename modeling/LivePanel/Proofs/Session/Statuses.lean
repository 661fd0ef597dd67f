import LivePanel.Proofs.Session.Connection
import Mathlib.Data.List.Chain

/-!
# Statuses

The statuses that a session tells are a path of the connection: each can follow the one before, and
the last one is where the connection stands. Main statements: `statuses_play` and `faultless_play`.
-/
namespace LivePanel

/-- The status that can follow another. -/
inductive Status.Leads : Status → Status → Prop where
  | dialed : Leads .disconnected .connecting
  | opened : Leads .connecting .connected
  | refused : Leads .connecting .disconnected
  | lost : Leads .connected .disconnected

theorem Status.leads_disconnected {a : Status} (ha : a ≠ .disconnected) :
    a.Leads .disconnected := by
  cases a with
  | disconnected => exact absurd rfl ha
  | connecting => exact .refused
  | connected => exact .lost

/-- No status follows itself. -/
theorem Status.Leads.ne {a b : Status} (h : a.Leads b) : a ≠ b := by
  cases h with
  | dialed | opened | refused | lost => simp

def Command.status? : Command → Option Status
  | .status a => some a
  | .dial _ | .send _ | .render _ | .show .. => none

/-- The statuses that some commands tell, in order. -/
def statuses (cs : List Command) : List Status := cs.filterMap Command.status?

@[simp] theorem statuses_append (cs ds : List Command) :
    statuses (cs ++ ds) = statuses cs ++ statuses ds := List.filterMap_append

theorem statuses_of_ofLink {cs : List Command} (h : ∀ c ∈ cs, c.ofLink = false) :
    statuses cs = [] := by
  rw [statuses, List.filterMap_eq_nil_iff]
  intro c hc
  have hlink := h c hc
  cases c with
  | status a => cases hlink
  | dial request | send u | render view | «show» h text => rfl

namespace Link.Turns

variable {l l' : Link} {cs : List Command}

/-- A turn tells the status if it is another, and tells nothing else of it. -/
theorem statuses_cases (ht : l.Turns (l', cs)) :
    (statuses cs = [] ∧ l'.status = l.status) ∨
      (statuses cs = [l'.status] ∧ l.status.Leads l'.status) := by
  cases ht with
  | aside hcs => exact .inl ⟨statuses_of_ofLink hcs, rfl⟩
  | dialed hs => exact .inr ⟨rfl, hs ▸ .dialed⟩
  | opened hs => exact .inr ⟨rfl, hs ▸ .opened⟩
  | closed hs | failed _ hs => exact .inr ⟨rfl, Status.leads_disconnected hs⟩
  | blamed => exact .inl ⟨rfl, rfl⟩

/-- A link that is connected has no failure on record. -/
theorem faultless (ht : l.Turns (l', cs)) (hl : l.status = .connected → l.lastFailure = none)
    (hs : l'.status = .connected) : l'.lastFailure = none := by
  cases ht with
  | aside => exact hl hs
  | dialed | closed | failed => cases hs
  | opened => rfl
  | blamed reason hd =>
    have hcontra : Status.disconnected = .connected := hd.symm.trans hs
    cases hcontra

end Link.Turns

namespace Session

variable {φ : Type} [FieldKind φ]

/-- A run tells a path of statuses that begins and ends with those of the session. -/
theorem statuses_play (s : Session φ) (is : List (Input φ)) :
    List.IsChain Status.Leads (s.status :: statuses (commands (s.play is).2)) ∧
      (statuses (commands (s.play is).2)).getLastD s.status = (s.play is).1.status := by
  induction is generalizing s with
  | nil => exact ⟨.singleton s.status, rfl⟩
  | cons i is ih =>
    obtain ⟨hchain, hlast⟩ := ih (s.take i).1
    rw [commands_play_cons, statuses_append, play]
    obtain ⟨hnone, hsame⟩ | ⟨hone, hleads⟩ := (s.turns_take i).statuses_cases
    · have hstatus : (s.take i).1.status = s.status := hsame
      rw [hnone, List.nil_append, ← hstatus]
      exact ⟨hchain, hlast⟩
    · have hfirst : statuses (s.take i).2 = [(s.take i).1.status] := hone
      rw [hfirst, List.singleton_append, List.getLastD_cons]
      exact ⟨List.isChain_cons_cons.2 ⟨hleads, hchain⟩, hlast⟩

theorem faultless_play {s : Session φ} (hs : s.link.status = .connected → s.link.lastFailure = none)
    (is : List (Input φ)) :
    (s.play is).1.link.status = .connected → (s.play is).1.link.lastFailure = none := by
  induction is generalizing s with
  | nil => exact hs
  | cons i is ih => exact ih ((s.turns_take i).faultless hs)

end Session
end LivePanel
