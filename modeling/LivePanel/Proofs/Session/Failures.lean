import LivePanel.Proofs.Field.Label
import LivePanel.Proofs.Session.Inputs
import LivePanel.Proofs.Store.Failures

/-!
# Failures in a session

A session adds one failure to those of its store: an edit that is read but cannot be sent. Main
statement: `failures_contained`.
-/
namespace LivePanel

variable {φ : Type} [FieldKind φ]

/-- Every failure leaves the store as it should. Where fields keep their texts when they refuse a
value, the issue of an entry tells what is left of it. An edit, whether it is sent, refused or lost
for want of a connection, changes at most the text of the field that it is for. -/
theorem failures_contained (steady : Steady φ) {s : Session φ} (hs : s.store.Keyed) :
    s.store.FailsSafely ∧
      ∀ key text, s.store.RewordedAt key (s.step (.edit key text)).1.store := by
  refine ⟨Store.failsSafely steady hs, fun key text => ?_⟩
  rw [Session.step, Session.store_edit]
  exact s.store.rewordedAt_edit key text

/-- A number and a label, both rendered, while there is no connection. -/
def disconnected : Session Label :=
  { Session.new Catalog.withNumeric "ws://h" with
    store := Store.empty.deliver
      (.hello (Catalog.withNumeric.register [.time] Label.maker)
        [.array [(Handle.number 1).json, .null, .string "int", .null, .null,
            (Handle.number 2).json],
          .array [(Handle.text "1").json, .null, .string "time"]]) }

/-- A `hello` that names the number anew keeps its text where the value is none. -/
theorem failures_contained_disconnected :
    Steady Label ∧ disconnected.store.Keyed ∧ disconnected.store.FailsSafely ∧
      (∀ key text,
        disconnected.store.RewordedAt key (disconnected.step (.edit key text)).1.store) ∧
      ((disconnected.store.arrive (.hello .withNumeric
        (.array [(Handle.number 1).json, .string "gain", .string "int", .null, .null,
          .string "x"]))).find? (.number 1)).map (fun v => (v.name, v.text?)) =
        some ("gain", some "2") :=
  have hkeyed : disconnected.store.Keyed := Store.keyed_empty.deliver _
  ⟨steady_label, hkeyed, (failures_contained steady_label hkeyed).1,
    (failures_contained steady_label hkeyed).2, by decide +kernel⟩

end LivePanel
