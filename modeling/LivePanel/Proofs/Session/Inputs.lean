import LivePanel.Proofs.Session.Answers

/-!
# Runs of a session

A session takes events, and between them its host may register fields. A run keeps a mark for every
command and for every edit that found its variable. The store moves by deliveries alone, and its
screen moves as the marks tell. Main statements: `store_take` and `run_play`.
-/
namespace LivePanel

open Screen (Run)

/-- What can happen to a session. -/
inductive Input (φ : Type) where
  | event : Event → Input φ
  | register : List Datatype → Maker φ → Input φ
  | installNumeric : Input φ

namespace Session

variable {φ : Type} [FieldKind φ]

def take (s : Session φ) : Input φ → Session φ × List Command
  | .event e => s.step e
  | .register ds m => ({ s with catalog := s.catalog.register ds m }, [])
  | .installNumeric => ({ s with catalog := s.catalog.installNumeric }, [])

/-- The variable that an edit finds. -/
def edited? (s : Session φ) : Input φ → Option Handle
  | .event (.edit key _) => s.store.resolve? key
  | _ => none

/-- An edit is marked before the commands that answer it. -/
def marks (s : Session φ) (i : Input φ) : List Mark :=
  (s.edited? i).toList.map .edited ++ (s.take i).2.map .command

/-- The session after some inputs, and all marks in order. -/
def play (s : Session φ) : List (Input φ) → Session φ × List Mark
  | [] => (s, [])
  | i :: is => (((s.take i).1.play is).1, s.marks i ++ ((s.take i).1.play is).2)

theorem play_append_eq (s : Session φ) (is js : List (Input φ)) :
    s.play (is ++ js) = (((s.play is).1.play js).1, (s.play is).2 ++ ((s.play is).1.play js).2) := by
  induction is generalizing s with
  | nil => rfl
  | cons i is ih => rw [List.cons_append, play, ih, play, List.append_assoc]

/-- What an input delivers to the store. -/
def delivery? (s : Session φ) : Input φ → Option (Delivery φ)
  | .event (.transport generation (.message payload)) =>
    if s.link.owns generation then
      match Message.ofText payload with
      | .ok (.hello entries) => some (.hello s.catalog entries)
      | .ok (.refresh entries) => some (.refresh entries)
      | _ => none
    else none
  | .event (.edit key text) => some (.edit key text)
  | _ => none

omit [FieldKind φ] in
theorem store_dial (s : Session φ) : s.dial.1.store = s.store := by
  unfold dial
  split <;> rfl

theorem store_edit (s : Session φ) (key text : String) :
    (s.edit key text).1.store = (s.store.edit key text).1 := by
  obtain ⟨refusal, -, he⟩ | ⟨u, -, -, he⟩ | ⟨u, -, -, he⟩ := s.edit_cases key text <;>
    simp only [he, reject]

/-- Nothing but a delivery changes the store. -/
theorem store_take (s : Session φ) (i : Input φ) :
    (s.take i).1.store = (s.delivery? i).elim s.store s.store.deliver := by
  cases i with
  | register ds m => rfl
  | installNumeric => rfl
  | event e =>
    cases e with
    | reconnect => exact s.store_dial
    | shutdown => rfl
    | edit key text => exact s.store_edit key text
    | transport generation report =>
      cases report with
      | opened | closed | errored reason => rfl
      | message payload =>
        simp only [take, step, report, delivery?]
        split
        · simp only [receive]
          split <;> simp_all [hello, refresh, conclude, Store.deliver]
        · rfl

theorem Keyed.take {s : Session φ} (hs : s.store.Keyed) (i : Input φ) :
    (s.take i).1.store.Keyed := by
  rw [store_take]
  cases s.delivery? i with
  | none => exact hs
  | some d => exact hs.deliver d

omit [FieldKind φ] in
theorem presents?_dial (s : Session φ) : ∀ c ∈ s.dial.2, c.presents? = none := by
  unfold dial
  split <;> simp [Command.presents?]

omit [FieldKind φ] in
theorem presents?_settle (s : Session φ) (news : Link × Option Status) :
    ∀ c ∈ (s.settle news).2, c.presents? = none := by
  obtain ⟨link, _ | status⟩ := news <;> simp [settle, Command.presents?]

/-- Beside the command that takes it back, an edit gives none that presents a text. -/
theorem commands_edit (s : Session φ) (key text : String) :
    ∃ cs, (s.edit key text).2 = Store.undone (s.store.edit key text).2 ++ cs ∧
      ∀ c ∈ cs, c.presents? = none := by
  obtain ⟨refusal, hr, he⟩ | ⟨u, hr, -, he⟩ | ⟨u, hr, -, he⟩ := s.edit_cases key text <;>
    rw [he, hr]
  · exact ⟨[], (List.append_nil _).symm, by simp⟩
  · exact ⟨[], rfl, by simp⟩
  · exact ⟨[.send u], rfl, by simp [Command.presents?]⟩

/-- The marks of an input tell how it moves the screen. -/
theorem run_take (steady : Steady φ) {s : Session φ} (hs : s.store.Keyed) (i : Input φ) :
    Run s.store.screen (s.marks i) (s.take i).1.store.screen := by
  cases i with
  | register ds m => exact .nil
  | installNumeric => exact .nil
  | event e =>
    cases e with
    | shutdown => exact .nil
    | reconnect =>
      simp only [marks, edited?, take, step, store_dial]
      exact Run.others _ _ s.presents?_dial
    | edit key text =>
      obtain ⟨cs, hcs, hquiet⟩ := s.commands_edit key text
      have hedit := Store.run_edit steady s.store key text
      simp only [marks, edited?, take, step, store_edit, hcs, List.map_append,
        ← List.append_assoc]
      exact hedit.trans (Run.others _ cs hquiet)
    | transport generation report =>
      cases report with
      | opened => exact Run.others _ _ (s.presents?_settle (s.link.opened generation))
      | closed => exact Run.others _ _ (s.presents?_settle (s.link.closed generation))
      | errored reason =>
        exact Run.others _ _ (s.presents?_settle (s.link.failed generation reason))
      | message payload =>
        simp only [marks, edited?, take, step, report, Option.toList_none, List.map_nil,
          List.nil_append]
        split
        · simp only [receive]
          split
          · exact .nil
          · exact Store.run_hello steady s.catalog hs _
          · exact Store.run_refresh steady hs _
          · exact .nil
        · exact .nil

theorem run_play (steady : Steady φ) {s : Session φ} (hs : s.store.Keyed) (is : List (Input φ)) :
    Run s.store.screen (s.play is).2 (s.play is).1.store.screen := by
  induction is generalizing s with
  | nil => exact .nil
  | cons i is ih => exact (run_take steady hs i).trans (ih (Keyed.take hs i))

end Session
end LivePanel
