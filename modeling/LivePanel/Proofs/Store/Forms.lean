import Mathlib.Data.List.Forall2
import LivePanel.Proofs.Store.Replies
import LivePanel.Proofs.Wire.Forms

/-!
# Messages in different forms

What a store does with an entry hangs on what is read of it, and whatever cannot be read changes
nothing and tells nothing. So a message can be put in different form, entry by entry, and no store
tells the difference. Main statements: `Store.alike_of_forall₂` and `entries_mean_alike`.
-/
namespace LivePanel

variable {φ : Type} [FieldKind φ]

/-- Arrivals that no store tells apart. -/
def Arrival.Alike (a b : Arrival φ) : Prop :=
  ∀ s : Store φ, s.arrive a = s.arrive b ∧ s.reply a = s.reply b

theorem eq_or_error_of_toOption_eq {α ε : Type} {r t : Except ε α} (h : r.toOption = t.toOption) :
    r = t ∨ ∃ e e', r = .error e ∧ t = .error e' := by
  cases r with
  | ok a =>
    cases t with
    | ok b => exact .inl (congrArg Except.ok (Option.some.inj h))
    | error e => cases h
  | error e =>
    cases t with
    | ok b => cases h
    | error e' => exact .inr ⟨e, e', rfl, rfl⟩

/-- Only what is read of a `hello` entry counts. -/
theorem Arrival.alike_hello (c : Catalog φ) {e e' : Json}
    (h : (Descriptor.ofJson e).toOption = (Descriptor.ofJson e').toOption) :
    Alike (.hello c e) (.hello c e') := by
  intro s
  simp only [Store.arrive, Store.reply, Store.helloEntry]
  obtain hread | ⟨_, _, he, he'⟩ := eq_or_error_of_toOption_eq h
  · rw [hread]
    exact ⟨rfl, rfl⟩
  · rw [he, he']
    exact ⟨rfl, rfl⟩

/-- Only what is read of a `refresh` entry counts. -/
theorem Arrival.alike_refresh {e e' : Json}
    (h : (Assignment.ofJson e).toOption = (Assignment.ofJson e').toOption) :
    Alike (φ := φ) (.refresh e) (.refresh e') := by
  intro s
  simp only [Store.arrive, Store.reply, Store.refreshEntry]
  obtain hread | ⟨_, _, he, he'⟩ := eq_or_error_of_toOption_eq h
  · rw [hread]
    exact ⟨rfl, rfl⟩
  · rw [he, he']
    exact ⟨rfl, rfl⟩

/-- Arrivals that are alike one by one are alike as a whole. -/
theorem Store.alike_of_forall₂ {as bs : List (Arrival φ)} (h : List.Forall₂ Arrival.Alike as bs)
    (s : Store φ) : as.foldl arrive s = bs.foldl arrive s ∧ s.replies as = s.replies bs := by
  induction h generalizing s with
  | nil => exact ⟨rfl, rfl⟩
  | @cons a b as bs hfirst _ ih =>
    obtain ⟨hstore, hreply⟩ := hfirst s
    obtain ⟨hstores, hreplies⟩ := ih (s.arrive b)
    rw [List.foldl_cons, List.foldl_cons, replies, replies, hstore, hreply, hreplies]
    exact ⟨hstores, rfl⟩

theorem Store.hello_fst (c : Catalog φ) (s : Store φ) (entries : List Json) :
    (s.hello c entries).1 = (entries.map (.hello c)).foldl arrive s :=
  s.deliver_eq_foldl (.hello c entries)

theorem Store.refresh_fst (s : Store φ) (entries : List Json) :
    (s.refresh entries).1 = (entries.map .refresh).foldl arrive s :=
  s.deliver_eq_foldl (.refresh entries)

/-- An entry means the same in either of its forms. What an array says is what the object of its
values says; members that no entry has do not count, nor do the nulls of a descriptor; and messages
whose entries come from one another by such changes of form leave every store the same, and are
answered by the same commands. -/
theorem entries_mean_alike :
    EntryKind.descriptor.Coherent Descriptor.ofJson ∧
      EntryKind.assignment.Coherent Assignment.ofJson ∧
      ∀ (s : Store φ) (es es' : List Json),
        (List.Forall₂ EntryKind.descriptor.Restates es es' → ∀ c : Catalog φ,
          (s.hello c es).1 = (s.hello c es').1 ∧
            (s.hello c es).2.commands = (s.hello c es').2.commands) ∧
        (List.Forall₂ EntryKind.assignment.Restates es es' →
          (s.refresh es).1 = (s.refresh es').1 ∧
            (s.refresh es).2.commands = (s.refresh es').2.commands) := by
  refine ⟨coherent_descriptor, coherent_assignment, fun s es es' => ?_⟩
  refine ⟨fun hes c => ?_, fun hes => ?_⟩
  · have harrivals : List.Forall₂ Arrival.Alike (es.map (.hello c)) (es'.map (.hello c)) := by
      rw [List.forall₂_map_left_iff, List.forall₂_map_right_iff]
      exact hes.imp fun e e' he => Arrival.alike_hello c (coherent_descriptor.toOption_eq he)
    rw [Store.hello_fst, Store.hello_fst, Store.commands_hello, Store.commands_hello]
    exact Store.alike_of_forall₂ harrivals s
  · have harrivals :
        List.Forall₂ (Arrival.Alike (φ := φ)) (es.map .refresh) (es'.map .refresh) := by
      rw [List.forall₂_map_left_iff, List.forall₂_map_right_iff]
      exact hes.imp fun e e' he => Arrival.alike_refresh (coherent_assignment.toOption_eq he)
    rw [Store.refresh_fst, Store.refresh_fst, Store.commands_refresh, Store.commands_refresh]
    exact Store.alike_of_forall₂ harrivals s

end LivePanel
