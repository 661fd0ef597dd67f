import LivePanel.Proofs.Store.Display
import LivePanel.Session.Basic

/-!
# Answers of a session

What a session answers to one event after another. A message is answered by nothing but texts to
present, and a dial is part of an answer only where a disconnected session was asked to connect
again.
Main statements: `edit_cases`, `presents_receive` and `dials_step`.
-/
namespace LivePanel

def Command.dialed? : Command → Option Opening
  | .dial request => some request
  | _ => none

/-- The connections that some commands open, in order. -/
def dials (cs : List Command) : List Opening := cs.filterMap Command.dialed?

@[simp] theorem dials_append (cs ds : List Command) : dials (cs ++ ds) = dials cs ++ dials ds :=
  List.filterMap_append

theorem dials_flatten {replies : List (List Command)} (h : ∀ cs ∈ replies, dials cs = []) :
    dials replies.flatten = [] := by
  induction replies with
  | nil => rfl
  | cons cs replies ih =>
    rw [List.flatten_cons, dials_append, h cs List.mem_cons_self,
      ih fun ds hds => h ds (List.mem_cons_of_mem cs hds)]
    rfl

theorem dials_of_presents {cs : List Command} (h : ∀ c ∈ cs, c.presents?.isSome = true) :
    dials cs = [] := by
  rw [dials, List.filterMap_eq_nil_iff]
  intro c hc
  have hp := h c hc
  cases c <;> first | rfl | cases hp

variable {φ : Type} [FieldKind φ]

namespace Outcomes

/-- An outcome whose command, if it has one, presents a text. -/
def Presents (o : Except Issue (Option Command)) : Prop :=
  ∀ c ∈ told o, c.presents?.isSome = true

theorem presents_error (e : Issue) : Presents (.error e) := by simp [Presents, told]

theorem presents_none : Presents (.ok none) := by simp [Presents, told]

theorem presents_render (view : View) : Presents (.ok (some (.render view))) := by
  simp [Presents, told, Command.presents?]

theorem presents_show (h : Handle) (text : String) : Presents (.ok (some (.show h text))) := by
  simp [Presents, told, Command.presents?]

end Outcomes

open Outcomes

namespace Variable

theorem presents_refresh (v : Variable φ) (x : Json) : Presents (v.refresh x).2 := by
  simp only [refresh]
  rcases (v.accept x).2 with e | _ | text
  · exact presents_error e
  · exact presents_none
  · exact presents_show v.handle text

theorem presents_reveal (c : Catalog φ) (v : Variable φ) : Presents (v.reveal c).2 := by
  rw [reveal]
  rcases v.render c with e | ⟨w, view⟩
  · exact presents_error e
  · exact presents_render view

theorem presents_amend (v : Variable φ) (d : Descriptor) : Presents (v.amend d).2 := by
  rw [amend]
  cases v.absorb { d with value := none } with
  | error e => exact presents_error e
  | ok w =>
    simp only
    split
    · exact w.presents_refresh _
    · exact presents_none

end Variable

theorem Descriptor.presents_step (c : Catalog φ) (d : Descriptor) (o : Option (Variable φ)) :
    Presents (d.step c o).2 := by
  cases o with
  | none =>
    rw [step]
    cases Variable.create (φ := φ) d with
    | error e => exact presents_error e
    | ok v => exact v.presents_reveal c
  | some v =>
    simp only [step, Prod.map_snd, id]
    split
    · exact v.presents_amend d
    · exact (v.overwrite d).presents_reveal c

theorem Assignment.presents_step (e : Assignment) (o : Option (Variable φ)) :
    Presents (e.step o).2 := by
  cases o with
  | none => exact presents_error _
  | some v => exact v.presents_refresh e.value

namespace Store

theorem presents_helloEntry (c : Catalog φ) (s : Store φ) (entry : Json) :
    Presents (s.helloEntry c entry).2 := by
  rw [helloEntry]
  cases Descriptor.ofJson entry with
  | error e => exact presents_error e
  | ok d =>
    rw [alter_snd]
    exact d.presents_step c _

theorem presents_refreshEntry (s : Store φ) (entry : Json) :
    Presents (s.refreshEntry entry).2 := by
  rw [refreshEntry]
  cases Assignment.ofJson entry with
  | error e => exact presents_error e
  | ok a =>
    rw [alter_snd]
    exact a.presents_step _

omit [FieldKind φ] in
theorem presents_batch {take : Store φ → Json → Store φ × Except Issue (Option Command)}
    (h : ∀ s entry, Presents (take s entry).2) (s : Store φ) (entries : List Json) :
    ∀ c ∈ Outcomes.commands (s.batch take entries).2, c.presents?.isSome = true := by
  induction entries generalizing s with
  | nil => simp [batch, Outcomes.commands]
  | cons e es ih =>
    intro c hc
    rw [batch, Outcomes.commands_cons] at hc
    obtain hfirst | hrest := List.mem_append.1 hc
    · exact h s e c hfirst
    · exact ih (take s e).1 c hrest

/-- A refused edit is taken back by showing a text, if at all. -/
theorem presents_undone (s : Store φ) (key text : String) :
    ∀ c ∈ undone (s.edit key text).2, c.presents?.isSome = true := by
  unfold edit
  cases s.resolve? key with
  | none => simp [undone]
  | some h =>
    rw [alter_snd]
    cases s.find? h with
    | none => simp [editStep, undone]
    | some v =>
      rcases hc : v.commit text with ⟨w, issue | u⟩
      · simp only [editStep, hc, undone]
        cases w.revert.2 <;> simp [Command.presents?]
      · simp [editStep, hc, undone]

end Store

namespace Session

/-- An edit is refused, or lost for want of a connection, or sent. -/
theorem edit_cases (s : Session φ) (key text : String) :
    (∃ refusal, (s.store.edit key text).2 = .error refusal ∧
      s.edit key text =
        reject { s with store := (s.store.edit key text).1 } refusal.restore.toList) ∨
    (∃ u, (s.store.edit key text).2 = .ok u ∧ s.link.status ≠ .connected ∧
      s.edit key text = reject { s with store := (s.store.edit key text).1 } []) ∨
    (∃ u, (s.store.edit key text).2 = .ok u ∧ s.link.status = .connected ∧
      s.edit key text =
        ({ s with
          store := (s.store.edit key text).1
          tally := { s.tally with sent := s.tally.sent + 1 } }, [.send u])) := by
  unfold edit
  rcases s.store.edit key text with ⟨store, refusal | u⟩
  · exact .inl ⟨refusal, rfl, rfl⟩
  · by_cases hs : s.link.status = .connected
    · refine .inr (.inr ⟨u, rfl, hs, ?_⟩)
      simp only [Link.allow, if_pos hs]
    · refine .inr (.inl ⟨u, rfl, hs, ?_⟩)
      simp only [Link.allow, if_neg hs]

/-- All that a message does is to put texts before the user. -/
theorem presents_receive (s : Session φ) (payload : String) :
    ∀ c ∈ (s.receive payload).2, c.presents?.isSome = true := by
  unfold receive
  split
  · simp
  · exact Store.presents_batch (Store.presents_helloEntry s.catalog) s.store _
  · exact Store.presents_batch Store.presents_refreshEntry s.store _
  · simp

omit [FieldKind φ] in
theorem dials_settle (s : Session φ) (news : Link × Option Status) :
    dials (s.settle news).2 = [] := by
  obtain ⟨link, _ | status⟩ := news <;> rfl

theorem dials_edit (s : Session φ) (key text : String) : dials (s.edit key text).2 = [] := by
  have hundone := dials_of_presents (s.store.presents_undone key text)
  obtain ⟨refusal, hr, he⟩ | ⟨u, -, -, he⟩ | ⟨u, -, -, he⟩ := s.edit_cases key text
  · rw [he]
    rw [hr] at hundone
    exact hundone
  · rw [he]
    rfl
  · rw [he]
    rfl

/-- A dial answers nothing but the wish to connect again. -/
theorem dials_step (s : Session φ) {e : Event} (he : e ≠ .reconnect) : dials (s.step e).2 = [] := by
  cases e with
  | reconnect => exact absurd rfl he
  | shutdown => rfl
  | edit key text => exact s.dials_edit key text
  | transport generation report =>
    cases report with
    | opened | closed | errored reason => exact s.dials_settle _
    | message payload =>
      simp only [step, report]
      split
      · exact dials_of_presents (s.presents_receive payload)
      · rfl

/-- Nor is it an answer while there is a connection or an attempt at one. -/
theorem dials_reconnect (s : Session φ) (hs : s.link.status ≠ .disconnected) :
    s.step .reconnect = (s, []) := by
  simp only [step, dial, Link.dial, if_neg hs]

/-- The commands that answer some events, event by event. -/
def answers (s : Session φ) : List Event → List (List Command)
  | [] => []
  | e :: es => (s.step e).2 :: (s.step e).1.answers es

theorem flatten_answers (s : Session φ) (es : List Event) :
    (s.answers es).flatten = (s.run es).2 := by
  induction es generalizing s with
  | nil => rfl
  | cons e es ih => rw [answers, List.flatten_cons, ih, run_cons]

end Session
end LivePanel
