import LivePanel.Proofs.Panel.Failures
import LivePanel.Proofs.Panel.Phases

/-!
# Batches of a panel

However its startup ends, a panel hands over its commands in batches, one for each event that its
session handles, and the first of them opens a connection. No event is handled after a failure. Main
statement: `run_handles`.
-/
namespace LivePanel

/-- The batch of commands that a call hands over. -/
def Call.batch? : Call → Option (List Command)
  | .carryOut cs => some cs
  | .advance _ | .reveal | .hangUp | .showBanner _ => none

/-- The batches of commands that some calls hand over, in order. -/
def batches (calls : List Call) : List (List Command) := calls.filterMap Call.batch?

@[simp] theorem batches_append (cs ds : List Call) : batches (cs ++ ds) = batches cs ++ batches ds :=
  List.filterMap_append

@[simp] theorem batches_carryOut (replies : List (List Command)) :
    batches (replies.map .carryOut) = replies := by
  induction replies with
  | nil => rfl
  | cons cs replies ih => exact congrArg (cs :: ·) ih

theorem executed_eq_flatten (calls : List Call) : executed calls = (batches calls).flatten := by
  induction calls with
  | nil => rfl
  | cons c calls ih =>
    rw [executed_cons, ih]
    cases c <;> rfl

/-- A wait takes events in the order in which they are heard. -/
theorem wait_events_prefix {verdict? : Receipt → Option Verdict}
    (aborting : verdict? (.event .shutdown) = some .aborted) (rs : List Receipt) :
    (wait verdict? rs).events <+: heard rs := by
  induction rs with
  | nil => exact List.nil_prefix
  | cons r rs ih =>
    by_cases hr : r = .event .shutdown
    · rw [hr, wait_some aborting]
      exact List.nil_prefix
    · rw [heard_cons hr]
      cases hv : verdict? r with
      | some v =>
        rw [wait_some hv]
        exact List.prefix_append _ _
      | none =>
        rw [wait_none hv]
        exact (List.prefix_append_right_inj _).2 ih

theorem Settings.lastWait_events_prefix (st : Settings) (rs : List Receipt) :
    (st.lastWait rs).events <+: heard rs := by
  unfold lastWait
  split
  · exact List.nil_prefix
  · exact wait_events_prefix rfl rs

namespace Session

variable {φ : Type} [FieldKind φ]

theorem answers_append (s : Session φ) (es fs : List Event) :
    s.answers (es ++ fs) = s.answers es ++ (s.run es).1.answers fs := by
  induction es generalizing s with
  | nil => rfl
  | cons e es ih => rw [List.cons_append, answers, ih, answers, run_cons, List.cons_append]

/-- A cut through the answers is a cut through the events. -/
theorem exists_of_answers_eq_append {s : Session φ} {es : List Event}
    {xs ys : List (List Command)} (h : s.answers es = xs ++ ys) :
    ∃ fs gs, es = fs ++ gs ∧ s.answers fs = xs ∧ (s.run fs).1.answers gs = ys := by
  induction xs generalizing s es with
  | nil => exact ⟨[], es, rfl, rfl, h⟩
  | cons x xs ih =>
    cases es with
    | nil => cases h
    | cons e es =>
      obtain ⟨hx, hrest⟩ := List.cons.inj h
      obtain ⟨fs, gs, rfl, hfs, hgs⟩ := ih hrest
      exact ⟨e :: fs, gs, rfl, by rw [answers, hfs, hx], hgs⟩

end Session

namespace Panel

variable {φ : Type} [FieldKind φ]

/-- The session of a panel as it is when the panel dials, which it does like anybody who asks it to
connect again. -/
def start (c : Catalog φ) (st : Settings) : Session φ := .new c.installNumeric st.url

/-- Some calls of a panel that has handled some events: no call hangs up, and each event has its
batch. -/
structure Answers (c : Catalog φ) (st : Settings) (handled : List Event) (calls : List Call) :
    Prop where
  batches : batches calls = (start c st).answers handled
  linked : .hangUp ∉ calls

variable {c : Catalog φ} {st : Settings} {inbox : List Receipt}

theorem Answers.of_routine {handled : List Event} {calls : List Call}
    (hbatches : LivePanel.batches calls = (start c st).answers handled)
    (hcalls : ∀ call ∈ calls, call.routine) : Answers c st handled calls :=
  ⟨hbatches, fun hmem => hcalls .hangUp hmem⟩

theorem answers_overture : Answers c st [] (overture.take 1) :=
  .of_routine rfl fun _ hcall => routine_overture (List.mem_of_mem_take hcall)

theorem answers_introduced :
    Answers c st (.reconnect :: (st.firstWait inbox).events) (introduced c st inbox).calls := by
  refine .of_routine ?_ fun _ => routine_introduced
  rw [calls_introduced, batches_append, batches_carryOut]
  rfl

theorem answers_settled :
    Answers c st
      (.reconnect :: (st.firstWait inbox).events ++ (st.lastWait (st.firstWait inbox).rest).events)
      (settled c st inbox).calls := by
  refine .of_routine ?_ fun _ => routine_settled
  have hfinale : ∀ calls, batches (finale :: calls) = batches calls := fun _ => rfl
  have hsession : ((start c st).run (.reconnect :: (st.firstWait inbox).events)).1 =
      (introduced c st inbox).session := session_introduced.symm
  rw [calls_settled, batches_append, hfinale, batches_carryOut, answers_introduced.batches,
    Session.answers_append, hsession]

theorem answers_phased (early delayed late : List Event) :
    Answers c st (.reconnect :: (early ++ delayed ++ late)) (phased c st early delayed late) := by
  have hoverture : ∀ calls, batches (overture ++ calls) = batches calls := fun _ => rfl
  have hfinale : ∀ calls, batches (finale :: calls) = batches calls := fun _ => rfl
  have hreveal : ∀ calls, batches (.reveal :: calls) = batches calls := fun _ => rfl
  have hfirst : (start c st).answers (.reconnect :: (early ++ delayed ++ late)) =
      (opening c st).2 :: (opening c st).1.answers (early ++ delayed ++ late) := rfl
  constructor
  case batches =>
    rw [hfirst, Session.answers_append, Session.answers_append]
    simp only [phased, batches_append, hoverture, hfinale, hreveal, batches_carryOut,
      List.append_assoc, List.cons_append]
  case linked =>
    have hnone : ∀ replies : List (List Command), .hangUp ∉ replies.map Call.carryOut := by
      simp
    have hopening : .hangUp ∉ overture := fun h => routine_overture h
    simp [phased, finale, hopening]

/-- What the session of a panel handles, and what the panel calls for meanwhile. -/
structure Handles (c : Catalog φ) (st : Settings) (inbox : List Receipt) (handled : List Event) :
    Prop where
  /-- The session is asked to connect, and then takes events as they are heard. -/
  heard : handled <+: .reconnect :: heard inbox
  session : handled ≠ [] → (new c st inbox).run.session = ((start c st).run handled).1
  /-- After the batches there is nothing but the end of a startup that failed. -/
  calls : ∃ calls closing, (new c st inbox).run.calls = calls ++ closing ∧
    Answers c st handled calls ∧
    (closing = [] ∨ ∃ label reason, closing = (Ending.failed label reason).calls)

omit [FieldKind φ] in
theorem session_conclude (p : Panel φ) (e : Ending) : (p.conclude e).1.session = p.session := by
  cases e <;> rfl

theorem session_run_of_not_shown {p : Panel φ} (h : p.startUp.2 = false) :
    p.run.session = p.startUp.1.session := by
  unfold run
  rcases hs : p.startUp with ⟨q, shown⟩
  rw [hs] at h
  cases h
  simp only
  split
  · rfl
  · rw [linger_eq]

/-- A startup that comes to another end than being shown is followed by nothing. -/
theorem handles_of_conclude {p : Panel φ} {handled : List Event}
    (hstart : (new c st inbox).startUp = p.conclude (st.ending inbox))
    (hend : st.ending inbox ≠ .revealed)
    (hheard : handled <+: .reconnect :: LivePanel.heard inbox)
    (hsession : handled ≠ [] → p.session = ((start c st).run handled).1)
    (hcalls : Answers c st handled p.calls) : Handles c st inbox handled := by
  have hhidden : (new c st inbox).startUp.2 = false := by
    rw [hstart, shown_conclude]
    exact decide_eq_false hend
  constructor
  case heard => exact hheard
  case session =>
    intro hne
    rw [session_run_of_not_shown hhidden, hstart, session_conclude, hsession hne]
  case calls =>
    refine ⟨p.calls, (st.ending inbox).calls, ?_, hcalls, ?_⟩
    · rw [run_of_not_shown hhidden, hstart, calls_conclude]
    · cases he : st.ending inbox with
      | revealed => exact absurd he hend
      | aborted => exact .inl rfl
      | failed label reason => exact .inr ⟨label, reason, rfl⟩

/-- However a run goes, its batches answer what its session handles. -/
theorem run_handles (c : Catalog φ) (st : Settings) (inbox : List Receipt) :
    ∃ handled, Handles c st inbox handled := by
  have hfirst : (st.firstWait inbox).events <+: heard inbox := wait_events_prefix rfl inbox
  cases hv : validateAddress st.url with
  | error issue =>
    have hending : st.ending inbox = .failed "Validating socket endpoint" issue.message := by
      simp only [Settings.ending, hv]
    refine ⟨[], handles_of_conclude (p := { new c st inbox with calls := overture.take 1 }) ?_ ?_
      List.nil_prefix (absurd rfl) answers_overture⟩
    · rw [startUp_invalid hv, hending]
      rfl
    · rw [hending]
      exact Ending.noConfusion
  | ok u =>
    by_cases hpassed : (st.firstWait inbox).verdict = .passed
    · by_cases hend : st.ending inbox = .revealed
      · obtain ⟨hsession, hcalls⟩ := run_revealed (c := c) hend
        have hanswers : Answers c st (.reconnect :: heard inbox) (new c st inbox).run.calls := by
          rw [hcalls, Settings.heard_eq hend]
          exact answers_phased _ _ _
        exact ⟨.reconnect :: heard inbox, List.prefix_rfl, fun _ => hsession, _, [],
          (List.append_nil _).symm, hanswers, .inl rfl⟩
      · refine ⟨_, handles_of_conclude (startUp_passed hv hpassed) hend ?_ (fun _ => ?_)
          answers_settled⟩
        · rw [st.heard_firstWait hpassed, List.cons_append, List.prefix_cons_inj,
            List.prefix_append_right_inj]
          exact st.lastWait_events_prefix _
        · exact session_settled
    · have hend : st.ending inbox ≠ .revealed := by
        intro hrevealed
        exact hpassed (Settings.ending_eq_revealed hrevealed).2.1
      refine ⟨_, handles_of_conclude (startUp_halted hv hpassed) hend ?_ (fun _ => ?_)
        answers_introduced⟩
      · exact (List.prefix_cons_inj _).2 hfirst
      · exact session_introduced

end Panel
end LivePanel
