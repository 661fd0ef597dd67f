import LivePanel.Proofs.Panel.Steps
import LivePanel.Proofs.Session.Waiting

/-!
# Waits of a startup

Both waits of a startup take events until something decides. What decides, and when, can be read off
what is received, without a look at the session. Main statements: `awaitHello_eq` and
`awaitSilence_eq`.
-/
namespace LivePanel

/-- The event that a receipt passes on; a shutdown is none. -/
def Receipt.taken : Receipt → List Event
  | .silence => []
  | .event .shutdown => []
  | .event e => [e]

/-- A wait that is over. -/
structure Wait where
  /-- The events taken, with the one that decided. -/
  events : List Event
  verdict : Verdict
  /-- What is still to be received. -/
  rest : List Receipt

/-- A wait ends at the first receipt with a verdict, or else where the channel is closed. -/
def wait (verdict? : Receipt → Option Verdict) : List Receipt → Wait
  | [] => ⟨[], .failed "event channel closed", []⟩
  | r :: rs =>
    match verdict? r with
    | some v => ⟨r.taken, v, rs⟩
    | none =>
      let w := wait verdict? rs
      { w with events := r.taken ++ w.events }

/-- What decides the wait for a first `hello`. -/
def Settings.connecting? (st : Settings) : Receipt → Option Verdict
  | .silence =>
    some (.failed ("no hello from " ++ st.url ++ " within " ++
      decimalText st.connectTimeout.toNat ++ " ms"))
  | .event e => e.verdict?

/-- What decides the wait before a panel is shown. -/
def revealing? : Receipt → Option Verdict
  | .silence => some .passed
  | .event .shutdown => some .aborted
  | .event _ => none

/-- The events received before the first shutdown. -/
def heard : List Receipt → List Event
  | [] => []
  | .silence :: rs => heard rs
  | .event .shutdown :: _ => []
  | .event e :: rs => e :: heard rs

theorem heard_event {e : Event} (he : e ≠ .shutdown) (rs : List Receipt) :
    heard (.event e :: rs) = e :: heard rs := by
  cases e <;> first | rfl | exact absurd rfl he

theorem taken_event {e : Event} (he : e ≠ .shutdown) : (Receipt.event e).taken = [e] := by
  cases e <;> first | rfl | exact absurd rfl he

theorem heard_cons {r : Receipt} (hr : r ≠ .event .shutdown) (rs : List Receipt) :
    heard (r :: rs) = r.taken ++ heard rs := by
  cases r with
  | silence => rfl
  | event e =>
    have he : e ≠ .shutdown := fun h => hr (by rw [h])
    rw [heard_event he, taken_event he]
    rfl

/-- A shutdown hides all that comes after it. -/
theorem heard_shutdown (before after : List Receipt) :
    heard (before ++ .event .shutdown :: after) = heard before := by
  induction before with
  | nil => rfl
  | cons r rs ih =>
    by_cases hr : r = .event .shutdown
    · rw [hr]
      rfl
    · rw [List.cons_append, heard_cons hr, heard_cons hr, ih]

section

variable {verdict? : Receipt → Option Verdict}

theorem wait_some {r : Receipt} {v : Verdict} (hv : verdict? r = some v) (rs : List Receipt) :
    wait verdict? (r :: rs) = ⟨r.taken, v, rs⟩ := by rw [wait, hv]

theorem wait_none {r : Receipt} (hv : verdict? r = none) (rs : List Receipt) :
    wait verdict? (r :: rs) =
      ⟨r.taken ++ (wait verdict? rs).events, (wait verdict? rs).verdict,
        (wait verdict? rs).rest⟩ := by rw [wait, hv]

/-- A wait that leads on loses nothing. -/
theorem heard_wait (aborting : verdict? (.event .shutdown) = some .aborted) {rs : List Receipt}
    (h : (wait verdict? rs).verdict = .passed) :
    heard rs = (wait verdict? rs).events ++ heard (wait verdict? rs).rest := by
  induction rs with
  | nil => cases h
  | cons r rs ih =>
    by_cases hr : r = .event .shutdown
    · rw [hr, wait_some aborting] at h
      cases h
    · rw [heard_cons hr]
      cases hv : verdict? r with
      | some v => rw [wait_some hv]
      | none =>
        rw [wait_none hv] at h ⊢
        rw [ih h, List.append_assoc]

/-- A wait that leads on ends before a shutdown, and does not depend on what comes after it. -/
theorem wait_shutdown (aborting : verdict? (.event .shutdown) = some .aborted)
    {before after : List Receipt}
    (h : (wait verdict? (before ++ .event .shutdown :: after)).verdict = .passed) :
    ∃ events rest, ∀ late, wait verdict? (before ++ .event .shutdown :: late) =
      ⟨events, .passed, rest ++ .event .shutdown :: late⟩ := by
  induction before with
  | nil =>
    rw [List.nil_append, wait_some aborting] at h
    cases h
  | cons r rs ih =>
    simp only [List.cons_append] at h ⊢
    cases hv : verdict? r with
    | some v =>
      rw [wait_some hv] at h
      cases h
      exact ⟨r.taken, rs, fun late => wait_some hv _⟩
    | none =>
      rw [wait_none hv] at h
      obtain ⟨events, rest, hrest⟩ := ih h
      exact ⟨r.taken ++ events, rest, fun late => by rw [wait_none hv, hrest late]⟩

end

/-- A receipt that passes no event on decides against going on. -/
theorem Settings.connecting_cases (st : Settings) (r : Receipt) :
    (r.taken = [] ∧ ∃ v, st.connecting? r = some v ∧ v ≠ .passed) ∨
      ∃ e, e ≠ .shutdown ∧ r = .event e ∧ r.taken = [e] := by
  cases r with
  | silence => exact .inl ⟨rfl, _, rfl, by simp⟩
  | event e =>
    by_cases he : e = .shutdown
    · subst he
      exact .inl ⟨rfl, _, rfl, by simp⟩
    · exact .inr ⟨e, he, rfl, taken_event he⟩

def Verdict.aborts : Verdict → Bool
  | .aborted => true
  | .passed | .failed _ => false

def Verdict.result : Verdict → Except String Unit
  | .passed => .ok ()
  | .aborted => .error "shutdown requested"
  | .failed reason => .error reason

namespace Session

variable {φ : Type} [FieldKind φ]

/-- No part of the wait for a `hello` dials again. -/
theorem Waiting.dials_wait (st : Settings) {s : Session φ} (hw : Waiting s) (rs : List Receipt) :
    ∀ cs ∈ s.answers (wait st.connecting? rs).events, dials cs = [] := by
  induction rs generalizing s with
  | nil => simp [wait, answers]
  | cons r rs ih =>
    obtain ⟨ht, v, hv, -⟩ | ⟨e, -, rfl, ht⟩ := st.connecting_cases r
    · rw [wait_some hv, ht]
      simp [answers]
    · cases hv : st.connecting? (.event e) with
      | some v =>
        rw [wait_some hv, ht]
        simp [answers, hw.dials_step e]
      | none =>
        rw [wait_none hv, ht]
        intro cs hcs
        obtain rfl | hrest := List.mem_cons.1 hcs
        · exact hw.dials_step e
        · exact ih (hw.step hv) cs hrest

/-- A wait that leads on ends with the first event that greets. -/
theorem Waiting.greeted_wait (st : Settings) {s : Session φ} (hw : Waiting s) {rs : List Receipt}
    (h : (wait st.connecting? rs).verdict = .passed) :
    ∃ es e, (wait st.connecting? rs).events = es ++ [e] ∧ (s.run es).1.greeted = false ∧
      (s.run (es ++ [e])).1.greeted = true := by
  induction rs generalizing s with
  | nil => cases h
  | cons r rs ih =>
    obtain ⟨-, v, hv, hne⟩ | ⟨e, -, rfl, ht⟩ := st.connecting_cases r
    · rw [wait_some hv] at h
      exact absurd h hne
    · cases hv : st.connecting? (.event e) with
      | some v =>
        rw [wait_some hv] at h ⊢
        cases h
        exact ⟨[], e, ht, hw.ungreeted, hw.greeted_step hv⟩
      | none =>
        rw [wait_none hv] at h ⊢
        obtain ⟨es, f, hes, hbefore, hafter⟩ := ih (hw.step hv) h
        refine ⟨e :: es, f, ?_, hbefore, hafter⟩
        rw [ht, hes]
        rfl

end Session

namespace Panel

variable {φ : Type} [FieldKind φ]

/-- A panel that has waited, and what came of it. -/
def waited (p : Panel φ) (w : Wait) : Panel φ × Except String Unit :=
  ({ p.steps w.events with inbox := w.rest, shutdown := p.shutdown || w.verdict.aborts },
    w.verdict.result)

theorem awaitHello_greeted {p : Panel φ} (hp : p.session.greeted = true) (rs : List Receipt) :
    p.awaitHello rs = ({ p with inbox := rs }, .ok ()) := by
  cases rs <;> simp [awaitHello, hp]

theorem awaitHello_event {p : Panel φ} (hp : p.session.greeted = false) {e : Event}
    (he : e ≠ .shutdown) (rs : List Receipt) :
    p.awaitHello (.event e :: rs) =
      if (p.step e).lost then ({ p.step e with inbox := rs }, .error (p.step e).lostReason)
      else (p.step e).awaitHello rs := by
  cases e <;> first | exact absurd rfl he | simp [awaitHello, hp]

/-- While a session waits for a first `hello`, its panel waits as the receipts decide. -/
theorem awaitHello_eq {p : Panel φ} (hw : p.session.Waiting) (rs : List Receipt) :
    p.awaitHello rs = p.waited (wait p.settings.connecting? rs) := by
  induction rs generalizing p with
  | nil =>
    simp only [awaitHello, hw.ungreeted, wait, waited, Verdict.aborts, Bool.or_false]
    rfl
  | cons r rs ih =>
    cases r with
    | silence =>
      rw [wait_some rfl]
      simp only [awaitHello, hw.ungreeted, waited, Verdict.aborts, Bool.or_false]
      rfl
    | event e =>
      by_cases he : e = .shutdown
      · subst he
        rw [wait_some rfl]
        simp only [awaitHello, hw.ungreeted, waited, Verdict.aborts, Bool.or_true]
        rfl
      · rw [awaitHello_event hw.ungreeted he]
        cases hv : p.settings.connecting? (.event e) with
        | none =>
          have hnext : (p.step e).session.Waiting := hw.step hv
          rw [wait_none hv, taken_event he, if_neg (by simp [lost, Session.status, hnext.linked]),
            ih hnext]
          rfl
        | some v =>
          rw [wait_some hv, taken_event he]
          cases v with
          | aborted => exact absurd (Event.eq_shutdown hv) he
          | passed =>
            have hgreeted : (p.step e).session.greeted = true := hw.greeted_step hv
            rw [if_neg (by simp [lost, hgreeted]), awaitHello_greeted hgreeted]
            simp [waited, steps, Verdict.aborts, Verdict.result, step_eq]
          | failed reason =>
            obtain ⟨hungreeted, hstatus, hreason⟩ := hw.lost_step hv
            have hlost : (p.step e).lost = true := by
              simp [lost, step_eq, hstatus, hungreeted]
            have hwhy : (p.step e).lostReason = reason := hreason
            rw [if_pos hlost, hwhy]
            simp [waited, steps, Verdict.aborts, Verdict.result, step_eq]

theorem awaitSilence_eq (p : Panel φ) (rs : List Receipt) :
    p.awaitSilence rs = p.waited (wait revealing? rs) := by
  induction rs generalizing p with
  | nil =>
    simp only [awaitSilence, wait, waited, Verdict.aborts, Bool.or_false]
    rfl
  | cons r rs ih =>
    cases r with
    | silence =>
      rw [wait_some rfl]
      simp only [awaitSilence, waited, Verdict.aborts, Bool.or_false]
      rfl
    | event e =>
      by_cases he : e = .shutdown
      · subst he
        rw [wait_some rfl]
        simp only [awaitSilence, waited, Verdict.aborts, Bool.or_true]
        rfl
      · have hawait : p.awaitSilence (.event e :: rs) = (p.step e).awaitSilence rs := by
          cases e <;> first | exact absurd rfl he | rfl
        have hv : revealing? (.event e) = none := by
          cases e <;> first | exact absurd rfl he | rfl
        rw [hawait, ih, wait_none hv, taken_event he]
        rfl

end Panel
end LivePanel
