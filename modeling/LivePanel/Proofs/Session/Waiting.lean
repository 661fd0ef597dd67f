import LivePanel.Proofs.Session.Answers

/-!
# Waiting for a first hello

A session that has dialed once and was not greeted yet. Few events decide how such a wait ends, and
any other leaves the session waiting, without another dial and without a failure on record. Main
statements: `Waiting.step`, `Waiting.greeted_step` and `Waiting.lost_step`.
-/
namespace LivePanel

/-- How a wait ends: it leads on, somebody asks for the end, or it fails. -/
inductive Verdict where
  | passed : Verdict
  | aborted : Verdict
  | failed : (reason : String) → Verdict

/-- What the first connection decides by what it reports. Any `hello` will do. -/
def Report.verdict? : Report → Option Verdict
  | .opened => none
  | .closed => some (.failed "connection closed before hello")
  | .errored reason => some (.failed reason)
  | .message payload =>
    match Message.ofText payload with
    | .ok (.hello _) => some .passed
    | _ => none

/-- What an event decides about the wait for a first `hello`. -/
def Event.verdict? : Event → Option Verdict
  | .transport generation report => if generation = 1 then report.verdict? else none
  | .shutdown => some .aborted
  | .edit _ _ | .reconnect => none

theorem Event.eq_shutdown {e : Event} (he : e.verdict? = some .aborted) : e = .shutdown := by
  cases e with
  | shutdown => rfl
  | edit key text | reconnect => cases he
  | transport generation report =>
    simp only [verdict?] at he
    split at he
    · cases report with
      | opened | closed | errored reason => cases he
      | message payload =>
        simp only [Report.verdict?] at he
        split at he <;> cases he
    · cases he

/-- But for a shutdown, only the first connection decides. -/
theorem Event.eq_transport {e : Event} {v : Verdict} (he : e.verdict? = some v)
    (hv : v ≠ .aborted) : ∃ report, e = .transport 1 report ∧ report.verdict? = some v := by
  cases e with
  | shutdown => exact absurd (Option.some.inj he).symm hv
  | edit key text | reconnect => cases he
  | transport generation report =>
    simp only [verdict?] at he
    split at he
    · rename_i hg
      exact ⟨report, by rw [hg], he⟩
    · cases he

namespace Session

variable {φ : Type} [FieldKind φ]

/-- A report of any connection but the present one is lost. -/
theorem report_foreign (s : Session φ) {generation : UInt64}
    (h : s.link.owns generation = false) (report : Report) :
    s.report generation report = (s, []) := by
  cases report <;> simp [Session.report, Link.opened, Link.closed, Link.failed, h, settle]

theorem link_edit (s : Session φ) (key text : String) : (s.edit key text).1.link = s.link := by
  obtain ⟨refusal, -, he⟩ | ⟨u, -, -, he⟩ | ⟨u, -, -, he⟩ := s.edit_cases key text <;>
    simp only [he, reject]

theorem hellos_edit (s : Session φ) (key text : String) :
    (s.edit key text).1.tally.hellos = s.tally.hellos := by
  obtain ⟨refusal, -, he⟩ | ⟨u, -, -, he⟩ | ⟨u, -, -, he⟩ := s.edit_cases key text <;>
    simp only [he, reject]

theorem link_receive (s : Session φ) (payload : String) : (s.receive payload).1.link = s.link := by
  unfold receive
  split <;> rfl

theorem hellos_receive (s : Session φ) (payload : String) :
    (s.receive payload).1.tally.hellos = s.tally.hellos +
      match Message.ofText payload with
      | .ok (.hello _) => 1
      | _ => 0 := by
  unfold receive
  split <;> simp_all [hello, refresh, conclude]

/-- A session whose first connection is under way or open, without a `hello` or a failure so far. -/
structure Waiting (s : Session φ) : Prop where
  ungreeted : s.greeted = false
  first : s.link.generation = 1
  linked : s.link.status ≠ .disconnected
  faultless : s.link.lastFailure = none

omit [FieldKind φ] in
theorem waiting_dial (c : Catalog φ) (url : String) : Waiting (new c url).dial.1 :=
  ⟨rfl, rfl, by simp [new, dial, Link.dial], rfl⟩

omit [FieldKind φ] in
theorem Waiting.of_eq {s t : Session φ} (hw : Waiting s) (hlink : t.link = s.link)
    (hhellos : t.tally.hellos = s.tally.hellos) : Waiting t := by
  constructor
  · simp only [greeted, hhellos]
    exact hw.ungreeted
  · rw [hlink]
    exact hw.first
  · rw [hlink]
    exact hw.linked
  · rw [hlink]
    exact hw.faultless

/-- An event that decides nothing leaves the session waiting. -/
theorem Waiting.step {s : Session φ} (hw : Waiting s) {e : Event} (he : e.verdict? = none) :
    Waiting (s.step e).1 := by
  cases e with
  | shutdown => cases he
  | reconnect =>
    rw [s.dials_reconnect hw.linked]
    exact hw
  | edit key text => exact hw.of_eq (s.link_edit key text) (s.hellos_edit key text)
  | transport generation report =>
    by_cases hg : generation = 1
    · simp only [Event.verdict?, if_pos hg] at he
      cases report with
      | closed | errored reason => cases he
      | opened =>
        simp only [Session.step, Session.report, Link.opened]
        split
        · exact ⟨hw.ungreeted, hw.first, by simp [settle], rfl⟩
        · exact hw
      | message payload =>
        simp only [Session.step, Session.report]
        split
        · refine hw.of_eq (s.link_receive payload) ?_
          rw [hellos_receive]
          simp only [Report.verdict?] at he
          split at he
          · cases he
          · exact UInt64.add_zero _
        · exact hw
    · have hforeign : s.link.owns generation = false := by simp [Link.owns, hw.first, hg]
      simp only [Session.step, s.report_foreign hforeign]
      exact hw

theorem Waiting.dials_step {s : Session φ} (hw : Waiting s) (e : Event) :
    dials (s.step e).2 = [] := by
  by_cases he : e = .reconnect
  · rw [he, s.dials_reconnect hw.linked]
    rfl
  · exact s.dials_step he

omit [FieldKind φ] in
theorem Waiting.owns {s : Session φ} (hw : Waiting s) : s.link.owns 1 = true := by
  simp [Link.owns, hw.first]

omit [FieldKind φ] in
theorem Waiting.hellos_eq_zero {s : Session φ} (hw : Waiting s) : s.tally.hellos = 0 := by
  have hungreeted : ¬ 0 < s.tally.hellos := of_decide_eq_false hw.ungreeted
  exact UInt64.le_zero_iff.1 (UInt64.not_lt.1 hungreeted)

theorem Waiting.greeted_step {s : Session φ} (hw : Waiting s) {e : Event}
    (he : e.verdict? = some .passed) : (s.step e).1.greeted = true := by
  obtain ⟨report, rfl, hr⟩ := Event.eq_transport he (by simp)
  cases report with
  | opened | closed | errored reason => cases hr
  | message payload =>
    simp only [Session.step, Session.report, if_pos hw.owns, greeted, hellos_receive,
      hw.hellos_eq_zero]
    simp only [Report.verdict?] at hr
    split at hr
    · rfl
    · cases hr

/-- A connection that is lost has left the reason behind. -/
theorem Waiting.lost_step {s : Session φ} (hw : Waiting s) {e : Event} {reason : String}
    (he : e.verdict? = some (.failed reason)) :
    (s.step e).1.greeted = false ∧ (s.step e).1.status = .disconnected ∧
      (s.step e).1.link.lastFailure.getD "connection closed before hello" = reason := by
  obtain ⟨report, rfl, hr⟩ := Event.eq_transport he (by simp)
  cases report with
  | opened => cases hr
  | closed =>
    cases hr
    simp only [Session.step, Session.report, Link.closed, if_pos hw.owns, Link.drop,
      if_neg hw.linked, settle]
    exact ⟨hw.ungreeted, rfl, by rw [hw.faultless]; rfl⟩
  | errored failure =>
    cases hr
    simp only [Session.step, Session.report, Link.failed, if_pos hw.owns, Link.drop,
      if_neg hw.linked, settle]
    exact ⟨hw.ungreeted, rfl, rfl⟩
  | message payload =>
    simp only [Report.verdict?] at hr
    split at hr <;> cases hr

end Session
end LivePanel
