import LivePanel.Proofs.Panel.Waits

/-!
# Endings of a startup

Whatever a panel receives, how its startup ends can be read off that: the panel is shown, or
somebody asked for the end, or one stage failed for a reason. Main statement: `startUp_decided`.
-/
namespace LivePanel

inductive Ending where
  | revealed : Ending
  | aborted : Ending
  | failed : (label reason : String) → Ending
  deriving DecidableEq

/-- What a panel calls for last. A failure leaves no transport and is told with its stage. -/
def Ending.calls : Ending → List Call
  | .revealed => [.reveal]
  | .aborted => []
  | .failed label reason =>
    [.hangUp, .carryOut [.status .disconnected],
      .showBanner ("Task failed: " ++ label ++ ": " ++ reason)]

/-- Calls that can come before the end of a startup. -/
def Call.routine : Call → Prop
  | .advance _ | .carryOut _ => True
  | .reveal | .hangUp | .showBanner _ => False

/-- A wait that does not lead on ends the startup. -/
def Verdict.ending (label : String) (next : Ending) : Verdict → Ending
  | .passed => next
  | .aborted => .aborted
  | .failed reason => .failed label reason

namespace Settings

/-- The wait for a first `hello`. -/
def firstWait (st : Settings) (inbox : List Receipt) : Wait := wait st.connecting? inbox

/-- The wait before the panel is shown; without a delay there is none. -/
def lastWait (st : Settings) (rs : List Receipt) : Wait :=
  if st.revealDelay = 0 then ⟨[], .passed, rs⟩ else wait revealing? rs

/-- How a startup ends that is given this to receive. -/
def ending (st : Settings) (inbox : List Receipt) : Ending :=
  match validateAddress st.url with
  | .error issue => .failed "Validating socket endpoint" issue.message
  | .ok () =>
    let first := st.firstWait inbox
    let last := st.lastWait first.rest
    first.verdict.ending "Connecting to application"
      (last.verdict.ending "Rendering variables" .revealed)

end Settings

/-- What is left of a text without its lead. -/
theorem drop_lead (lead rest : String) :
    String.ofList (if lead.toList.isPrefixOf (lead ++ rest).toList then
      (lead ++ rest).toList.drop lead.toList.length else (lead ++ rest).toList) = rest := by
  have hlead : lead.toList.isPrefixOf (lead.toList ++ rest.toList) = true := by
    rw [List.isPrefixOf_iff_prefix]
    exact List.prefix_append _ _
  rw [String.toList_append, if_pos hlead, List.drop_left, String.ofList_toList]

theorem append_four (a b c d : String) : a ++ b ++ c ++ d = a ++ (b ++ c ++ d) := by
  rw [String.append_assoc, String.append_assoc, String.append_assoc]

theorem startupBanner_message (label reason : String) :
    startupBanner (Issue.stageFailed label reason).message =
      "Task failed: " ++ label ++ ": " ++ reason := by
  have hmessage : (Issue.stageFailed label reason).message =
      "task failed: " ++ (label ++ ": " ++ reason) := append_four _ _ _ _
  rw [hmessage, append_four "Task failed: "]
  exact congrArg ("Task failed: " ++ ·) (drop_lead "task failed: " (label ++ ": " ++ reason))

namespace Panel

variable {φ : Type} [FieldKind φ]

/-- Ends a startup. -/
def conclude (p : Panel φ) : Ending → Panel φ × Bool
  | .revealed => (p.call .reveal, true)
  | .aborted => (p, false)
  | .failed label reason => (p.giveUp (.stageFailed label reason), false)

omit [FieldKind φ] in
theorem calls_conclude (p : Panel φ) (e : Ending) :
    (p.conclude e).1.calls = p.calls ++ e.calls := by
  cases e with
  | revealed => rfl
  | aborted => simp [conclude, Ending.calls]
  | failed label reason =>
    simp only [conclude, giveUp, call, startupBanner_message, Ending.calls, List.append_assoc]
    rfl

omit [FieldKind φ] in
theorem shown_conclude (p : Panel φ) (e : Ending) : (p.conclude e).2 = decide (e = .revealed) := by
  cases e <;> rfl

omit [FieldKind φ] in
theorem shutdown_conclude (p : Panel φ) (e : Ending) :
    (p.conclude e).1.shutdown = p.shutdown := by cases e <;> rfl

theorem reveal_eq (p : Panel φ) :
    p.reveal =
      match p.waited (p.settings.lastWait p.inbox) with
      | (p, .ok ()) => (p.call .reveal, .ok ())
      | (p, .error reason) => (p, .error reason) := by
  unfold reveal Settings.lastWait
  split
  · simp [waited, steps, Verdict.aborts, Verdict.result]
  · rcases hw : p.waited (wait revealing? p.inbox) with ⟨q, reason | u⟩
    · simp only [awaitSilence_eq, hw]
    · simp only [awaitSilence_eq, hw]

variable {c : Catalog φ} {st : Settings} {inbox : List Receipt}

/-- A panel after its wait for a first `hello`. -/
def introduced (c : Catalog φ) (st : Settings) (inbox : List Receipt) : Panel φ :=
  ((dialed c st inbox).waited (st.firstWait inbox)).1

/-- A panel after both its waits. -/
def settled (c : Catalog φ) (st : Settings) (inbox : List Receipt) : Panel φ :=
  (((introduced c st inbox).call finale).waited (st.lastWait (st.firstWait inbox).rest)).1

theorem awaitHello_dialed :
    (dialed c st inbox).awaitHello inbox =
      (introduced c st inbox, (st.firstWait inbox).verdict.result) :=
  awaitHello_eq (Session.waiting_dial c.installNumeric st.url) inbox

theorem shutdown_introduced :
    (introduced c st inbox).shutdown = (st.firstWait inbox).verdict.aborts := rfl

theorem shutdown_settled :
    (settled c st inbox).shutdown = ((st.firstWait inbox).verdict.aborts ||
      (st.lastWait (st.firstWait inbox).rest).verdict.aborts) := rfl

theorem startUp_halted (hv : validateAddress st.url = .ok ())
    (hfirst : (st.firstWait inbox).verdict ≠ .passed) :
    (new c st inbox).startUp = (introduced c st inbox).conclude (st.ending inbox) := by
  rw [startUp_valid hv, awaitHello_dialed]
  cases hverdict : (st.firstWait inbox).verdict with
  | passed => exact absurd hverdict hfirst
  | aborted =>
    have hending : st.ending inbox = .aborted := by
      simp only [Settings.ending, hv, hverdict, Verdict.ending]
    simp only [Verdict.result, hending, conclude, fail, shutdown_introduced, hverdict,
      Verdict.aborts, if_true]
  | failed reason =>
    have hending : st.ending inbox = .failed "Connecting to application" reason := by
      simp only [Settings.ending, hv, hverdict, Verdict.ending]
    simp only [Verdict.result, hending, conclude, fail, shutdown_introduced, hverdict,
      Verdict.aborts, Bool.false_eq_true, if_false]

theorem startUp_passed (hv : validateAddress st.url = .ok ())
    (hfirst : (st.firstWait inbox).verdict = .passed) :
    (new c st inbox).startUp = (settled c st inbox).conclude (st.ending inbox) := by
  have hending : st.ending inbox = (st.lastWait (st.firstWait inbox).rest).verdict.ending
      "Rendering variables" .revealed := by
    simp only [Settings.ending, hv, hfirst, Verdict.ending]
  have hsettings : ((introduced c st inbox).call finale).settings = st :=
    (dialed c st inbox).settings_steps _
  have hreveal : ((introduced c st inbox).call finale).reveal =
      match (settled c st inbox, (st.lastWait (st.firstWait inbox).rest).verdict.result) with
      | (p, .ok ()) => (p.call .reveal, .ok ())
      | (p, .error reason) => (p, .error reason) := by
    rw [reveal_eq, hsettings]
    rfl
  rw [startUp_valid hv, awaitHello_dialed, hfirst, hending]
  simp only [Verdict.result, hreveal]
  cases hverdict : (st.lastWait (st.firstWait inbox).rest).verdict with
  | passed => rfl
  | aborted =>
    simp only [Verdict.ending, conclude, fail, shutdown_settled, hfirst, hverdict,
      Verdict.aborts, Bool.false_or, if_true]
  | failed reason =>
    simp only [Verdict.ending, conclude, fail, shutdown_settled, hfirst, hverdict,
      Verdict.aborts, Bool.or_false, Bool.false_eq_true, if_false]

theorem calls_introduced :
    (introduced c st inbox).calls =
      overture ++ ((opening c st).2 :: (opening c st).1.answers (st.firstWait inbox).events).map
        .carryOut := by
  have hsteps := (dialed c st inbox).calls_steps (st.firstWait inbox).events
  rw [List.map_cons, List.append_cons]
  exact hsteps

theorem calls_settled :
    (settled c st inbox).calls = (introduced c st inbox).calls ++ finale ::
      ((introduced c st inbox).session.answers
        (st.lastWait (st.firstWait inbox).rest).events).map .carryOut := by
  have hsteps := ((introduced c st inbox).call finale).calls_steps
    (st.lastWait (st.firstWait inbox).rest).events
  rw [List.append_cons]
  exact hsteps

variable (c st inbox) in
/-- The commands that dial and those that answer the wait for a `hello` dial just once. -/
theorem dials_introduced :
    dials ((opening c st).2 :: (opening c st).1.answers (st.firstWait inbox).events).flatten =
      [⟨1, st.url, subProtocol⟩] := by
  have hwait : ∀ cs ∈ (opening c st).1.answers (st.firstWait inbox).events, dials cs = [] :=
    (Session.waiting_dial c.installNumeric st.url).dials_wait st inbox
  rw [List.flatten_cons, dials_append, dials_flatten hwait]
  rfl

omit [FieldKind φ] in
theorem calls_linger (p : Panel φ) (rs : List Receipt) : (p.linger rs).calls = p.calls := by
  induction rs with
  | nil => rfl
  | cons r rs ih =>
    cases r with
    | silence => exact ih
    | event e => cases e <;> first | rfl | exact ih

/-- How a startup goes that is given this to receive. -/
structure Decided (c : Catalog φ) (st : Settings) (inbox : List Receipt) : Prop where
  shown : (new c st inbox).startUp.2 = decide (st.ending inbox = .revealed)
  shutdown : (new c st inbox).startUp.1.shutdown = decide (st.ending inbox = .aborted)
  /-- The last calls are those of the ending; what comes before is progress and commands. -/
  closing : ∃ before, (new c st inbox).startUp.1.calls = before ++ (st.ending inbox).calls ∧
    ∀ call ∈ before, call.routine
  /-- A panel that is not shown makes no calls after its startup. -/
  final : st.ending inbox ≠ .revealed →
    (new c st inbox).run.calls = (new c st inbox).startUp.1.calls
  /-- An address that cannot be used ends the startup at its first stage, and nothing is dialed. -/
  invalid : ∀ issue, validateAddress st.url = .error issue →
    (new c st inbox).startUp.1.calls = overture.take 1 ++ (st.ending inbox).calls ∧
      dials (executed (new c st inbox).run.calls) = []
  /-- With any other there are field types, and the third stage dials once. It leads on to the
  fourth, or else the startup ends with it. -/
  connecting : validateAddress st.url = .ok () →
    (new c st inbox).claimNumeric.2 = .ok () ∧
      ∃ (replies : List (List Command)) (after : List Call),
        (new c st inbox).startUp.1.calls = overture ++ replies.map .carryOut ++ after ∧
        dials replies.flatten = [⟨1, st.url, subProtocol⟩] ∧
        ((st.firstWait inbox).verdict = .passed → after.head? = some finale) ∧
        ((st.firstWait inbox).verdict ≠ .passed → after = (st.ending inbox).calls)

theorem routine_carryOut {replies : List (List Command)} {call : Call}
    (h : call ∈ replies.map Call.carryOut) : call.routine := by
  obtain ⟨cs, -, rfl⟩ := List.mem_map.1 h
  trivial

theorem routine_overture {call : Call} (h : call ∈ overture) : call.routine := by
  simp only [overture, List.mem_cons, List.not_mem_nil, or_false] at h
  rcases h with rfl | rfl | rfl <;> trivial

theorem routine_introduced {call : Call} (h : call ∈ (introduced c st inbox).calls) :
    call.routine := by
  rw [calls_introduced] at h
  obtain ho | hr := List.mem_append.1 h
  · exact routine_overture ho
  · exact routine_carryOut hr

theorem routine_settled {call : Call} (h : call ∈ (settled c st inbox).calls) : call.routine := by
  rw [calls_settled] at h
  obtain hi | hrest := List.mem_append.1 h
  · exact routine_introduced hi
  · obtain rfl | hr := List.mem_cons.1 hrest
    · trivial
    · exact routine_carryOut hr

/-- A startup comes to its ending from a panel that made nothing but routine calls. -/
theorem startUp_eq (c : Catalog φ) (st : Settings) (inbox : List Receipt) :
    ∃ p : Panel φ, (new c st inbox).startUp = p.conclude (st.ending inbox) ∧
      p.shutdown = decide (st.ending inbox = .aborted) ∧ ∀ call ∈ p.calls, call.routine := by
  cases hv : validateAddress st.url with
  | error issue =>
    have hending : st.ending inbox = .failed "Validating socket endpoint" issue.message := by
      simp only [Settings.ending, hv]
    refine ⟨{ new c st inbox with calls := overture.take 1 }, ?_, ?_, ?_⟩
    · rw [startUp_invalid hv, hending]
      rfl
    · rw [hending]
      rfl
    · exact fun call h => routine_overture (List.mem_of_mem_take h)
  | ok u =>
    cases hfirst : (st.firstWait inbox).verdict with
    | passed =>
      refine ⟨settled c st inbox, startUp_passed hv hfirst, ?_, fun call => routine_settled⟩
      rw [shutdown_settled, hfirst]
      simp only [Settings.ending, hv, hfirst, Verdict.ending]
      cases (st.lastWait (st.firstWait inbox).rest).verdict <;> rfl
    | aborted | failed reason =>
      refine ⟨introduced c st inbox, startUp_halted hv (by simp [hfirst]), ?_,
        fun call => routine_introduced⟩
      rw [shutdown_introduced, hfirst]
      simp only [Settings.ending, hv, hfirst, Verdict.ending]
      rfl

variable (c inbox) in
theorem calls_startUp_invalid {issue : Issue} (hv : validateAddress st.url = .error issue) :
    (new c st inbox).startUp.1.calls = overture.take 1 ++ (st.ending inbox).calls := by
  have hending : st.ending inbox = .failed "Validating socket endpoint" issue.message := by
    simp only [Settings.ending, hv]
  have hcalls := calls_conclude { new c st inbox with calls := overture.take 1 } (st.ending inbox)
  rw [startUp_invalid hv]
  rw [hending] at hcalls ⊢
  exact hcalls

variable (c inbox) in
/-- After the wait for a `hello` a startup goes on to the last stage, or ends. -/
theorem calls_startUp (hv : validateAddress st.url = .ok ()) :
    ∃ after, (new c st inbox).startUp.1.calls = (introduced c st inbox).calls ++ after ∧
      ((st.firstWait inbox).verdict = .passed → after.head? = some finale) ∧
      ((st.firstWait inbox).verdict ≠ .passed → after = (st.ending inbox).calls) := by
  by_cases hfirst : (st.firstWait inbox).verdict = .passed
  · rw [startUp_passed hv hfirst, calls_conclude, calls_settled, List.append_assoc]
    exact ⟨_, rfl, fun _ => rfl, fun h => absurd hfirst h⟩
  · rw [startUp_halted hv hfirst, calls_conclude]
    exact ⟨_, rfl, fun h => absurd h hfirst, fun _ => rfl⟩

theorem run_of_not_shown {p : Panel φ} (h : p.startUp.2 = false) :
    p.run.calls = p.startUp.1.calls := by
  unfold run
  rcases hs : p.startUp with ⟨q, shown⟩
  rw [hs] at h
  cases h
  simp only
  split
  · rfl
  · exact q.calls_linger q.inbox

end Panel

/-- What is received decides how a startup ends, and the session has no say in it. -/
theorem startUp_decided {φ : Type} [FieldKind φ] (c : Catalog φ) (st : Settings)
    (inbox : List Receipt) : Panel.Decided c st inbox := by
  obtain ⟨p, hstart, hdown, hroutine⟩ := Panel.startUp_eq c st inbox
  have hshown : (Panel.new c st inbox).startUp.2 = decide (st.ending inbox = .revealed) := by
    rw [hstart, Panel.shown_conclude]
  have hfinal : st.ending inbox ≠ .revealed →
      (Panel.new c st inbox).run.calls = (Panel.new c st inbox).startUp.1.calls := by
    intro hne
    exact Panel.run_of_not_shown (by rw [hshown, decide_eq_false hne])
  constructor
  case shown => exact hshown
  case shutdown => rw [hstart, Panel.shutdown_conclude, hdown]
  case closing => exact ⟨p.calls, by rw [hstart, Panel.calls_conclude], hroutine⟩
  case final => exact hfinal
  case invalid =>
    intro issue hv
    have hcalls := Panel.calls_startUp_invalid c inbox hv
    have hending : st.ending inbox = .failed "Validating socket endpoint" issue.message := by
      simp only [Settings.ending, hv]
    refine ⟨hcalls, ?_⟩
    rw [hfinal (by rw [hending]; simp), hcalls, hending]
    rfl
  case connecting =>
    intro hv
    obtain ⟨after, hcalls, hon, hoff⟩ := Panel.calls_startUp c inbox hv
    have honce := Panel.dials_introduced c st inbox
    refine ⟨by rw [Panel.claimNumeric_eq], _, after, ?_, honce, hon, hoff⟩
    rw [hcalls, Panel.calls_introduced]

end LivePanel
