import LivePanel.Proofs.Panel.Startup

/-!
# Failed startups

Until a startup fails it makes nothing but routine calls, whatever session it began with. After that
the panel lingers: it looks for a shutdown and for nothing else. Main statements: `startUp_failed`
and `linger_eq`.
-/
namespace LivePanel

/-- What holds between a state and the one at the failure of a pipeline, if it holds across each stage
that fails or leads on to another. -/
theorem Pipeline.runFrom_error_inv {σ : Type} {report : σ → Progress → σ} {R : σ → σ → Prop}
    (trans : ∀ s t u, R s t → R t u → R s u) (reporting : ∀ s p, R s (report s p))
    {index total : Nat} {s s' : σ} {ts : List (Stage σ)} {issue : Issue}
    (leading : ∀ t ∈ ts.dropLast, ∀ s s', t.run s = (s', .ok ()) → R s s')
    (failing : ∀ t ∈ ts, ∀ s s' reason, t.run s = (s', .error reason) → R s s')
    (h : runFrom report index total s ts = (s', .error issue)) :
    R s s' ∧ ∃ label reason, issue = .stageFailed label reason := by
  induction ts generalizing index s with
  | nil => cases h
  | cons t ts ih =>
    have hreport := reporting s (progress index total t.label)
    rcases hrun : t.run (report s (progress index total t.label)) with ⟨u, reason | _⟩
    · rw [runFrom_error hrun] at h
      cases h
      exact ⟨trans _ _ _ hreport (failing t List.mem_cons_self _ _ _ hrun), t.label, reason, rfl⟩
    · rw [runFrom_ok hrun] at h
      cases ts with
      | nil => cases h
      | cons t' ts =>
        have hlead := leading t List.mem_cons_self _ _ hrun
        obtain ⟨hrest, hissue⟩ := ih (fun v hv => leading v (List.mem_cons_of_mem t hv))
          (fun v hv => failing v (List.mem_cons_of_mem t hv)) h
        exact ⟨trans _ _ _ hreport (trans _ _ _ hlead hrest), hissue⟩

namespace Panel

variable {φ : Type} [FieldKind φ]

omit [FieldKind φ] in
/-- Whether a panel comes from another by routine calls, whatever else has changed. -/
def Continues (p q : Panel φ) : Prop :=
  ∃ calls, q.calls = p.calls ++ calls ∧ ∀ call ∈ calls, call.routine

omit [FieldKind φ] in
theorem continues_of_eq {p q : Panel φ} (h : q.calls = p.calls) : p.Continues q :=
  ⟨[], by rw [h, List.append_nil], by simp⟩

omit [FieldKind φ] in
theorem Continues.trans {p q r : Panel φ} (hpq : p.Continues q) (hqr : q.Continues r) :
    p.Continues r := by
  obtain ⟨calls, hq, hcalls⟩ := hpq
  obtain ⟨more, hr, hmore⟩ := hqr
  refine ⟨calls ++ more, by rw [hr, hq, List.append_assoc], fun call hcall => ?_⟩
  obtain hfirst | hsecond := List.mem_append.1 hcall
  · exact hcalls call hfirst
  · exact hmore call hsecond

omit [FieldKind φ] in
theorem continues_call (p : Panel φ) {c : Call} (hc : c.routine) : p.Continues (p.call c) :=
  ⟨[c], rfl, fun _ hcall => List.mem_singleton.1 hcall ▸ hc⟩

theorem continues_step (p : Panel φ) (e : Event) : p.Continues (p.step e) :=
  ⟨[.carryOut (p.session.step e).2], rfl, fun _ hcall => List.mem_singleton.1 hcall ▸ trivial⟩

theorem continues_awaitHello (p : Panel φ) (rs : List Receipt) :
    p.Continues (p.awaitHello rs).1 := by
  induction rs generalizing p with
  | nil => exact continues_of_eq rfl
  | cons r rs ih =>
    by_cases hp : p.session.greeted = true
    · rw [awaitHello_greeted hp]
      exact continues_of_eq rfl
    · have hungreeted : p.session.greeted = false := by simpa using hp
      cases r with
      | silence =>
        simp only [awaitHello, hungreeted]
        exact continues_of_eq rfl
      | event e =>
        by_cases he : e = .shutdown
        · subst he
          simp only [awaitHello, hungreeted]
          exact continues_of_eq rfl
        · rw [awaitHello_event hungreeted he]
          split
          · exact (p.continues_step e).trans (continues_of_eq rfl)
          · exact (p.continues_step e).trans (ih (p.step e))

theorem continues_dial (p : Panel φ) : p.Continues p.dial.1 := by
  have hcall : p.Continues (({ p with session := p.session.dial.1 }).call
      (.carryOut p.session.dial.2)) :=
    (continues_of_eq (q := { p with session := p.session.dial.1 }) rfl).trans
      (continues_call _ trivial)
  exact hcall.trans (continues_awaitHello _ p.inbox)

/-- A panel that is not to be shown has not been shown. -/
theorem continues_reveal {p q : Panel φ} {reason : String} (h : p.reveal = (q, .error reason)) :
    p.Continues q := by
  have hsteps : p.Continues (p.waited (p.settings.lastWait p.inbox)).1 := by
    refine ⟨_, p.calls_steps _, fun call hcall => ?_⟩
    exact routine_carryOut hcall
  rw [reveal_eq] at h
  rcases hw : p.waited (p.settings.lastWait p.inbox) with ⟨w, failure | u⟩
  · rw [hw] at h hsteps
    cases h
    exact hsteps
  · rw [hw] at h
    cases h

/-- A startup fails at one stage, and until then it makes nothing but routine calls. -/
theorem stages_error {p q : Panel φ} {issue : Issue}
    (h : Pipeline.run (fun p progress => p.call (.advance progress)) stages p = (q, .error issue)) :
    p.Continues q ∧ ∃ label reason, issue = .stageFailed label reason := by
  refine Pipeline.runFrom_error_inv (R := Continues) (fun _ _ _ => Continues.trans)
    (fun p progress => p.continues_call (c := .advance progress) trivial) ?_ ?_ h
  · intro t ht p q hok
    simp only [stages, List.dropLast, List.mem_cons, List.not_mem_nil, or_false] at ht
    obtain rfl | rfl | rfl := ht
    · exact continues_of_eq (congrArg (calls ·.1) hok).symm
    · have hclaimed := p.claimNumeric_eq.symm.trans hok
      exact continues_of_eq (congrArg (calls ·.1) hclaimed).symm
    · have hq : p.dial.1 = q := congrArg Prod.fst hok
      exact hq ▸ p.continues_dial
  · intro t ht p q reason herror
    simp only [stages, List.mem_cons, List.not_mem_nil, or_false] at ht
    obtain rfl | rfl | rfl | rfl := ht
    · exact continues_of_eq (congrArg (calls ·.1) herror).symm
    · have hclaimed := p.claimNumeric_eq.symm.trans herror
      cases hclaimed
    · have hq : p.dial.1 = q := congrArg Prod.fst herror
      exact hq ▸ p.continues_dial
    · exact continues_reveal herror

/-- A startup that fails with nobody asking for it ends in the calls for a failure. -/
theorem startUp_failed {p : Panel φ} (failed : p.startUp.2 = false)
    (unasked : p.startUp.1.shutdown = false) :
    ∃ q label reason, p.Continues q ∧
      p.startUp.1 = q.giveUp (.stageFailed label reason) := by
  rcases hrun : Pipeline.run (fun p progress => p.call (.advance progress)) stages p with
    ⟨q, issue | u⟩
  · obtain ⟨hq, label, reason, rfl⟩ := stages_error hrun
    have hstart : p.startUp =
        (if q.shutdown then q else q.giveUp (.stageFailed label reason), false) := by
      rw [startUp, hrun]
    rw [hstart] at unasked ⊢
    by_cases hdown : q.shutdown = true
    · simp [hdown] at unasked
    · exact ⟨q, label, reason, hq, if_neg hdown⟩
  · rw [startUp, hrun] at failed
    cases failed

omit [FieldKind φ] in
/-- A panel that lingers looks for a shutdown and takes nothing else. -/
theorem linger_eq (p : Panel φ) (rs : List Receipt) :
    p.linger rs = { p with
      inbox := (rs.dropWhile (· != .event .shutdown)).tail
      shutdown := p.shutdown || rs.contains (.event .shutdown) } := by
  induction rs with
  | nil => simp [linger]
  | cons r rs ih =>
    by_cases hr : r = .event .shutdown
    · subst hr
      simp [linger]
    · have hskip : p.linger (r :: rs) = p.linger rs := by
        cases r with
        | silence => rfl
        | event e => cases e <;> first | rfl | exact absurd rfl hr
      have hno : (Receipt.event .shutdown == r) = false := beq_eq_false_iff_ne.2 (Ne.symm hr)
      have hdrop : (r :: rs).dropWhile (· != Receipt.event .shutdown) =
          rs.dropWhile (· != Receipt.event .shutdown) :=
        List.dropWhile_cons_of_pos (bne_iff_ne.2 hr)
      rw [hskip, ih, hdrop, List.contains_cons, hno, Bool.false_or]

/-- A panel whose startup failed spends the rest of its run lingering. -/
theorem run_failed {p : Panel φ} (failed : p.startUp.2 = false)
    (unasked : p.startUp.1.shutdown = false) :
    p.run = p.startUp.1.linger p.startUp.1.inbox := by
  rcases hs : p.startUp with ⟨q, shown⟩
  rw [hs] at failed unasked
  obtain rfl : shown = false := failed
  have hup : ¬ q.shutdown = true := by simpa using unasked
  simp only [run, hs, if_neg hup]

end Panel
end LivePanel
