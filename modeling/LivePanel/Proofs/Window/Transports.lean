import LivePanel.Proofs.Panel.Batches
import LivePanel.Proofs.Session.Updates
import LivePanel.Proofs.Session.Connection
import LivePanel.Window.Host
import Mathlib.Data.List.Induction

/-!
# The transport of a host

A host opens a transport for each connection that the session asks for, in place of the one before.
Neither looks at the other's generation, and yet the transport there is always goes with the session's
connection, until a startup fails. Main statements: `generation?_reached`, `dialed_run` and
`transport_current`.
-/
namespace LivePanel

namespace Host

/-! ## The host by itself -/

/-- A transport that does something to its queue. -/
def atOutbox (h : Host) (f : Outbox → Outbox) : Host :=
  { h with transport := h.transport.map fun t => { t with outbox := f t.outbox } }

/-- The hosts that some calls can lead to. Whenever it likes, a transport takes a text that is queued
for it, or is gone. -/
inductive Reached (st : Settings) : List Call → Host → Prop where
  | new : Reached st [] (.new st)
  | perform {calls : List Call} {h : Host} (c : Call) : Reached st calls h →
      Reached st (calls ++ [c]) (h.perform c)
  | take {calls : List Call} {h : Host} : Reached st calls h →
      Reached st calls (h.atOutbox fun q => q.take.1)
  | close {calls : List Call} {h : Host} : Reached st calls h →
      Reached st calls (h.atOutbox Outbox.close)

theorem reached_performAll (st : Settings) (calls : List Call) :
    Reached st calls ((new st).performAll calls) := by
  induction calls using List.reverseRecOn with
  | nil => exact .new
  | append_singleton calls c ih =>
    rw [performAll, List.foldl_append]
    exact ih.perform c

/-- The generation of the transport there is. -/
def generation? (h : Host) : Option UInt64 := h.transport.map Transport.generation

@[simp] theorem generation?_atOutbox (h : Host) (f : Outbox → Outbox) :
    (h.atOutbox f).generation? = h.generation? := by
  simp [generation?, atOutbox, Function.comp_def]

theorem send_of_transport {h : Host} {t : Transport} (ht : h.transport = some t) (u : Update) :
    (h.send u).transport = some { t with outbox := (t.outbox.offer u.text).1 } := by
  simp only [send, ht]

/-- An update handed over by itself is offered to the transport there is. -/
theorem transport_perform_send {h : Host} {t : Transport} (ht : h.transport = some t)
    (u : Update) :
    (h.perform (.carryOut [.send u])).transport =
      some { t with outbox := (t.outbox.offer u.text).1 } := by
  have hkept : ({ h with window := h.window.applyAll [] } : Host).transport = some t := ht
  exact send_of_transport hkept u

theorem generation?_send (h : Host) (u : Update) : (h.send u).generation? = h.generation? := by
  cases ht : h.transport with
  | none => simp only [generation?, send, ht]
  | some t => simp only [generation?, send_of_transport ht, ht, Option.map_some]

/-- A transport is replaced by a new one for a connection, and by nothing else. -/
theorem generation?_carry (h : Host) (c : Command) :
    (h.carry c).generation? = (c.dialed?.map Opening.generation).or h.generation? := by
  cases c with
  | dial request => rfl
  | send u => exact h.generation?_send u
  | render view | «show» k text | status a => rfl

theorem generation?_foldl_carry (h : Host) (cs : List Command) :
    (cs.foldl carry h).generation? =
      ((dials cs).getLast?.map Opening.generation).or h.generation? := by
  induction cs generalizing h with
  | nil => rfl
  | cons c cs ih =>
    rw [List.foldl_cons, ih, generation?_carry]
    cases hc : c.dialed? with
    | none =>
      have hdials : dials (c :: cs) = dials cs := List.filterMap_cons_none hc
      rw [hdials]
      rfl
    | some request =>
      have hdials : dials (c :: cs) = request :: dials cs := List.filterMap_cons_some hc
      rw [hdials, List.getLast?_cons]
      cases (dials cs).getLast? <;> rfl

theorem generation?_perform (h : Host) {c : Call} (hc : c ≠ .hangUp) :
    (h.perform c).generation? =
      ((dials c.commands).getLast?.map Opening.generation).or h.generation? := by
  cases c with
  | carryOut cs => exact generation?_foldl_carry _ cs
  | hangUp => exact absurd rfl hc
  | advance p | reveal | showBanner banner => rfl

/-- Unless it was told to hang up, a host has the transport of the connection that was opened last. -/
theorem generation?_reached {st : Settings} {calls : List Call} {h : Host}
    (hreached : Reached st calls h) (hcalls : .hangUp ∉ calls) :
    h.generation? = (dials (executed calls)).getLast?.map Opening.generation := by
  induction hreached with
  | new => rfl
  | take _ ih | close _ ih => rw [generation?_atOutbox, ih hcalls]
  | @perform calls h c _ ih =>
    rw [List.mem_append, List.mem_singleton, not_or] at hcalls
    have hlast : executed [c] = c.commands := by simp [executed]
    rw [generation?_perform h (Ne.symm hcalls.2), ih hcalls.1, executed_append, hlast, dials_append,
      List.getLast?_append]
    cases (dials c.commands).getLast? <;> rfl

theorem exists_transport {h : Host} {g : UInt64} (hg : h.generation? = some g) :
    ∃ t, h.transport = some t ∧ t.generation = g := Option.map_eq_some_iff.1 hg

end Host

/-! ## The session by itself -/

/-- A link that is disconnected stays so until there is a dial. -/
theorem Link.Turns.disconnected {l l' : Link} {cs : List Command} (ht : l.Turns (l', cs))
    (hl : l.status = .disconnected) (hcs : dials cs = []) : l'.status = .disconnected := by
  cases ht with
  | aside => exact hl
  | dialed => cases hcs
  | opened hs =>
    rw [hl] at hs
    cases hs
  | closed | failed => rfl
  | blamed => exact hl

variable {φ : Type} [FieldKind φ]

namespace Session

theorem run_fst (s : Session φ) (es : List Event) :
    (s.run es).1 = (s.play (es.map .event)).1 := by
  induction es generalizing s with
  | nil => rfl
  | cons e es ih => exact ih (s.step e).1

/-- A session that was disconnected is so unless it has asked for a connection, and its generation is
that of the connection it asked for last. -/
theorem dialed_run {s : Session φ} (hs : s.status = .disconnected) (es : List Event) :
    (dials (s.run es).2 = [] ∧ (s.run es).1.status = .disconnected) ∨
      ∃ request, (dials (s.run es).2).getLast? = some request ∧
        request.generation = (s.run es).1.link.generation := by
  induction es using List.reverseRecOn with
  | nil => exact .inl ⟨rfl, hs⟩
  | append_singleton es e ih =>
    have hturns := (s.run es).1.turns_take (.event e)
    simp only [run_append, run_cons, run_nil, List.append_nil, dials_append]
    obtain ⟨hnone, hsame⟩ | ⟨hdial, hnext⟩ := hturns.dials_cases
    · have hanswer : dials ((s.run es).1.step e).2 = [] := hnone
      rw [hanswer, List.append_nil]
      obtain ⟨hno, hdown⟩ | ⟨request, hrequest, hgeneration⟩ := ih
      · exact .inl ⟨hno, hturns.disconnected hdown hnone⟩
      · exact .inr ⟨request, hrequest, hgeneration.trans hsame.symm⟩
    · have hanswer : ((s.run es).1.step e).2 =
        [.status .connecting, .dial (s.run es).1.link.next] := hdial
      refine .inr ⟨(s.run es).1.link.next, ?_, hnext.symm⟩
      rw [hanswer, List.getLast?_append]
      rfl

/-- An update is sent alone, and over a connection. -/
theorem connected_of_send {s : Session φ} (hs : s.store.Keyed) {es : List Event} {e : Event}
    {u : Update} (hu : .send u ∈ ((s.run es).1.step e).2) :
    (s.run es).1.status = .connected ∧ ((s.run es).1.step e).2 = [.send u] := by
  have hsends : (s.run es).1.SendsEdits := by
    rw [run_fst]
    exact sendsEdits (Keyed.play hs _)
  obtain ⟨key, text, v, f, -, hon, -⟩ := (hsends.sent_iff e u).1 hu
  exact ⟨hon, hsends.alone e u hu⟩

end Session

/-! ## Both together -/

namespace Panel

variable {c : Catalog φ} {st : Settings} {inbox : List Receipt} {handled : List Event}

/-- Before a failure there are no calls but those that go with what the session handles. -/
theorem Handles.calls_before (hh : Handles c st inbox handled) {before after : List Call}
    (hrun : (new c st inbox).run.calls = before ++ after) (hlinked : .hangUp ∉ before) :
    ∃ calls, Answers c st handled calls ∧ before <+: calls := by
  obtain ⟨calls, closing, hcalls, hanswers, hclosing⟩ := hh.calls
  refine ⟨calls, hanswers, ?_⟩
  obtain ⟨rest, hrest, -⟩ | ⟨rest, hrest, hafter⟩ :=
    List.append_eq_append_iff.1 (hrun.symm.trans hcalls)
  · exact ⟨rest, hrest.symm⟩
  · -- whatever closes a run begins with hanging up
    cases rest with
    | nil => exact ⟨[], by rw [hrest, List.append_nil, List.append_nil]⟩
    | cons call rest =>
      obtain rfl | ⟨label, reason, rfl⟩ := hclosing
      · cases hafter
      · obtain rfl := (List.cons.inj hafter).1
        refine absurd ?_ hlinked
        rw [hrest]
        exact List.mem_append_right _ List.mem_cons_self

/-- No update is sent in closing. -/
theorem Handles.calls_of_send (hh : Handles c st inbox handled) {before after : List Call}
    {cs ds : List Command} {u : Update}
    (hrun : (new c st inbox).run.calls = before ++ .carryOut (cs ++ .send u :: ds) :: after) :
    ∃ calls rest, Answers c st handled calls ∧
      calls = before ++ .carryOut (cs ++ .send u :: ds) :: rest := by
  obtain ⟨calls, closing, hcalls, hanswers, hclosing⟩ := hh.calls
  have hnone : .carryOut (cs ++ .send u :: ds) ∉ closing := by
    intro hmem
    obtain rfl | ⟨label, reason, rfl⟩ := hclosing
    · cases hmem
    · have hlast : cs ++ .send u :: ds = [.status .disconnected] := by
        simpa [Ending.calls] using hmem
      have hu : Command.send u ∈ [.status .disconnected] :=
        hlast ▸ List.mem_append_right cs List.mem_cons_self
      cases List.mem_singleton.1 hu
  obtain ⟨rest, hrest, hafter⟩ | ⟨rest, hrest, hafter⟩ :=
    List.append_eq_append_iff.1 (hrun.symm.trans hcalls)
  · cases rest with
    | nil =>
      rw [List.nil_append] at hafter
      exact absurd (hafter ▸ List.mem_cons_self) hnone
    | cons call rest =>
      obtain ⟨rfl, -⟩ := List.cons.inj hafter
      exact ⟨calls, rest, hanswers, hrest⟩
  · exact absurd (hafter ▸ List.mem_append_right rest List.mem_cons_self) hnone

theorem Answers.cut {calls before after : List Call} (ha : Answers c st handled calls)
    (hcalls : calls = before ++ after) :
    ∃ es later, handled = es ++ later ∧ LivePanel.batches before = (start c st).answers es ∧
      LivePanel.batches after = ((start c st).run es).1.answers later := by
  have hbatches := ha.batches
  rw [hcalls, batches_append] at hbatches
  obtain ⟨es, later, hes, hfirst, hrest⟩ := Session.exists_of_answers_eq_append hbatches.symm
  exact ⟨es, later, hes, hfirst.symm, hrest.symm⟩

/-- While a session has a connection or is about to, the host of its panel has the transport of the
connection that was asked for last, and that one is of the generation of the session. -/
theorem transport_of_up {before : List Call} {es : List Event}
    (hbefore : batches before = (start c st).answers es) (hlinked : .hangUp ∉ before)
    (hup : ((start c st).run es).1.status ≠ .disconnected) :
    ∃ request, (dials (executed before)).getLast? = some request ∧
      request.generation = ((start c st).run es).1.link.generation ∧
      ∀ h, Host.Reached st before h → ∃ t, h.transport = some t ∧
        t.generation = request.generation := by
  have hfirst : (start c st).status = .disconnected := rfl
  have hexecuted : executed before = ((start c st).run es).2 := by
    rw [executed_eq_flatten, hbefore, Session.flatten_answers]
  obtain ⟨request, hlast, hgeneration⟩ :=
    (Session.dialed_run hfirst es).resolve_left fun h => hup h.2
  rw [← hexecuted] at hlast
  refine ⟨request, hlast, hgeneration, fun h hreached => Host.exists_transport ?_⟩
  rw [Host.generation?_reached hreached hlinked, hlast, Option.map_some]

/-- How the transport of a host goes with the connection of a panel that has handled some events. -/
structure Attended (c : Catalog φ) (st : Settings) (inbox : List Receipt) (handled : List Event) :
    Prop extends Handles c st inbox handled where
  /-- After each call, unless the startup has failed: the calls answer the events handled so far, and
  while the session they lead to is connected or about to be, the host has the transport of the
  latest connection, whose generation is that of the session. -/
  held : ∀ before after, (new c st inbox).run.calls = before ++ after → .hangUp ∉ before →
    ∃ es later, handled = es ++ later ∧ batches before = (start c st).answers es ∧
      (((start c st).run es).1.status ≠ .disconnected → ∃ request,
        (dials (executed before)).getLast? = some request ∧
        request.generation = ((start c st).run es).1.link.generation ∧
        ∀ h, Host.Reached st before h → ∃ t, h.transport = some t ∧
          t.generation = request.generation)
  /-- An update is a batch by itself. It is offered to a transport, and that is of the generation in
  which the session sends it. -/
  sent : ∀ before cs u ds after,
    (new c st inbox).run.calls = before ++ .carryOut (cs ++ .send u :: ds) :: after →
    cs = [] ∧ ds = [] ∧ ∃ es e later, handled = es ++ e :: later ∧
      batches before = (start c st).answers es ∧
      (((start c st).run es).1.step e).2 = [.send u] ∧
      ∀ h, Host.Reached st before h → ∃ t, h.transport = some t ∧
        t.generation = ((start c st).run es).1.link.generation ∧
        (h.perform (.carryOut [.send u])).transport =
          some { t with outbox := (t.outbox.offer u.text).1 }

end Panel

/-- Updates go to the transport of the current connection, and there always is one. Whatever a panel
receives, and whatever its transports do with their queues meanwhile. -/
theorem transport_current (c : Catalog φ) (st : Settings) (inbox : List Receipt) :
    ∃ handled, Panel.Attended c st inbox handled := by
  obtain ⟨handled, hh⟩ := Panel.run_handles c st inbox
  refine ⟨handled, { toHandles := hh, held := ?held, sent := ?sent }⟩
  case held =>
    intro before after hrun hlinked
    obtain ⟨calls, hanswers, rest, hrest⟩ := hh.calls_before hrun hlinked
    obtain ⟨es, later, hes, hbefore, -⟩ := hanswers.cut hrest.symm
    exact ⟨es, later, hes, hbefore, Panel.transport_of_up hbefore hlinked⟩
  case sent =>
    intro before cs u ds after hrun
    obtain ⟨calls, rest, hanswers, hcalls⟩ := hh.calls_of_send hrun
    obtain ⟨es, later, hes, hbefore, hafter⟩ := hanswers.cut hcalls
    cases later with
    | nil => cases hafter
    | cons e later =>
      have hbatch : cs ++ .send u :: ds = (((Panel.start c st).run es).1.step e).2 :=
        (List.cons.inj hafter).1
      have hu : .send u ∈ (((Panel.start c st).run es).1.step e).2 :=
        hbatch ▸ List.mem_append_right cs List.mem_cons_self
      obtain ⟨hon, halone⟩ :=
        Session.connected_of_send (s := Panel.start c st) Store.keyed_empty hu
      obtain ⟨hcs, hds⟩ : cs = [] ∧ ds = [] := by
        obtain ⟨hcs, hrest⟩ | ⟨-, hrest⟩ := List.append_eq_singleton_iff.1 (hbatch.trans halone)
        · exact ⟨hcs, (List.cons.inj hrest).2⟩
        · cases hrest
      refine ⟨hcs, hds, es, e, later, hes, hbefore, halone, fun h hreached => ?_⟩
      have hlinked : .hangUp ∉ before := fun hmem =>
        hanswers.linked (hcalls ▸ List.mem_append_left _ hmem)
      have hup : ((Panel.start c st).run es).1.status ≠ .disconnected := by
        rw [hon]
        exact Status.noConfusion
      obtain ⟨request, -, hgeneration, hheld⟩ := Panel.transport_of_up hbefore hlinked hup
      obtain ⟨t, ht, htg⟩ := hheld h hreached
      exact ⟨t, ht, htg.trans hgeneration, Host.transport_perform_send ht u⟩

end LivePanel
