import LivePanel.Proofs.Session.Statuses
import Mathlib.Data.List.Count

/-!
# Courses of connections

A transport that comes to nothing says so and no more. Any other one says that it is open, brings
messages, and says how it ended. How far it has come can be told from the status of the session, as
long as every report comes in its turn. Main statements: `Standing.reported`, `Standing.report` and
`Standing.dial`.
-/
namespace LivePanel

/-- All that a transport reports if it is heard to the end. -/
inductive Emission : List Report → Prop where
  | refused (reason : String) : Emission [.errored reason]
  | closed (payloads : List String) : Emission (.opened :: (payloads.map .message ++ [.closed]))
  | broken (payloads : List String) (reason : String) :
      Emission (.opened :: (payloads.map .message ++ [.errored reason]))

/-- How far a transport has come. -/
inductive Course where
  | pending : Course
  | open : Course
  | over : Course
  deriving DecidableEq

namespace Course

def after : Course → Report → Course
  | .pending, .opened => .open
  | .open, .message _ => .open
  | _, _ => .over

/-- The reports that can come next. -/
def Admits : Course → Report → Prop
  | .pending, .opened | .pending, .errored _ => True
  | .open, .message _ | .open, .closed | .open, .errored _ => True
  | _, _ => False

/-- The statuses that a session can have whose present connection has come so far. -/
def Fits : Course → Status → Prop
  | .pending, a => a = .connecting
  | .open, a => a = .connected
  | .over, a => a ≠ .connected

theorem not_admits_over (r : Report) : ¬ Course.over.Admits r := id

end Course

def course (rs : List Report) : Course := rs.foldl Course.after .pending

theorem course_snoc (rs : List Report) (r : Report) : course (rs ++ [r]) = (course rs).after r := by
  simp [course]

/-- An open transport stays open until the last of its reports. -/
theorem admits_messages (final : Report) (hfinal : Course.open.Admits final)
    {payloads : List String} {before after : List Report} {r : Report}
    (h : payloads.map Report.message ++ [final] = before ++ r :: after) :
    (before.foldl Course.after .open).Admits r := by
  induction payloads generalizing before with
  | nil =>
    cases before with
    | nil =>
      cases h
      exact hfinal
    | cons b before => simp at h
  | cons p payloads ih =>
    cases before with
    | nil =>
      cases h
      trivial
    | cons b before =>
      obtain ⟨rfl, hrest⟩ := List.cons.inj h
      have hopen : (before.foldl Course.after .open).Admits r := ih hrest
      exact hopen

theorem Emission.admits {rs : List Report} (hs : Emission rs) {before : List Report} {r : Report}
    (h : before ++ [r] <+: rs) : (course before).Admits r := by
  obtain ⟨after, rfl⟩ := h
  rw [List.append_assoc, List.singleton_append] at hs
  generalize hrs : before ++ r :: after = rs at hs
  cases before with
  | nil =>
    cases hs <;> cases hrs <;> trivial
  | cons b before =>
    cases hs with
    | refused reason => simp at hrs
    | closed payloads =>
      obtain ⟨rfl, hrest⟩ := List.cons.inj hrs
      exact admits_messages .closed trivial hrest.symm
    | broken payloads reason =>
      obtain ⟨rfl, hrest⟩ := List.cons.inj hrs
      exact admits_messages (.errored reason) trivial hrest.symm

namespace Session

variable {φ : Type} [FieldKind φ]

/-- How a session stands to the connections it has asked for: its status goes with the course of the
present one, all others are over, and each has been told open and over at most once. -/
structure Standing (s : Session φ) (c : UInt64 → Course) (dialed : UInt64 → Prop)
    (log : List (UInt64 × Status)) : Prop where
  present : dialed s.link.generation → (c s.link.generation).Fits s.status
  elsewhere : ∀ g, dialed g → g ≠ s.link.generation → c g = .over
  unheard : ∀ g, ¬ dialed g → c g = .pending
  toldOpen : ∀ g, log.count (g, .connected) ≤ if c g = .pending then 0 else 1
  toldOver : ∀ g, log.count (g, .disconnected) ≤ if c g = .over then 1 else 0

/-- What a report does that comes in its turn. -/
inductive Reported (s : Session φ) (course : Course) : Report → Session φ × List Command → Prop where
  | opened : s.status = .connecting → course = .pending →
      Reported s course .opened
        ({ s with link := { s.link with status := .connected, lastFailure := none } },
          [.status .connected])
  | message (payload : String) : s.status = .connected → course = .open →
      Reported s course (.message payload) (s.receive payload)
  | closed : s.status = .connected → course = .open →
      Reported s course .closed
        ({ s with link := { s.link with status := .disconnected } }, [.status .disconnected])
  | errored (reason : String) : s.status ≠ .disconnected → course ≠ .over →
      Reported s course (.errored reason)
        ({ s with link := { s.link with status := .disconnected, lastFailure := some reason } },
          [.status .disconnected])

variable {s : Session φ} {c : UInt64 → Course} {dialed : UInt64 → Prop}
  {log : List (UInt64 × Status)}

theorem Reported.connected_of_message {course : Course} {payload : String}
    {answer : Session φ × List Command} (h : s.Reported course (.message payload) answer) :
    s.status = .connected := by
  cases h with
  | message _ hstatus => exact hstatus

/-- A report that comes in its turn is about the present connection. -/
theorem Standing.reported (hs : s.Standing c dialed log) {g : UInt64} (hg : dialed g) {r : Report}
    (hr : (c g).Admits r) :
    g = s.link.generation ∧ s.Reported (c g) r (s.report g r) := by
  have hover : c g ≠ .over := fun h => Course.not_admits_over r (h ▸ hr)
  have hpresent : g = s.link.generation := Classical.byContradiction fun h =>
    hover (hs.elsewhere g hg h)
  subst hpresent
  have hfits := hs.present hg
  have howns : s.link.owns s.link.generation = true := beq_self_eq_true _
  refine ⟨rfl, ?_⟩
  generalize c s.link.generation = course at *
  cases course with
  | «over» => exact absurd rfl hover
  | pending =>
    have hlink : s.link.status = .connecting := hfits
    cases r with
    | opened =>
      simp only [Session.report, Link.opened, howns, hlink, settle]
      exact .opened hlink rfl
    | errored reason =>
      simp only [Session.report, Link.failed, Link.drop, howns, hlink, settle]
      exact .errored reason (by simp [status, hlink]) hover
    | closed | message payload => exact hr.elim
  | «open» =>
    have hlink : s.link.status = .connected := hfits
    cases r with
    | opened => exact hr.elim
    | message payload =>
      simp only [Session.report, howns, if_true]
      exact .message payload hlink rfl
    | closed =>
      simp only [Session.report, Link.closed, Link.drop, howns, hlink, settle]
      exact .closed hlink rfl
    | errored reason =>
      simp only [Session.report, Link.failed, Link.drop, howns, hlink, settle]
      exact .errored reason (by simp [status, hlink]) hover

/-- No report begins another generation. -/
theorem Reported.undialed {course : Course} {r : Report} {answer : Session φ × List Command}
    (h : s.Reported course r answer) :
    answer.1.link.generation = s.link.generation ∧ dials answer.2 = [] := by
  cases h with
  | opened | closed | errored => exact ⟨rfl, rfl⟩
  | message payload =>
    refine ⟨by rw [s.link_receive payload], dials_of_ofLink fun command hmem => ?_⟩
    exact Command.ofLink_of_presents (s.presents_receive payload command hmem)

omit [FieldKind φ] in
/-- What is new of the present connection concerns no other. -/
theorem Standing.advance (hs : s.Standing c dialed log) (hd : dialed s.link.generation)
    {s' : Session φ} (hsame : s'.link.generation = s.link.generation) (course : Course)
    (news : List Status) (hfits : course.Fits s'.status)
    (hopen : log.count (s.link.generation, .connected) + news.count .connected ≤
      if course = .pending then 0 else 1)
    (hover : log.count (s.link.generation, .disconnected) + news.count .disconnected ≤
      if course = .over then 1 else 0) :
    s'.Standing (Function.update c s.link.generation course) dialed
      (log ++ news.map (s.link.generation, ·)) := by
  generalize hg : s.link.generation = g at *
  have hpresent : Function.update c g course g = course := Function.update_self _ _ _
  have hothers : ∀ {g'}, g' ≠ g → Function.update c g course g' = c g' :=
    fun hne => Function.update_of_ne hne _ _
  have hnews : ∀ a, (news.map (g, ·)).count (g, a) = news.count a := fun a =>
    List.count_map_of_injective news _ (fun _ _ h => (Prod.mk.inj h).2) a
  have hsilent : ∀ {g'} a, g' ≠ g → (news.map (g, ·)).count (g', a) = 0 := by
    intro g' a hne
    refine List.count_eq_zero.2 fun hmem => ?_
    obtain ⟨b, -, hb⟩ := List.mem_map.1 hmem
    exact hne (Prod.mk.inj hb).1.symm
  constructor
  case present =>
    intro _
    rw [hsame, hpresent]
    exact hfits
  case elsewhere =>
    intro g' hd' hne
    rw [hsame] at hne
    rw [hothers hne]
    exact hs.elsewhere g' hd' (hg ▸ hne)
  case unheard =>
    intro g' hd'
    have hne : g' ≠ g := by
      rintro rfl
      exact hd' hd
    rw [hothers hne]
    exact hs.unheard g' hd'
  case toldOpen =>
    intro g'
    rw [List.count_append]
    by_cases hne : g' = g
    · rw [hne, hnews, hpresent]
      exact hopen
    · rw [hsilent _ hne, hothers hne]
      exact hs.toldOpen g'
  case toldOver =>
    intro g'
    rw [List.count_append]
    by_cases hne : g' = g
    · rw [hne, hnews, hpresent]
      exact hover
    · rw [hsilent _ hne, hothers hne]
      exact hs.toldOver g'

theorem Standing.report (hs : s.Standing c dialed log) {g : UInt64} (hd : dialed g) {r : Report}
    (hr : (c g).Admits r) :
    (s.report g r).1.Standing (Function.update c g ((c g).after r)) dialed
      (log ++ (statuses (s.report g r).2).map (g, ·)) := by
  obtain ⟨rfl, hreported⟩ := hs.reported hd hr
  have hopen := hs.toldOpen s.link.generation
  have hover := hs.toldOver s.link.generation
  generalize s.report s.link.generation r = answer at hreported
  generalize c s.link.generation = course at *
  cases hreported with
  | opened hstatus hc =>
    subst hc
    refine hs.advance hd ?_ .open [.connected] ?_ (by simpa using hopen) (by simpa using hover)
    · rfl
    · rfl
  | message payload hstatus hc =>
    subst hc
    have hquiet : statuses (s.receive payload).2 = [] := statuses_of_ofLink fun command hmem =>
      Command.ofLink_of_presents (s.presents_receive payload command hmem)
    have hlink := s.link_receive payload
    rw [hquiet]
    exact hs.advance hd (by rw [hlink]) .open [] (by rwa [Course.Fits, status, hlink])
      (by simpa using hopen) (by simpa using hover)
  | closed hstatus hc =>
    subst hc
    refine hs.advance hd ?_ .over [.disconnected] ?_ (by simpa using hopen) (by simpa using hover)
    · rfl
    · simp [Course.Fits, status]
  | errored reason hstatus hc =>
    have hended : course.after (.errored reason) = .over := by cases course <;> rfl
    rw [hended]
    refine hs.advance hd ?_ .over [.disconnected] ?_ ?_ (by simpa [hc] using hover)
    · rfl
    · simp [Course.Fits, status]
    · refine le_trans (b := if course = .pending then 0 else 1) (by simpa using hopen) ?_
      split <;> decide

omit [FieldKind φ] in
/-- While a session is disconnected, whatever it asked for is over. -/
theorem Standing.over (hs : s.Standing c dialed log) (hd : s.status = .disconnected) {g : UInt64}
    (hg : dialed g) : c g = .over := by
  by_cases hpresent : g = s.link.generation
  · subst hpresent
    have hfits := hs.present hg
    rw [hd] at hfits
    generalize c s.link.generation = course at *
    cases course with
    | pending | «open» => cases hfits
    | «over» => rfl
  · exact hs.elsewhere g hg hpresent

omit [FieldKind φ] in
theorem Standing.of_link (hs : s.Standing c dialed log) {s' : Session φ}
    (h : s'.link = s.link) : s'.Standing c dialed log := by
  constructor
  case present =>
    rw [status, h]
    exact hs.present
  case elsewhere =>
    rw [h]
    exact hs.elsewhere
  case unheard => exact hs.unheard
  case toldOpen => exact hs.toldOpen
  case toldOver => exact hs.toldOver

omit [FieldKind φ] in
theorem Standing.dial (hs : s.Standing c dialed log) (hd : s.status = .disconnected)
    {s' : Session φ} (hstatus : s'.status = .connecting) :
    s'.Standing c (fun g => dialed g ∨ g = s'.link.generation)
      (log ++ [(s'.link.generation, .connecting)]) := by
  have hcourse : ∀ g, c g = .pending ∨ c g = .over := fun g =>
    (Classical.em (dialed g)).symm.imp (hs.unheard g) (hs.over hd)
  constructor
  case present =>
    intro _
    rw [hstatus]
    obtain hc | hc := hcourse s'.link.generation <;> rw [hc]
    · rfl
    · exact Status.noConfusion
  case elsewhere => exact fun g hg hne => hs.over hd (hg.resolve_right hne)
  case unheard => exact fun g hg => hs.unheard g fun h => hg (.inl h)
  case toldOpen => simpa using hs.toldOpen
  case toldOver => simpa using hs.toldOver

/-- An input other than a report leaves the connection as it is, or asks for the next one. -/
theorem take_unreported {i : Input φ} (hi : ∀ g r, i ≠ .event (.transport g r)) :
    ((s.take i).1.link = s.link ∧ ∀ command ∈ (s.take i).2, command.ofLink = false) ∨
      (s.status = .disconnected ∧ (s.take i).1.status = .connecting ∧
        (s.take i).1.link.generation = s.link.next.generation ∧
        (s.take i).2 = [.status .connecting, .dial s.link.next]) := by
  cases i with
  | register ds m => exact .inl ⟨rfl, by simp [take]⟩
  | installNumeric => exact .inl ⟨rfl, by simp [take]⟩
  | event e =>
    cases e with
    | shutdown => exact .inl ⟨rfl, by simp [take, step]⟩
    | edit key text => exact .inl ⟨s.link_edit key text, s.ofLink_edit key text⟩
    | transport g r => exact absurd rfl (hi g r)
    | reconnect =>
      by_cases hs : s.link.status = .disconnected
      · refine .inr ⟨hs, ?_⟩
        simp only [take, step, Session.dial, Link.dial, if_pos hs]
        exact ⟨rfl, rfl, rfl⟩
      · refine .inl ⟨?_, ?_⟩ <;> simp [take, step, Session.dial, Link.dial, hs]

end Session
end LivePanel
