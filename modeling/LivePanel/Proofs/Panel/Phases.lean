import LivePanel.Proofs.Field.Label
import LivePanel.Proofs.Panel.Startup

/-!
# Phases of a panel

A panel that comes to be shown has taken its events in three loops, one after another. Its session
and the commands it carries out do not tell: they are those of one run over all it heard before a
shutdown. Main statement: `run_folds`.
-/
namespace LivePanel

namespace Settings

/-- A panel is shown only if nothing stands in the way at any stage. -/
theorem ending_eq_revealed {st : Settings} {inbox : List Receipt}
    (h : st.ending inbox = .revealed) :
    validateAddress st.url = .ok () ∧ (st.firstWait inbox).verdict = .passed ∧
      (st.lastWait (st.firstWait inbox).rest).verdict = .passed := by
  unfold ending at h
  cases hv : validateAddress st.url with
  | error issue => simp [hv] at h
  | ok u =>
    simp only [hv] at h
    cases hfirst : (st.firstWait inbox).verdict with
    | aborted | failed reason => simp [hfirst, Verdict.ending] at h
    | passed =>
      simp only [hfirst, Verdict.ending] at h
      cases hlast : (st.lastWait (st.firstWait inbox).rest).verdict with
      | aborted | failed reason => simp [hlast] at h
      | passed => exact ⟨rfl, rfl, rfl⟩

theorem heard_firstWait (st : Settings) {inbox : List Receipt}
    (h : (st.firstWait inbox).verdict = .passed) :
    heard inbox = (st.firstWait inbox).events ++ heard (st.firstWait inbox).rest :=
  heard_wait rfl h

theorem heard_lastWait (st : Settings) {rs : List Receipt}
    (h : (st.lastWait rs).verdict = .passed) :
    heard rs = (st.lastWait rs).events ++ heard (st.lastWait rs).rest := by
  unfold lastWait at h ⊢
  split
  · rfl
  · rename_i hdelay
    rw [if_neg hdelay] at h
    exact heard_wait rfl h

/-- Before a shutdown it cannot be told what comes after it. -/
theorem firstWait_shutdown (st : Settings) {before after : List Receipt}
    (h : (st.firstWait (before ++ .event .shutdown :: after)).verdict = .passed) :
    ∃ events rest, ∀ late, st.firstWait (before ++ .event .shutdown :: late) =
      ⟨events, .passed, rest ++ .event .shutdown :: late⟩ := wait_shutdown rfl h

theorem lastWait_shutdown (st : Settings) {before after : List Receipt}
    (h : (st.lastWait (before ++ .event .shutdown :: after)).verdict = .passed) :
    ∃ events rest, ∀ late, st.lastWait (before ++ .event .shutdown :: late) =
      ⟨events, .passed, rest ++ .event .shutdown :: late⟩ := by
  unfold lastWait at h ⊢
  split
  · exact ⟨[], before, fun _ => rfl⟩
  · rename_i hdelay
    rw [if_neg hdelay] at h
    exact wait_shutdown rfl h

/-- The events that a panel takes up to its first `hello`. -/
def early (st : Settings) (inbox : List Receipt) : List Event := (st.firstWait inbox).events

/-- The events it takes until it is shown. -/
def delayed (st : Settings) (inbox : List Receipt) : List Event :=
  (st.lastWait (st.firstWait inbox).rest).events

/-- The events it takes after that. -/
def late (st : Settings) (inbox : List Receipt) : List Event :=
  heard (st.lastWait (st.firstWait inbox).rest).rest

/-- Of all that is heard, each event is taken in one phase. -/
theorem heard_eq {st : Settings} {inbox : List Receipt} (hend : st.ending inbox = .revealed) :
    heard inbox = st.early inbox ++ st.delayed inbox ++ st.late inbox := by
  obtain ⟨-, hfirst, hlast⟩ := ending_eq_revealed hend
  rw [st.heard_firstWait hfirst, st.heard_lastWait hlast, List.append_assoc]
  rfl

/-- What comes after a shutdown belongs to no phase. -/
theorem phases_shutdown {st : Settings} {before after : List Receipt}
    (hend : st.ending (before ++ .event .shutdown :: after) = .revealed) :
    ∃ es ds ls, ∀ ignored, st.ending (before ++ .event .shutdown :: ignored) = .revealed ∧
      st.early (before ++ .event .shutdown :: ignored) = es ∧
      st.delayed (before ++ .event .shutdown :: ignored) = ds ∧
      st.late (before ++ .event .shutdown :: ignored) = ls := by
  obtain ⟨hv, hfirst, hlast⟩ := ending_eq_revealed hend
  obtain ⟨es, rest, hwait⟩ := st.firstWait_shutdown hfirst
  rw [hwait] at hlast
  obtain ⟨ds, rest', hwait'⟩ := st.lastWait_shutdown hlast
  refine ⟨es, ds, heard rest', fun ignored => ?_⟩
  simp only [ending, hv, early, delayed, late, hwait, hwait', Verdict.ending, heard_shutdown,
    and_self]

end Settings

/-- Whether a call shows the panel. -/
def Call.reveals : Call → Bool
  | .reveal => true
  | _ => false

namespace Panel

variable {φ : Type} [FieldKind φ]

/-- The last loop takes the events before a shutdown. -/
theorem serve_eq (p : Panel φ) (rs : List Receipt) :
    (p.serve rs).session = (p.session.run (heard rs)).1 ∧
      (p.serve rs).calls = p.calls ++ (p.session.answers (heard rs)).map .carryOut := by
  induction rs generalizing p with
  | nil => exact ⟨rfl, (List.append_nil _).symm⟩
  | cons r rs ih =>
    cases r with
    | silence => exact ih p
    | event e =>
      by_cases he : e = .shutdown
      · subst he
        exact ⟨rfl, (List.append_nil _).symm⟩
      · have hserve : p.serve (.event e :: rs) = (p.step e).serve rs := by
          cases e <;> first | exact absurd rfl he | rfl
        rw [hserve, heard_event he, (ih (p.step e)).1, (ih (p.step e)).2]
        refine ⟨rfl, ?_⟩
        rw [step_eq, Session.answers, List.map_cons, List.append_assoc]
        rfl

/-- The calls of a panel that hears some events up to its first `hello`, some more until it is
shown, and some after that. -/
def phased (c : Catalog φ) (st : Settings) (early delayed late : List Event) : List Call :=
  overture ++ ((opening c st).2 :: (opening c st).1.answers early).map .carryOut ++
    finale :: (((opening c st).1.run early).1.answers delayed).map .carryOut ++
    .reveal :: (((opening c st).1.run (early ++ delayed)).1.answers late).map .carryOut

variable {c : Catalog φ} {st : Settings}

/-- Between two phases no command is lost, doubled or moved. -/
theorem executed_phased (early delayed late : List Event) :
    executed (phased c st early delayed late) =
      (opening c st).2 ++ ((opening c st).1.run (early ++ delayed ++ late)).2 := by
  have hoverture : executed overture = [] := rfl
  have hfinale : finale.commands = [] := rfl
  have hreveal : Call.reveal.commands = [] := rfl
  simp only [phased, executed_append, executed_cons, executed_carryOut, List.flatten_cons,
    Session.flatten_answers, hoverture, hfinale, hreveal, Session.run_append, List.nil_append,
    List.append_assoc]

theorem countP_reveals_carryOut (replies : List (List Command)) :
    (replies.map Call.carryOut).countP Call.reveals = 0 := by
  rw [List.countP_eq_zero]
  intro call hcall
  obtain ⟨cs, -, rfl⟩ := List.mem_map.1 hcall
  simp [Call.reveals]

theorem countP_reveals_phased (early delayed late : List Event) :
    (phased c st early delayed late).countP Call.reveals = 1 := by
  have hoverture : overture.countP Call.reveals = 0 := rfl
  simp only [phased, List.countP_append, List.countP_cons, countP_reveals_carryOut, hoverture,
    finale, Call.reveals]
  rfl

variable {inbox : List Receipt}

theorem startUp_revealed (hend : st.ending inbox = .revealed) :
    (new c st inbox).startUp = ((settled c st inbox).call .reveal, true) := by
  obtain ⟨hv, hfirst, -⟩ := Settings.ending_eq_revealed hend
  rw [startUp_passed hv hfirst, hend]
  rfl

theorem session_introduced :
    (introduced c st inbox).session = ((opening c st).1.run (st.early inbox)).1 :=
  (dialed c st inbox).session_steps (st.early inbox)

theorem session_settled :
    (settled c st inbox).session =
      ((opening c st).1.run (st.early inbox ++ st.delayed inbox)).1 := by
  have hsteps := ((introduced c st inbox).call finale).session_steps (st.delayed inbox)
  rw [Session.run_append, ← session_introduced]
  exact hsteps

/-- A run whose startup succeeds is made of three phases, and its session has heard all of them. -/
theorem run_revealed (hend : st.ending inbox = .revealed) :
    (new c st inbox).run.session = ((opening c st).1.run (heard inbox)).1 ∧
      (new c st inbox).run.calls =
        phased c st (st.early inbox) (st.delayed inbox) (st.late inbox) := by
  have hrun : (new c st inbox).run =
      ((settled c st inbox).call .reveal).serve
        (st.lastWait (st.firstWait inbox).rest).rest := by
    simp only [run, startUp_revealed hend]
    rfl
  obtain ⟨hsession, hcalls⟩ := ((settled c st inbox).call .reveal).serve_eq
    (st.lastWait (st.firstWait inbox).rest).rest
  have hbefore : ((settled c st inbox).call .reveal).session =
      ((opening c st).1.run (st.early inbox ++ st.delayed inbox)).1 := session_settled
  rw [hrun, hsession, hcalls, hbefore]
  constructor
  · rw [Settings.heard_eq hend, (opening c st).1.run_append (st.early inbox ++ st.delayed inbox)]
    rfl
  · have hshown : ((settled c st inbox).call .reveal).calls =
        (settled c st inbox).calls ++ [.reveal] := rfl
    rw [hshown, calls_settled, calls_introduced, session_introduced,
      List.append_assoc _ [Call.reveal]]
    rfl

/-- A run of a panel as its session has it. -/
structure Folds (c : Catalog φ) (st : Settings) (inbox : List Receipt) : Prop where
  /-- The session, with its tally, has taken one event after another until a shutdown. -/
  session : (new c st inbox).run.session = ((opening c st).1.run (heard inbox)).1
  /-- The commands carried out are those for dialing and then those of the session. -/
  commands : executed (new c st inbox).run.calls =
    (opening c st).2 ++ ((opening c st).1.run (heard inbox)).2
  /-- Each event is answered in its phase: up to the first that greets, until the panel is shown,
  and after that. -/
  phases : ∃ es e ds ls, heard inbox = es ++ [e] ++ ds ++ ls ∧
    ((opening c st).1.run es).1.greeted = false ∧
    ((opening c st).1.run (es ++ [e])).1.greeted = true ∧
    (new c st inbox).run.calls = phased c st (es ++ [e]) ds ls
  once : (new c st inbox).run.calls.countP Call.reveals = 1
  /-- Whatever comes after a shutdown might as well not have come. -/
  deaf : ∀ before after, inbox = before ++ .event .shutdown :: after →
    (new c st inbox).run.session = (new c st (before ++ [.event .shutdown])).run.session ∧
    (new c st inbox).run.calls = (new c st (before ++ [.event .shutdown])).run.calls

end Panel

/-- A panel that comes to be shown is one fold of its session over what it hears. The phases can be
told from the order of its calls only. -/
theorem run_folds {φ : Type} [FieldKind φ] (c : Catalog φ) (st : Settings) (inbox : List Receipt)
    (shown : (Panel.new c st inbox).startUp.2 = true) : Panel.Folds c st inbox := by
  have hend : st.ending inbox = .revealed := by
    obtain ⟨p, hstart, -⟩ := Panel.startUp_eq c st inbox
    rw [hstart, Panel.shown_conclude] at shown
    exact of_decide_eq_true shown
  obtain ⟨-, hfirst, -⟩ := Settings.ending_eq_revealed hend
  obtain ⟨hsession, hcalls⟩ := Panel.run_revealed (c := c) hend
  constructor
  case session => exact hsession
  case commands => rw [hcalls, Panel.executed_phased, ← Settings.heard_eq hend]
  case phases =>
    have hwaiting := Session.waiting_dial c.installNumeric st.url
    obtain ⟨es, e, hearly, hbefore, hafter⟩ := hwaiting.greeted_wait st hfirst
    have hes : st.early inbox = es ++ [e] := hearly
    refine ⟨es, e, st.delayed inbox, st.late inbox, ?_, hbefore, hafter, ?_⟩
    · rw [Settings.heard_eq hend, hes]
    · rw [hcalls, hes]
  case once => rw [hcalls, Panel.countP_reveals_phased]
  case deaf =>
    intro before after he
    subst he
    obtain ⟨es, ds, ls, hphases⟩ := Settings.phases_shutdown hend
    obtain ⟨hend', hes, hds, hls⟩ := hphases []
    obtain ⟨hsession', hcalls'⟩ := Panel.run_revealed (c := c) hend'
    constructor
    · rw [hsession, hsession', heard_shutdown, heard_shutdown]
    · rw [hcalls, hcalls', hes, hds, hls, (hphases after).2.1, (hphases after).2.2.1,
        (hphases after).2.2.2]

/-- A `hello`, an edit before the panel is shown, one after that, and one that comes too late. -/
def editedInbox : List Receipt :=
  [.event (.transport 1 .opened),
    .event (.transport 1 (.message
      "\x7b\"type\":\"hello\",\"vars\":[[1,null,\"int\",null,null,2]]\x7d")),
    .event (.edit "n:1" "3"), .silence, .event (.edit "n:1" "x"), .event .shutdown,
    .event (.edit "n:1" "4")]

theorem run_folds_edited :
    (Panel.new (Catalog.empty : Catalog Label) .default editedInbox).startUp.2 = true ∧
      Panel.Folds (Catalog.empty : Catalog Label) .default editedInbox :=
  ⟨by decide +kernel, run_folds .empty .default editedInbox (by decide +kernel)⟩

end LivePanel
