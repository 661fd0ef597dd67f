import LivePanel.Proofs.Session.Connection

/-!
# Superseded connections

A connection is superseded once a later one was asked for. What is still reported of it changes
nothing and is not answered, so a run is the same whether such reports come or not, how often, and in
which order. Main statements: `play_timely`, `play_filter` and `superseded_unobserved`.
-/
namespace LivePanel

variable {φ : Type} [FieldKind φ]

/-- Whether an input is a report of a connection from before a generation. -/
def Input.outdated (generation : UInt64) : Input φ → Bool
  | .event (.transport g _) => decide (g < generation)
  | .event (.edit ..) | .event .reconnect | .event .shutdown | .register .. | .installNumeric => false

omit [FieldKind φ] in
theorem Input.outdated_iff {generation : UInt64} {i : Input φ} :
    i.outdated generation = true ↔ ∃ g report, i = .event (.transport g report) ∧ g < generation := by
  constructor
  · intro hi
    cases i with
    | register ds m | installNumeric => cases hi
    | event e =>
      cases e with
      | edit key text | reconnect | shutdown => cases hi
      | transport g report => exact ⟨g, report, rfl, of_decide_eq_true hi⟩
  · rintro ⟨g, report, rfl, hg⟩
    exact decide_eq_true hg

namespace Session

theorem take_outdated {s : Session φ} {generation : UInt64} (hs : generation ≤ s.link.generation)
    {i : Input φ} (hi : i.outdated generation = true) : s.take i = (s, []) := by
  obtain ⟨g, report, rfl, hg⟩ := Input.outdated_iff.1 hi
  have hne : g ≠ s.link.generation := UInt64.ne_of_lt (UInt64.lt_of_lt_of_le hg hs)
  have hforeign : s.link.owns g = false := beq_eq_false_iff_ne.2 hne
  exact s.report_foreign hforeign report

/-- A run goes on after an outdated report as if there had been none. -/
theorem play_outdated {s : Session φ} {generation : UInt64} (hs : generation ≤ s.link.generation)
    {i : Input φ} (hi : i.outdated generation = true) (is : List (Input φ)) :
    s.play (i :: is) = s.play is := by
  have htake : s.take i = (s, []) := take_outdated hs hi
  have hmarks : s.marks i = [] := by
    obtain ⟨g, report, rfl, -⟩ := Input.outdated_iff.1 hi
    rw [marks, htake]
    rfl
  rw [play, htake, hmarks, List.nil_append]

/-- Some inputs without the reports that are outdated when they come. -/
def timely (s : Session φ) : List (Input φ) → List (Input φ)
  | [] => []
  | i :: is =>
    if i.outdated s.link.generation then s.timely is else i :: (s.take i).1.timely is

theorem play_timely (s : Session φ) (is : List (Input φ)) : s.play (s.timely is) = s.play is := by
  induction is generalizing s with
  | nil => rfl
  | cons i is ih =>
    by_cases hi : i.outdated s.link.generation = true
    · rw [timely, if_pos hi, ih, play_outdated (UInt64.le_refl _) hi]
    · rw [timely, if_neg hi, play, ih, play]

theorem toNat_generation_take (s : Session φ) (i : Input φ)
    (h : s.link.generation.toNat + (dials (s.take i).2).length < UInt64.size) :
    (s.take i).1.link.generation.toNat =
      s.link.generation.toNat + (dials (s.take i).2).length := by
  rw [(s.turns_take i).generation_eq, toNat_count h]

/-- Nor do the reports matter that are outdated from the beginning. Which of the two runs is known
not to overflow does not matter either. -/
theorem play_filter {s : Session φ} {generation : UInt64} (hs : generation ≤ s.link.generation)
    (is : List (Input φ))
    (hsize : s.link.generation.toNat + min (s.openings is).length
      (s.openings (is.filter fun i => !i.outdated generation)).length < UInt64.size) :
    s.play (is.filter fun i => !i.outdated generation) = s.play is := by
  induction is generalizing s with
  | nil => rfl
  | cons i is ih =>
    by_cases hi : i.outdated generation = true
    · have hplay := play_outdated hs hi is
      rw [List.filter_cons_of_neg (by simp [hi])] at hsize ⊢
      rw [openings, hplay] at hsize
      rw [hplay]
      exact ih hs hsize
    · rw [List.filter_cons_of_pos (by simpa using hi), openings_cons, openings_cons,
        List.length_append, List.length_append] at hsize
      have hcount := toNat_generation_take s i (by omega)
      have hrises : s.link.generation ≤ (s.take i).1.link.generation :=
        UInt64.le_iff_toNat_le.2 (by omega)
      rw [List.filter_cons_of_pos (by simpa using hi), play, play,
        ih (UInt64.le_trans hs hrises) (by omega)]

/-- How a session takes reports of connections that are superseded. -/
structure Oblivious (s : Session φ) (inputs : List (Input φ)) : Prop where
  /-- What is reported of any but the present connection is lost without a trace. -/
  foreign : ∀ earlier later, inputs = earlier ++ later → ∀ generation report,
    generation ≠ (s.play earlier).1.link.generation →
    (s.play earlier).1.step (.transport generation report) = ((s.play earlier).1, [])
  rising : ∀ earlier later, inputs = earlier ++ later →
    (s.play earlier).1.link.generation ≤ (s.play inputs).1.link.generation
  /-- Another run that differs in nothing but outdated reports has the same marks and the same end. -/
  timely : ∀ others, s.timely others = s.timely inputs → s.play others = s.play inputs
  /-- From any point on, reports of the generations superseded by then may be put in, left out,
  repeated and moved to wherever else. -/
  rearranged : ∀ earlier later others, inputs = earlier ++ later →
    others.filter (fun i => !i.outdated (s.play earlier).1.link.generation) =
      later.filter (fun i => !i.outdated (s.play earlier).1.link.generation) →
    s.play (earlier ++ others) = s.play inputs

end Session

/-- Superseded connections cannot be observed. In a run with fewer than 2^64 connections, whatever is
reported of a connection once another was asked for leaves the session as it is and is not answered,
so it makes no difference whether, when and how often it is reported. -/
theorem superseded_unobserved (c : Catalog φ) (url : String) (inputs : List (Input φ))
    (hsize : ((Session.new c url).openings inputs).length < UInt64.size) :
    (Session.new c url).Oblivious inputs := by
  have hfirst : (Session.new c url).link.generation.toNat = 0 := rfl
  generalize Session.new c url = s at hsize hfirst ⊢
  constructor
  case foreign =>
    intro earlier later _ generation report hne
    exact (s.play earlier).1.report_foreign (beq_eq_false_iff_ne.2 hne) report
  case rising =>
    rintro earlier later rfl
    have hwhole := s.toNat_generation_play (earlier ++ later) (by omega)
    rw [Session.openings_append, List.length_append] at hsize hwhole
    have hearlier := s.toNat_generation_play earlier (by omega)
    exact UInt64.le_iff_toNat_le.2 (by omega)
  case timely =>
    intro others hsame
    rw [← s.play_timely others, hsame, s.play_timely inputs]
  case rearranged =>
    rintro earlier later others rfl hsame
    rw [Session.openings_append, List.length_append] at hsize
    have hcount := s.toNat_generation_play earlier (by omega)
    rw [s.play_append_eq earlier others, s.play_append_eq earlier later]
    generalize (s.play earlier).1 = t at hsize hcount hsame ⊢
    have hlater := Session.play_filter (UInt64.le_refl t.link.generation) later (by omega)
    -- the other run opens as many connections, since the one without outdated reports does
    have hopenings : t.openings (others.filter fun i => !i.outdated t.link.generation) =
        t.openings later := by
      rw [hsame, Session.openings, hlater, Session.openings]
    have hothers := Session.play_filter (UInt64.le_refl t.link.generation) others
      (by rw [hopenings]; omega)
    rw [← hothers, hsame, hlater]

/-- A second connection after the end of the first. -/
def reopened : List (Input Empty) :=
  [.event .reconnect, .event (.transport 1 .opened), .event (.transport 1 .closed),
    .event .reconnect]

/-- The second connection brings a number, while the first one goes on to report its end. -/
def interleaved : List (Input Empty) :=
  [.event (.transport 1 (.errored "reset")), .event (.transport 2 .opened),
    .event (.transport 2 (.message "\x7b\"type\":\"hello\",\"vars\":[[1,null,\"int\"]]\x7d")),
    .event (.transport 1 .closed)]

/-- Without the reports of the first connection the run is the same. -/
theorem superseded_unobserved_interleaved :
    ((Session.new (Catalog.withNumeric : Catalog Empty) "ws://h").openings
      (reopened ++ interleaved)).length < UInt64.size ∧
    (Session.new (Catalog.withNumeric : Catalog Empty) "ws://h").Oblivious
      (reopened ++ interleaved) ∧
    (interleaved.filter fun i => !i.outdated 2).length = 2 ∧
    (Session.new (Catalog.withNumeric : Catalog Empty) "ws://h").play
      (reopened ++ interleaved.filter fun i => !i.outdated 2) =
    (Session.new (Catalog.withNumeric : Catalog Empty) "ws://h").play (reopened ++ interleaved) :=
  have hsize : ((Session.new (Catalog.withNumeric : Catalog Empty) "ws://h").openings
      (reopened ++ interleaved)).length < UInt64.size := by decide +kernel
  have hwhole := superseded_unobserved .withNumeric "ws://h" (reopened ++ interleaved) hsize
  ⟨hsize, hwhole, by decide, hwhole.rearranged reopened interleaved _ rfl rfl⟩

end LivePanel
