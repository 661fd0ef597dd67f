import LivePanel.Proofs.Session.Courses

/-!
# Streams of reports

If every transport keeps to the stream of reports that it can give, and none reports before its
connection is asked for, then messages come over an open connection only. Main statements:
`Fed.standing` and `messages_live`.
-/
namespace LivePanel

variable {φ : Type} [FieldKind φ]

omit [FieldKind φ] in
/-- What an input reports of the connection of a generation. -/
def Input.report? (g : UInt64) : Input φ → Option Report
  | .event (.transport generation r) => if generation = g then some r else none
  | .event (.edit ..) | .event .reconnect | .event .shutdown | .register .. | .installNumeric => none

omit [FieldKind φ] in
/-- What some inputs report of the connection of a generation, in order. -/
def reports (g : UInt64) (is : List (Input φ)) : List Report := is.filterMap (Input.report? g)

namespace Session

/-- Whether the transports of a run keep to their streams, each once it is asked for. -/
structure Fed (s : Session φ) (inputs : List (Input φ)) : Prop where
  streams : ∀ g, ∃ rs, Emission rs ∧ reports g inputs <+: rs
  dialed : ∀ earlier g r later, inputs = earlier ++ .event (.transport g r) :: later →
    ∃ request ∈ s.openings earlier, request.generation = g

theorem Fed.of_append {s : Session φ} {is js : List (Input φ)} (h : s.Fed (is ++ js)) :
    s.Fed is := by
  constructor
  · intro g
    obtain ⟨rs, hrs, hprefix⟩ := h.streams g
    rw [reports, List.filterMap_append] at hprefix
    exact ⟨rs, hrs, (List.prefix_append _ _).trans hprefix⟩
  · rintro earlier g r later rfl
    exact h.dialed earlier g r (later ++ js) (by simp)

/-- The statuses that some inputs make a session tell, each with the generation it is about. -/
def told (s : Session φ) : List (Input φ) → List (UInt64 × Status)
  | [] => []
  | i :: is =>
    (statuses (s.take i).2).map ((s.take i).1.link.generation, ·) ++ (s.take i).1.told is

theorem told_append (s : Session φ) (is js : List (Input φ)) :
    s.told (is ++ js) = s.told is ++ (s.play is).1.told js := by
  induction is generalizing s with
  | nil => rfl
  | cons i is ih => rw [List.cons_append, told, ih, told, List.append_assoc, play]

theorem told_snoc (s : Session φ) (is : List (Input φ)) (i : Input φ) :
    s.told (is ++ [i]) = s.told is ++ (statuses ((s.play is).1.take i).2).map
      (((s.play is).1.take i).1.link.generation, ·) := by
  rw [told_append, told, told, List.append_nil]

theorem play_snoc (s : Session φ) (is : List (Input φ)) (i : Input φ) :
    (s.play (is ++ [i])).1 = ((s.play is).1.take i).1 := s.play_append is [i]

theorem map_told (s : Session φ) (is : List (Input φ)) :
    (s.told is).map Prod.snd = statuses (commands (s.play is).2) := by
  induction is generalizing s with
  | nil => rfl
  | cons i is ih =>
    rw [told, List.map_append, ih, commands_play_cons, statuses_append, List.map_map]
    exact congrArg (· ++ _) (List.map_id _)

omit [FieldKind φ] in
theorem reports_snoc (g g' : UInt64) (r : Report) (past : List (Input φ)) :
    reports g' (past ++ [.event (.transport g r)]) =
      reports g' past ++ (if g = g' then some r else none).toList := by
  rw [reports, List.filterMap_append]
  split <;> simp_all [reports, Input.report?]

omit [FieldKind φ] in
theorem reports_unreported {i : Input φ} (hi : ∀ g r, i ≠ .event (.transport g r)) (g : UInt64)
    (past : List (Input φ)) : reports g (past ++ [i]) = reports g past := by
  have hnone : i.report? g = none := by
    cases i with
    | register ds m | installNumeric => rfl
    | event e =>
      cases e with
      | transport g r => exact absurd rfl (hi g r)
      | edit key text | reconnect | shutdown => rfl
  simp [reports, hnone]

/-- Whether a run has asked for the connection of a generation. -/
def Dialed (s : Session φ) (past : List (Input φ)) (g : UInt64) : Prop :=
  ∃ request ∈ s.openings past, request.generation = g

theorem dialed_snoc (s : Session φ) (past : List (Input φ)) (i : Input φ) :
    s.Dialed (past ++ [i]) = fun g => s.Dialed past g ∨
      ∃ request ∈ dials ((s.play past).1.take i).2, request.generation = g := by
  funext g
  have hlast : (s.play past).1.openings [i] = dials ((s.play past).1.take i).2 := by
    rw [openings_cons]
    exact List.append_nil _
  rw [Dialed, openings_append, hlast, Dialed]
  simp only [List.mem_append, or_and_right, exists_or]

theorem dialed_snoc_of_none {s : Session φ} {past : List (Input φ)} {i : Input φ}
    (h : dials ((s.play past).1.take i).2 = []) : s.Dialed (past ++ [i]) = s.Dialed past := by
  rw [dialed_snoc, h]
  funext g
  simp

/-- Where the streams have come to, there a session stands. -/
theorem Fed.standing {s : Session φ} {inputs : List (Input φ)} (fed : s.Fed inputs) :
    (s.play inputs).1.Standing (fun g => course (reports g inputs)) (s.Dialed inputs)
      (s.told inputs) := by
  induction inputs using List.reverseRecOn with
  | nil =>
    have hnone : ∀ g, ¬ s.Dialed [] g := fun g ⟨request, hr, _⟩ => by cases hr
    constructor
    case present => exact fun h => (hnone _ h).elim
    case elsewhere => exact fun g h => (hnone g h).elim
    case unheard => exact fun _ _ => rfl
    case toldOpen => exact fun _ => Nat.le_refl 0
    case toldOver => exact fun _ => Nat.le_refl 0
  | append_singleton past i ih =>
    have hpast := ih fed.of_append
    rw [play_snoc, told_snoc]
    by_cases hi : ∃ g r, i = .event (.transport g r)
    · obtain ⟨g, r, rfl⟩ := hi
      obtain ⟨rs, hemission, hprefix⟩ := fed.streams g
      rw [reports_snoc, if_pos rfl] at hprefix
      have hadmits := hemission.admits hprefix
      have hdialed := fed.dialed past g r [] rfl
      obtain ⟨hpresent, hreported⟩ := hpast.reported hdialed hadmits
      have hsame : ((s.play past).1.take (.event (.transport g r))).1.link.generation = g :=
        hreported.undialed.1.trans hpresent.symm
      have hnone : dials ((s.play past).1.take (.event (.transport g r))).2 = [] :=
        hreported.undialed.2
      have hcourses : (fun g' => course (reports g' (past ++ [.event (.transport g r)]))) =
          Function.update (fun g' => course (reports g' past)) g
            ((course (reports g past)).after r) := by
        funext g'
        rw [reports_snoc]
        by_cases hg : g = g'
        · subst hg
          rw [if_pos rfl, Function.update_self]
          exact course_snoc _ r
        · rw [if_neg hg, Function.update_of_ne (Ne.symm hg)]
          exact congrArg course (List.append_nil _)
      rw [dialed_snoc_of_none hnone, hcourses, hsame]
      exact hpast.report hdialed hadmits
    · have hunreported : ∀ g r, i ≠ .event (.transport g r) := fun g r h => hi ⟨g, r, h⟩
      simp only [reports_unreported hunreported]
      obtain ⟨hlink, hcommands⟩ | ⟨hdown, hup, hgeneration, hcommands⟩ :=
        take_unreported (s := (s.play past).1) hunreported
      · rw [dialed_snoc_of_none (dials_of_ofLink hcommands), statuses_of_ofLink hcommands,
          List.map_nil, List.append_nil]
        exact hpast.of_link hlink
      · have hdialed : s.Dialed (past ++ [i]) = fun g =>
            s.Dialed past g ∨ g = ((s.play past).1.take i).1.link.generation := by
          rw [dialed_snoc, hcommands, hgeneration]
          funext g
          simp [dials, Command.dialed?, eq_comm]
        rw [hdialed, hcommands]
        exact hpast.dial hdown hup

/-- What a report does in a run that is fed by streams. -/
theorem Fed.reported {s : Session φ} {earlier later : List (Input φ)} {g : UInt64} {r : Report}
    (fed : s.Fed (earlier ++ .event (.transport g r) :: later)) :
    g = (s.play earlier).1.link.generation ∧
      (s.play earlier).1.Reported (course (reports g earlier)) r
        ((s.play earlier).1.take (.event (.transport g r))) := by
  have hfirst : s.Fed (earlier ++ [.event (.transport g r)]) := by
    rw [List.append_cons] at fed
    exact fed.of_append
  obtain ⟨rs, hemission, hprefix⟩ := hfirst.streams g
  rw [reports_snoc, if_pos rfl] at hprefix
  exact hfirst.of_append.standing.reported (hfirst.dialed earlier g r [] rfl)
    (hemission.admits hprefix)

/-- A status that is told is the one that the session has then. -/
theorem status_of_told {s : Session φ} {i : Input φ} {a : Status}
    (h : .status a ∈ (s.take i).2) : (s.take i).1.status = a := by
  have hmem : a ∈ statuses (s.take i).2 := List.mem_filterMap.2 ⟨.status a, h, rfl⟩
  obtain ⟨hnone, -⟩ | ⟨hone, -⟩ := (s.turns_take i).statuses_cases
  · rw [hnone] at hmem
    cases hmem
  · rw [hone] at hmem
    exact (List.mem_singleton.1 hmem).symm

/-- A session that is disconnected is not connected before it tells so. -/
theorem status_ne_connected {s : Session φ} (hs : s.status = .disconnected) {is : List (Input φ)}
    (hno : .status .connected ∉ commands (s.play is).2) : (s.play is).1.status ≠ .connected := by
  intro hup
  have hlast := (s.statuses_play is).2
  rw [hs, hup] at hlast
  have hmem : Status.connected ∈ statuses (commands (s.play is).2) := by
    have hcons : (statuses (commands (s.play is).2)).getLastD .disconnected ∈
        .disconnected :: statuses (commands (s.play is).2) := List.getLastD_mem_cons
    rw [hlast] at hcons
    exact (List.mem_cons.1 hcons).resolve_left (by simp)
  obtain ⟨command, hcommand, hstatus⟩ := List.mem_filterMap.1 hmem
  cases command <;> cases hstatus
  exact hno hcommand

/-- What a session makes of the streams it is fed. -/
structure Live (s : Session φ) (inputs : List (Input φ)) : Prop where
  /-- No report is late: it is about the present connection. -/
  present : ∀ earlier g r later, inputs = earlier ++ .event (.transport g r) :: later →
    g = (s.play earlier).1.link.generation
  messages : ∀ earlier g payload later,
    inputs = earlier ++ .event (.transport g (.message payload)) :: later →
      (s.play earlier).1.status = .connected
  opened : ∀ earlier g later, inputs = earlier ++ .event (.transport g .opened) :: later →
    (s.play earlier).1.status = .connecting ∧
      ((s.play earlier).1.take (.event (.transport g .opened))).1.status = .connected ∧
      ((s.play earlier).1.take (.event (.transport g .opened))).2 = [.status .connected]
  /-- All that is told of the connections, and how often of each. -/
  once : (s.told inputs).map Prod.snd = statuses (commands (s.play inputs).2) ∧
    ∀ g, (s.told inputs).count (g, .connected) ≤ 1 ∧ (s.told inputs).count (g, .disconnected) ≤ 1
  /-- From one input that ends a connection until the next one is open, no report changes a
  variable. -/
  idle : ∀ before i between g r later,
    inputs = before ++ i :: between ++ .event (.transport g r) :: later →
    .status .disconnected ∈ ((s.play before).1.take i).2 →
    .status .connected ∉ commands (((s.play before).1.take i).1.play between).2 →
    (s.play (before ++ i :: between ++ [.event (.transport g r)])).1.store =
      (s.play (before ++ i :: between)).1.store

end Session

/-- Messages are taken over an open connection only. In a run whose transports keep to their streams,
the status tells how far the present one has come, whatever else happens in between. -/
theorem messages_live {φ : Type} [FieldKind φ] (c : Catalog φ) (url : String)
    (inputs : List (Input φ)) (fed : (Session.new c url).Fed inputs) :
    (Session.new c url).Live inputs := by
  generalize Session.new c url = s at fed ⊢
  constructor
  case present =>
    rintro earlier g r later rfl
    exact fed.reported.1
  case messages =>
    rintro earlier g payload later rfl
    exact fed.reported.2.connected_of_message
  case opened =>
    rintro earlier g later rfl
    have hreported := fed.reported.2
    generalize (s.play earlier).1.take (.event (.transport g .opened)) = answer at hreported ⊢
    cases hreported with
    | opened hstatus => exact ⟨hstatus, rfl, rfl⟩
  case once =>
    refine ⟨s.map_told inputs, fun g => ⟨?_, ?_⟩⟩
    · exact (fed.standing.toldOpen g).trans (by split <;> decide)
    · exact (fed.standing.toldOver g).trans (by split <;> decide)
  case idle =>
    rintro before i between g r later rfl hdown hno
    have hreported := fed.reported.2
    have hquiet : (s.play (before ++ i :: between)).1.status ≠ .connected := by
      rw [s.play_append, Session.play]
      exact Session.status_ne_connected (Session.status_of_told hdown) hno
    rw [Session.play_snoc, Session.store_take]
    cases r with
    | message payload => exact absurd hreported.connected_of_message hquiet
    | opened | closed | errored reason => rfl

/-- A connection that brings a number and ends, and a second one that comes to nothing. -/
def streamed : List (Input Empty) :=
  [.event .reconnect, .event (.transport 1 .opened), .event (.edit "n:1" "4"),
    .event (.transport 1 (.message "\x7b\"type\":\"hello\",\"vars\":[[1,null,\"int\"]]\x7d")),
    .event (.transport 1 .closed), .event (.edit "n:1" "5"), .event .reconnect,
    .event (.transport 2 (.errored "refused"))]

/-- The generation of the connection that an input reports of. -/
def Input.generation? : Input Empty → Option UInt64
  | .event (.transport g _) => some g
  | _ => none

theorem fed_streamed :
    (Session.new (Catalog.withNumeric : Catalog Empty) "ws://h").Fed streamed := by
  constructor
  case streams =>
    intro g
    by_cases h₁ : g = 1
    · subst h₁
      exact ⟨_, .closed ["\x7b\"type\":\"hello\",\"vars\":[[1,null,\"int\"]]\x7d"], List.prefix_rfl⟩
    · by_cases h₂ : g = 2
      · subst h₂
        exact ⟨_, .refused "refused", List.prefix_rfl⟩
      · have hnone : reports g streamed = [] := by
          simp [reports, streamed, Input.report?, Ne.symm h₁, Ne.symm h₂]
        exact ⟨_, .refused "refused", by simp [hnone]⟩
  case dialed =>
    intro earlier g r later h
    have hcheck : ∀ n < 8, ((streamed[n]?).bind Input.generation?).all fun g =>
        ((Session.new (Catalog.withNumeric : Catalog Empty) "ws://h").openings
          (streamed.take n)).any (·.generation == g) := by decide +kernel
    have hlength : earlier.length < 8 := by
      have hlengths : 8 = (earlier ++ .event (.transport g r) :: later).length :=
        congrArg List.length h
      simp at hlengths
      omega
    have hdialed := hcheck earlier.length hlength
    rw [h, List.take_left] at hdialed
    simpa [Input.generation?] using hdialed

/-- Both connections are told to be over, and one of them to be open. -/
theorem messages_live_streamed :
    (Session.new (Catalog.withNumeric : Catalog Empty) "ws://h").Fed streamed ∧
      (Session.new (Catalog.withNumeric : Catalog Empty) "ws://h").Live streamed ∧
      (Session.new (Catalog.withNumeric : Catalog Empty) "ws://h").told streamed =
        [(1, .connecting), (1, .connected), (1, .disconnected), (2, .connecting),
          (2, .disconnected)] :=
  ⟨fed_streamed, messages_live .withNumeric "ws://h" streamed fed_streamed, by decide +kernel⟩

end LivePanel
