import LivePanel.Proofs.Json.Recognized
import LivePanel.Proofs.Wire.Frames

/-!
# Messages that come in

Every text is one of six things: no JSON text, a value without a type, a message of an unknown type,
a `hello` or a `refresh` with its entries, or one of these without entries. Of members with one name
the last counts, and an entry is handed on whatever it is. Main statements: `Message.sorted` and
`Message.ofText_classified`.
-/
namespace LivePanel

open Entry (lastMember)

namespace Json

variable {name : String}

/-- The member that is kept of a name is the last one. -/
theorem get?_tidyMembers {before : Members} {o : Option Json}
    (ho : before.get? name = o.map tidy) (ms : List (String × Json)) :
    (tidyMembers before ms).get? name = (lastMember name o ms).map tidy := by
  induction ms generalizing before o with
  | nil => exact ho
  | cons m ms ih =>
    obtain ⟨n, v⟩ := m
    refine ih ?_
    by_cases hn : n = name
    · subst hn
      dsimp only
      rw [if_pos rfl]
      exact Members.get?_insert_self _ _ _
    · dsimp only
      rw [if_neg hn, Members.get?_insert_of_ne (Ne.symm hn)]
      exact ho

theorem tidy_eq_string_iff {v : Json} {s : String} : v.tidy = .string s ↔ v = .string s := by
  cases v <;> simp [tidy]

theorem tidy_eq_array_iff {v : Json} {es : List Json} :
    v.tidy = .array es ↔ ∃ vs, v = .array vs ∧ es = vs.map tidy := by
  cases v <;> simp [tidy, tidyItems_eq_map, eq_comm]

end Json

namespace Message

open Json (Holds tidy tidyMembers)

/-- An object with a type, which is the last of its members of that name. -/
def Typed (v : Json) (type : String) : Prop :=
  ∃ ms, v = .object ms ∧ lastMember "type" none ms = some (.string type)

/-- An object with a list of entries, which is the last of its members of that name. -/
def Lists (v : Json) (es : List Json) : Prop :=
  ∃ ms vs, v = .object ms ∧ lastMember "vars" none ms = some (.array vs) ∧ es = vs.map tidy

variable {payload type : String} {v : Json} {es : List Json}

theorem get?_tidyMembers_nil (name : String) (ms : List (String × Json)) :
    (tidyMembers [] ms).get? name = (lastMember name none ms).map tidy :=
  Json.get?_tidyMembers (o := none) rfl ms

theorem typed_iff : Typed v type ↔
    ∃ ms : Members, v.tidy = .object ms ∧ ms.get? "type" = some (.string type) := by
  constructor
  · rintro ⟨ms, rfl, htype⟩
    exact ⟨_, rfl, by rw [get?_tidyMembers_nil, htype]; rfl⟩
  · rintro ⟨ms, hv, htype⟩
    cases v with
    | object raw =>
      obtain rfl := Json.object.inj hv
      rw [get?_tidyMembers_nil] at htype
      obtain ⟨w, hw, htidy⟩ := Option.map_eq_some_iff.1 htype
      obtain rfl := Json.tidy_eq_string_iff.1 htidy
      exact ⟨raw, rfl, hw⟩
    | _ => cases hv

theorem lists_iff : Lists v es ↔
    ∃ ms : Members, v.tidy = .object ms ∧ ms.get? "vars" = some (.array es) := by
  constructor
  · rintro ⟨ms, vs, rfl, hvars, rfl⟩
    refine ⟨_, rfl, ?_⟩
    rw [get?_tidyMembers_nil, hvars, Option.map_some, tidy, Json.tidyItems_eq_map]
  · rintro ⟨ms, hv, hvars⟩
    cases v with
    | object raw =>
      obtain rfl := Json.object.inj hv
      rw [get?_tidyMembers_nil] at hvars
      obtain ⟨w, hw, htidy⟩ := Option.map_eq_some_iff.1 hvars
      obtain ⟨vs, rfl, rfl⟩ := Json.tidy_eq_array_iff.1 htidy
      exact ⟨raw, vs, rfl, hw, rfl⟩
    | _ => cases hv

theorem ofJson_untyped (h : ∀ type, ¬ Typed v type) :
    ofJson v.tidy = .error (.incomplete .messageType) := by
  have hnone : ∀ (ms : Members) type, v.tidy = .object ms → ms.get? "type" ≠ some (.string type) :=
    fun ms type hv htype => h type (typed_iff.2 ⟨ms, hv, htype⟩)
  unfold ofJson
  split
  case h_1 ms hv =>
    split
    case h_1 htype => exact absurd htype (hnone ms _ hv)
    case h_2 htype => exact absurd htype (hnone ms _ hv)
    case h_3 _ _ htype => exact absurd htype (hnone ms _ hv)
    case h_4 => rfl
  case h_2 => rfl

theorem ofJson_other (h : Typed v type) (hhello : type ≠ "hello") (hrefresh : type ≠ "refresh") :
    ofJson v.tidy = .ok (.unrecognized type) := by
  obtain ⟨ms, hv, htype⟩ := typed_iff.1 h
  simp only [ofJson, hv, htype]

theorem readEntries_eq_ok_iff {ms : Members} (hv : v.tidy = .object ms) :
    readEntries ms = .ok es ↔ Lists v es := by
  have hlists : Lists v es ↔ ms.get? "vars" = some (.array es) := by
    rw [lists_iff]
    constructor
    · rintro ⟨ms', hms', hvars⟩
      obtain rfl := Json.object.inj (hv.symm.trans hms')
      exact hvars
    · exact fun hvars => ⟨ms, hv, hvars⟩
  rw [hlists, readEntries]
  split
  case h_1 es' hvars => rw [hvars, Except.ok.injEq, Option.some_inj, Json.array.injEq]
  case h_2 w hw hvars =>
    refine iff_of_false (fun h => by cases h) fun h => ?_
    exact hw _ (Option.some.inj (hvars.symm.trans h))
  case h_3 hvars =>
    refine iff_of_false (fun h => by cases h) fun h => ?_
    cases hvars.symm.trans h

theorem ofJson_hello (h : Typed v "hello") (hes : Lists v es) : ofJson v.tidy = .ok (.hello es) := by
  obtain ⟨ms, hv, htype⟩ := typed_iff.1 h
  have hread := (readEntries_eq_ok_iff hv).2 hes
  simp only [ofJson, hv, htype, hread]
  rfl

theorem ofJson_refresh (h : Typed v "refresh") (hes : Lists v es) :
    ofJson v.tidy = .ok (.refresh es) := by
  obtain ⟨ms, hv, htype⟩ := typed_iff.1 h
  have hread := (readEntries_eq_ok_iff hv).2 hes
  simp only [ofJson, hv, htype, hread]
  rfl

theorem ofJson_bare (h : Typed v "hello" ∨ Typed v "refresh") (hes : ∀ es, ¬ Lists v es) :
    ∃ d, ofJson v.tidy = .error (.malformed d) := by
  have hread : ∀ ms, v.tidy = .object ms → ∃ d, readEntries ms = .error d := by
    intro ms hv
    cases hr : readEntries ms with
    | ok es => exact absurd ((readEntries_eq_ok_iff hv).1 hr) (hes es)
    | error d => exact ⟨d, rfl⟩
  obtain h | h := h
  all_goals
    obtain ⟨ms, hv, htype⟩ := typed_iff.1 h
    obtain ⟨d, hd⟩ := hread ms hv
    refine ⟨d, ?_⟩
    simp only [ofJson, hv, htype, hd]
    rfl

/-- What a text is taken for. -/
inductive Sorted (payload : String) : Except Issue Message → Prop where
  | noJson {f : Json.Fault} : (∀ v, ¬ Holds payload v) →
      Sorted payload (.error (.malformed (.unreadable f)))
  | untyped {v : Json} : Holds payload v → (∀ type, ¬ Typed v type) →
      Sorted payload (.error (.incomplete .messageType))
  | other {v : Json} {type : String} : Holds payload v → Typed v type → type ≠ "hello" →
      type ≠ "refresh" → Sorted payload (.ok (.unrecognized type))
  | bare {v : Json} {d : Defect} : Holds payload v → Typed v "hello" ∨ Typed v "refresh" →
      (∀ es, ¬ Lists v es) → Sorted payload (.error (.malformed d))
  | hello {v : Json} {es : List Json} : Holds payload v → Typed v "hello" → Lists v es →
      Sorted payload (.ok (.hello es))
  | refresh {v : Json} {es : List Json} : Holds payload v → Typed v "refresh" → Lists v es →
      Sorted payload (.ok (.refresh es))

theorem ofText_of_holds (h : Holds payload v) : ofText payload = ofJson v.tidy := by
  rw [ofText, h.ofText_eq]

theorem ofText_noJson (h : ∀ v, ¬ Holds payload v) :
    ∃ f, ofText payload = .error (.malformed (.unreadable f)) := by
  cases hof : Json.ofText payload with
  | ok v =>
    obtain ⟨w, hw, -⟩ := Json.ofText_eq_ok_iff.1 hof
    exact absurd hw (h w)
  | error f => exact ⟨f, by rw [ofText, hof]⟩

/-- Every text is taken for something. -/
theorem sorted (payload : String) : Sorted payload (ofText payload) := by
  by_cases hjson : ∃ v, Holds payload v
  case neg =>
    have hnone : ∀ v, ¬ Holds payload v := fun v h => hjson ⟨v, h⟩
    obtain ⟨f, hf⟩ := ofText_noJson hnone
    exact hf ▸ .noJson hnone
  obtain ⟨v, hv⟩ := hjson
  rw [ofText_of_holds hv]
  by_cases htyped : ∃ type, Typed v type
  case neg =>
    have hnone : ∀ type, ¬ Typed v type := fun type h => htyped ⟨type, h⟩
    exact ofJson_untyped hnone ▸ .untyped hv hnone
  obtain ⟨type, htype⟩ := htyped
  by_cases hsome : type = "hello" ∨ type = "refresh"
  case neg =>
    obtain ⟨hhello, hrefresh⟩ := not_or.1 hsome
    exact ofJson_other htype hhello hrefresh ▸ .other hv htype hhello hrefresh
  by_cases hlists : ∃ es, Lists v es
  case neg =>
    have hnone : ∀ es, ¬ Lists v es := fun es h => hlists ⟨es, h⟩
    have hbare : Typed v "hello" ∨ Typed v "refresh" := by
      obtain rfl | rfl := hsome
      · exact .inl htype
      · exact .inr htype
    obtain ⟨d, hd⟩ := ofJson_bare hbare hnone
    exact hd ▸ .bare hv hbare hnone
  obtain ⟨es, hes⟩ := hlists
  obtain rfl | rfl := hsome
  · exact ofJson_hello htype hes ▸ .hello hv htype hes
  · exact ofJson_refresh htype hes ▸ .refresh hv htype hes

theorem malformed_iff : (∃ d, ofText payload = .error (.malformed d)) ↔
    (∀ v, ¬ Holds payload v) ∨
      ∃ v, Holds payload v ∧ (Typed v "hello" ∨ Typed v "refresh") ∧ ∀ es, ¬ Lists v es := by
  constructor
  · rintro ⟨d, hd⟩
    have hsorted := sorted payload
    rw [hd] at hsorted
    cases hsorted with
    | noJson h => exact .inl h
    | bare hv htype hes => exact .inr ⟨_, hv, htype, hes⟩
  · rintro (h | ⟨v, hv, htype, hes⟩)
    · obtain ⟨f, hf⟩ := ofText_noJson h
      exact ⟨_, hf⟩
    · rw [ofText_of_holds hv]
      exact ofJson_bare htype hes

theorem incomplete_iff : (∃ o, ofText payload = .error (.incomplete o)) ↔
    ∃ v, Holds payload v ∧ ∀ type, ¬ Typed v type := by
  constructor
  · rintro ⟨o, ho⟩
    have hsorted := sorted payload
    rw [ho] at hsorted
    cases hsorted with
    | untyped hv htype => exact ⟨_, hv, htype⟩
  · rintro ⟨v, hv, htype⟩
    exact ⟨_, by rw [ofText_of_holds hv, ofJson_untyped htype]⟩

theorem unrecognized_iff : ofText payload = .ok (.unrecognized type) ↔
    ∃ v, Holds payload v ∧ Typed v type ∧ type ≠ "hello" ∧ type ≠ "refresh" := by
  constructor
  · intro h
    have hsorted := sorted payload
    rw [h] at hsorted
    cases hsorted with
    | other hv htype hhello hrefresh => exact ⟨_, hv, htype, hhello, hrefresh⟩
  · rintro ⟨v, hv, htype, hhello, hrefresh⟩
    rw [ofText_of_holds hv, ofJson_other htype hhello hrefresh]

theorem hello_iff : ofText payload = .ok (.hello es) ↔
    ∃ v, Holds payload v ∧ Typed v "hello" ∧ Lists v es := by
  constructor
  · intro h
    have hsorted := sorted payload
    rw [h] at hsorted
    cases hsorted with
    | hello hv htype hes => exact ⟨_, hv, htype, hes⟩
  · rintro ⟨v, hv, htype, hes⟩
    rw [ofText_of_holds hv, ofJson_hello htype hes]

theorem refresh_iff : ofText payload = .ok (.refresh es) ↔
    ∃ v, Holds payload v ∧ Typed v "refresh" ∧ Lists v es := by
  constructor
  · intro h
    have hsorted := sorted payload
    rw [h] at hsorted
    cases hsorted with
    | refresh hv htype hes => exact ⟨_, hv, htype, hes⟩
  · rintro ⟨v, hv, htype, hes⟩
    rw [ofText_of_holds hv, ofJson_refresh htype hes]

/-- A text is malformed if it is no JSON text or a `hello` or a `refresh` without a list of entries;
it is incomplete without a type; and it is unrecognized with another type. Otherwise it is a `hello`
or a `refresh` with the entries that it lists. -/
theorem ofText_classified (payload : String) :
    ((∃ d, ofText payload = .error (.malformed d)) ↔ (∀ v, ¬ Holds payload v) ∨
      ∃ v, Holds payload v ∧ (Typed v "hello" ∨ Typed v "refresh") ∧ ∀ es, ¬ Lists v es) ∧
    ((∃ o, ofText payload = .error (.incomplete o)) ↔
      ∃ v, Holds payload v ∧ ∀ type, ¬ Typed v type) ∧
    (∀ type, ofText payload = .ok (.unrecognized type) ↔
      ∃ v, Holds payload v ∧ Typed v type ∧ type ≠ "hello" ∧ type ≠ "refresh") ∧
    (∀ es, ofText payload = .ok (.hello es) ↔
      ∃ v, Holds payload v ∧ Typed v "hello" ∧ Lists v es) ∧
    ∀ es, ofText payload = .ok (.refresh es) ↔
      ∃ v, Holds payload v ∧ Typed v "refresh" ∧ Lists v es := by
  refine ⟨?malformed, ?incomplete, ?unrecognized, ?hello, ?refresh⟩
  case malformed => exact malformed_iff
  case incomplete => exact incomplete_iff
  case unrecognized => exact fun _ => unrecognized_iff
  case hello => exact fun _ => hello_iff
  case refresh => exact fun _ => refresh_iff

end Message
end LivePanel
