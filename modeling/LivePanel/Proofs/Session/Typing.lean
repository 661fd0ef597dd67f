import LivePanel.Proofs.Field.Label
import LivePanel.Proofs.Session.Updates
import LivePanel.Proofs.Store.Typing

/-!
# Types in a session

Whatever is registered and whatever comes in, no variable leaves a session, and one that is rendered
keeps its datatype and its field. Main statement: `types_frozen`.
-/
namespace LivePanel

variable {φ : Type} [FieldKind φ]

/-- Whether an input, if it is a registration, is one of a maker that makes fields of the datatypes
it claims. -/
def Input.Apt : Input φ → Prop
  | .register ds m => m.Apt ds
  | .event _ | .installNumeric => True

namespace Session

/-- Nothing but a registration changes the catalog. -/
theorem catalog_step (s : Session φ) (e : Event) : (s.step e).1.catalog = s.catalog := by
  cases e with
  | shutdown => rfl
  | reconnect =>
    simp only [step, dial]
    split <;> rfl
  | edit key text =>
    obtain ⟨_, -, he⟩ | ⟨_, -, -, he⟩ | ⟨_, -, -, he⟩ := s.edit_cases key text <;>
      simp only [step, he, reject]
  | transport generation report =>
    cases report with
    | opened | closed | errored reason => rfl
    | message payload =>
      simp only [step, Session.report]
      split
      · simp only [receive]
        split <;> rfl
      · rfl

theorem apt_take {s : Session φ} (hs : s.catalog.Apt) {i : Input φ} (hi : i.Apt) :
    (s.take i).1.catalog.Apt := by
  cases i with
  | register ds m => exact hs.register hi
  | installNumeric => exact hs.installNumeric
  | event e =>
    have hcatalog := s.catalog_step e
    rwa [← hcatalog] at hs

/-- A `hello` comes with the catalog of its time. -/
theorem apt_arrivals {s : Session φ} (hs : s.catalog.Apt) (i : Input φ) :
    ∀ a ∈ s.arrivals i, a.Apt := by
  intro a ha
  cases a with
  | refresh | edit => trivial
  | hello c entry =>
    have hcatalog : c = s.catalog := by
      obtain ⟨d, hd, ha⟩ : ∃ d, s.delivery? i = some d ∧ .hello c entry ∈ d.arrivals := by
        cases hd : s.delivery? i with
        | none => simp [arrivals, hd] at ha
        | some d => exact ⟨d, rfl, by simpa [arrivals, hd] using ha⟩
      unfold delivery? at hd
      split at hd
      · split at hd
        · split at hd <;> cases hd <;> simp_all [Delivery.arrivals]
        · cases hd
      · cases hd
        simp [Delivery.arrivals] at ha
      · cases hd
    rwa [hcatalog]

theorem typed_play (lasting : Lasting φ) {s : Session φ} (hc : s.catalog.Apt) (hs : s.store.Typed)
    {is : List (Input φ)} (his : ∀ i ∈ is, i.Apt) : (s.play is).1.store.Typed := by
  induction is generalizing s with
  | nil => exact hs
  | cons i is ih =>
    have hcatalog := apt_take hc (his i List.mem_cons_self)
    have hstore : (s.take i).1.store.Typed := by
      rw [store_take_arrivals]
      exact hs.foldl_arrive lasting (apt_arrivals hc i)
    exact ih hcatalog hstore fun j hj => his j (List.mem_cons_of_mem i hj)

/-- What a run leaves fixed. -/
structure Freezes (s : Session φ) (inputs : List (Input φ)) : Prop where
  /-- No variable is ever removed. -/
  stored : ∀ earlier later, inputs = earlier ++ later → ∀ h,
    (s.play earlier).1.store.contains h = true → (s.play inputs).1.store.contains h = true
  keyed : ∀ h v, (s.play inputs).1.store.find? h = some v → v.handle = h
  /-- A rendered variable keeps its datatype and its field. Of the built-in field all but the text
  stays; one of another kind has only been typed in and shown values. -/
  rendered : ∀ earlier later, inputs = earlier ++ later → ∀ h v f,
    (s.play earlier).1.store.find? h = some v → v.field = some f →
    ∃ w g, (s.play inputs).1.store.find? h = some w ∧ w.field = some g ∧
      w.datatype = v.datatype ∧ f.Rewords g ∧ (Lasting φ → Alike f g)
  /-- Where makers make what they are asked for, a field is of the datatype of its variable. -/
  typed : Lasting φ → s.catalog.Apt → (∀ i ∈ inputs, i.Apt) → ∀ h v f,
    (s.play inputs).1.store.find? h = some v → v.field = some f →
    FieldKind.datatype f = v.datatype

end Session

/-- A rendered variable is frozen in type. Over every run of a session, with registrations at any
point, variables stay under their handles, and from its rendering on a variable has one datatype and
one field, whose datatype and attributes never change. -/
theorem types_frozen {φ : Type} [FieldKind φ] (c : Catalog φ) (url : String)
    (inputs : List (Input φ)) : (Session.new c url).Freezes inputs := by
  have hkeyed : (Session.new c url).store.Keyed := Store.keyed_empty
  have htyped : (Session.new c url).store.Typed := Store.typed_empty
  generalize Session.new c url = s at hkeyed htyped ⊢
  constructor
  case stored =>
    rintro earlier later rfl h hstored
    rw [Session.play_append, Session.store_play, Store.contains_foldl_arrive]
    exact .inl hstored
  case keyed => exact Session.Keyed.play hkeyed inputs
  case rendered =>
    rintro earlier later rfl h v f hv hf
    have hr : v.rendered = true := Option.isSome_iff_exists.2 ⟨f, hf⟩
    rw [Session.play_append]
    generalize (s.play earlier).1 = t at hv ⊢
    obtain ⟨w, g, hw, hg, hfg⟩ := t.keepsField_play later h v f hv hf
    obtain ⟨u, hu, hdatatype⟩ := Store.datatype_foldl_arrive hv hr (t.allArrivals later)
    rw [← Session.store_play, hw] at hu
    obtain rfl := Option.some.inj hu
    exact ⟨w, g, hw, hg, hdatatype, hfg.rewords, fun lasting => lasting.alike_of_descends hfg⟩
  case typed =>
    intro lasting hc hinputs h v f hv
    exact Session.typed_play lasting hc htyped hinputs h v hv f

/-- A number that is said to be one again, by its code, then to be a `float`, and that at last gets
other options and a value that is none for it. Meanwhile labels claim its datatype. -/
def restated : List (Input Label) :=
  [.event .reconnect, .event (.transport 1 .opened),
    .event (.transport 1 (.message
      "\x7b\"type\":\"hello\",\"vars\":[[1,null,\"int\",null,\x7b\"min\":0,\"of\":1\x7d,2]]\x7d")),
    .register [.integer, .time] Label.maker,
    .event (.transport 1 (.message
      "\x7b\"type\":\"hello\",\"vars\":[[1,null,0],[1,\"level\",\"float\"]]\x7d")),
    .event (.edit "n:1" "x"),
    .event (.transport 1 (.message
      "\x7b\"type\":\"hello\",\"vars\":[[1,\"gain\",\"integer\",null,\x7b\"max\":9\x7d,2.5]]\x7d"))]

/-- It is still the number that it was, with the field it was given at first. -/
theorem types_frozen_restated :
    Lasting Label ∧ (Catalog.withNumeric : Catalog Label).Apt ∧ (∀ i ∈ restated, i.Apt) ∧
      (Session.new .withNumeric "ws://h").Freezes restated ∧
      (((Session.new .withNumeric "ws://h").play restated).1.store.find? (.number 1)).map
        (fun v => (v.datatype, v.options.map Prod.fst, v.field.map fun f =>
          (FieldKind.datatype f, (FieldKind.attributes f).map Prod.fst, FieldKind.text f))) =
        some (.integer, ["max"], some (.integer, ["min"], "2")) := by
  have hinputs : ∀ i ∈ restated, i.Apt := by
    intro i hi
    cases i with
    | event | installNumeric => trivial
    | register ds m =>
      obtain ⟨rfl, rfl⟩ : ds = [.integer, .time] ∧ m = Label.maker := by simpa [restated] using hi
      exact Label.apt_maker _
  exact ⟨lasting_label, Catalog.apt_empty.installNumeric, hinputs,
    types_frozen .withNumeric "ws://h" restated, by decide +kernel⟩

end LivePanel
