import LivePanel.Proofs.Field.Label
import LivePanel.Proofs.Session.Updates
import LivePanel.Proofs.Store.Acceptance
import LivePanel.Proofs.Store.Typing

/-!
# Values a session stores

A rendered variable holds a value that its field accepts, but for one case: the value was there when
the variable was rendered, the field refused it then, and no value has been shown since. Main
statement: `values_accepted`.
-/
namespace LivePanel

variable {φ : Type} [FieldKind φ]

namespace Store

/-- Whether among some arrivals a variable was rendered with a value that its field refused, and no
value of it was shown after that. -/
def Unshown (s : Store φ) (as : List (Arrival φ)) (h : Handle) (x : Json) : Prop :=
  ∃ before c entry after w f, as = before ++ .hello c entry :: after ∧
    (before.foldl arrive s).Renders h c entry w f ∧ w.value = some x ∧ f.accepts x = false ∧
    texts h (((before.foldl arrive s).arrive (.hello c entry)).replies after) = []

/-- What became of a variable since it was rendered. -/
theorem Renders.settles {s : Store φ} (hs : s.Keyed) {h : Handle} {c : Catalog φ} {entry : Json}
    {w : Variable φ} {f : Field φ} (hr : s.Renders h c entry w f) (after : List (Arrival φ)) :
    Settles h w.value (Variable.showing f w.value)
      ((after.foldl arrive (s.arrive (.hello c entry))).find? h)
      ((s.arrive (.hello c entry)).replies after) :=
  settles_foldl_arrive (v := { w with field := some (Variable.showing f w.value) })
    (hs.arrive (.hello c entry)) after hr.stored rfl

/-- A value that was refused is still stored if none was shown since. -/
theorem Unshown.stored {s : Store φ} (hs : s.Keyed) {as : List (Arrival φ)} {h : Handle} {x : Json}
    (hx : s.Unshown as h x) :
    ∃ v f g, (as.foldl arrive s).find? h = some v ∧ v.value = some x ∧ v.field = some g ∧
      Field.Descends f g ∧ f.accepts x = false := by
  obtain ⟨before, c, entry, after, w, f, rfl, hrenders, hvalue, hrefused, hsilent⟩ := hx
  have hsettles := hrenders.settles (hs.foldl_arrive before) after
  rw [List.foldl_append, List.foldl_cons]
  generalize (after.foldl arrive _).find? h = o at hsettles ⊢
  cases hsettles with
  | shown htold => exact absurd hsilent htold
  | kept _ hvalue' hfield hd =>
    exact ⟨_, f, _, rfl, hvalue'.trans hvalue, hfield,
      (Variable.descends_showing f w.value).trans hd, hrefused⟩

/-- What a rendered variable holds has been accepted, or it was there before and has not been shown. -/
theorem accepted_or_unshown {s : Store φ} (hs : s.Keyed) {as : List (Arrival φ)} {h : Handle}
    (hfirst : s.renders h = false) {v : Variable φ} {g : Field φ} {x : Json}
    (hv : (as.foldl arrive s).find? h = some v) (hg : v.field = some g) (hx : v.value = some x) :
    g.Accepted x ∨ s.Unshown as h x := by
  have hlast : (as.foldl arrive s).renders h = true := by
    rw [renders, hv]
    simp [rendered?, Variable.rendered, hg]
  obtain ⟨before, c, entry, after, w, f, rfl, hrenders⟩ := exists_rendering hfirst hlast
  have hsettles := hrenders.settles (hs.foldl_arrive before) after
  rw [List.foldl_append, List.foldl_cons] at hv
  rw [hv] at hsettles
  cases hsettles with
  | shown _ hvalue hfield haccepted =>
    obtain rfl := Option.some.inj (hx.symm.trans hvalue)
    obtain rfl := Option.some.inj (hg.symm.trans hfield)
    exact .inl haccepted
  | kept hsilent hvalue hfield hd =>
    obtain rfl := Option.some.inj (hg.symm.trans hfield)
    have hw : w.value = some x := hvalue.symm.trans hx
    rcases hp : FieldKind.present f x with ⟨f', e | _⟩
    · exact .inr ⟨before, c, entry, after, w, f, rfl, hrenders, hw,
        Variable.not_accepts_of_present hp, hsilent⟩
    · have hshown : Variable.showing f w.value = f' := by
        rw [hw, Variable.showing, hp]
      exact .inl ⟨f, f', hp, hshown ▸ hd⟩

/-- So a field refuses what is stored in that case only. -/
theorem accepts_iff_not_unshown {s : Store φ} (hs : s.Keyed) {as : List (Arrival φ)} {h : Handle}
    (hfirst : s.renders h = false) {v : Variable φ} {g : Field φ} {x : Json}
    (hv : (as.foldl arrive s).find? h = some v) (hg : v.field = some g) (hx : v.value = some x)
    (himpartial : g.Impartial) : g.accepts x = true ↔ ¬ s.Unshown as h x := by
  constructor
  · intro haccepts hunshown
    obtain ⟨v', f, g', hv', -, hg', hd, hrefused⟩ := hunshown.stored hs
    obtain rfl := Option.some.inj (hv.symm.trans hv')
    obtain rfl := Option.some.inj (hg.symm.trans hg')
    have hf : f.Impartial := hd.impartial_iff.1 himpartial
    rw [Field.accepts_eq, hf.of_descends hd, ← Field.accepts_eq, hrefused] at haccepts
    cases haccepts
  · intro hshown
    exact ((accepted_or_unshown hs hfirst hv hg hx).resolve_right hshown).accepts himpartial

end Store

/-- A descriptor that carries no value and no other datatype fails at the stored value only. -/
theorem Descriptor.Ends.valueless {c : Catalog φ} {d : Descriptor} {v : Variable φ}
    {o : Option (Variable φ)} {r : Except Issue (Option Command)} (he : d.Ends c (some v) (o, r))
    {f : Field φ} (hf : v.field = some f) (hvalue : d.value = none)
    (hdatatype : ∀ t, d.datatype = some t → t = v.datatype) :
    (∃ issue, r = .error issue) ↔ ∃ x, v.value = some x ∧ f.accepts x = false := by
  cases he with
  | unclaimed hw | rendered hw =>
    have hnone := hw.unrendered.1
    simp [rendered?, Variable.rendered, hf] at hnone
  | @retyped _ t hr hconflict =>
    obtain ⟨hd, hne⟩ := Option.filter_eq_some_iff.1 hconflict
    simp [hdatatype t hd] at hne
  | silent _ _ hnone =>
    rw [hvalue, Option.none_or] at hnone
    simp [hnone]
  | @valued _ w x _ _ _ hx ht =>
    rw [hvalue, Option.none_or] at hx
    have hfield : (v.amended d).field = some f := hf
    cases ht with
    | kept hnone =>
      rw [hfield] at hnone
      cases hnone
    | shown hf' hp =>
      obtain rfl := Option.some.inj (hfield.symm.trans hf')
      simp [hx, Variable.accepts_of_present hp]
    | refused hf' hp =>
      obtain rfl := Option.some.inj (hfield.symm.trans hf')
      simp [hx, Variable.not_accepts_of_present hp]

namespace Session

/-- How the values of a session go with its fields. -/
structure AcceptsValues (s : Session φ) (inputs : List (Input φ)) : Prop where
  origin : ∀ h v f x, (s.play inputs).1.store.find? h = some v → v.field = some f →
    v.value = some x → f.Accepted x ∨ s.store.Unshown (s.allArrivals inputs) h x
  accepts_iff : ∀ h v f x, (s.play inputs).1.store.find? h = some v → v.field = some f →
    v.value = some x → f.Impartial →
      (f.accepts x = true ↔ ¬ s.store.Unshown (s.allArrivals inputs) h x)
  /-- A descriptor that carries no value and no other datatype. -/
  valueless : ∀ c entry d v f, Descriptor.ofJson entry = .ok d →
    (s.play inputs).1.store.find? d.handle = some v → v.field = some f → f.Impartial →
    d.value = none → (∀ t, d.datatype = some t → t = v.datatype) →
      ((∃ issue, ((s.play inputs).1.store.helloEntry c entry).2 = .error issue) ↔
        ∃ x, v.value = some x ∧ s.store.Unshown (s.allArrivals inputs) d.handle x)

end Session

/-- A rendered variable holds a value that its field accepts, unless it was rendered with one that the
field refused and none was shown since. Then a descriptor without a value fails, and otherwise it does
not. -/
theorem values_accepted (c : Catalog φ) (url : String) (inputs : List (Input φ)) :
    (Session.new c url).AcceptsValues inputs := by
  have hkeyed : (Session.new c url).store.Keyed := Store.keyed_empty
  have hstore := Session.store_play (Session.new c url) inputs
  constructor
  case origin =>
    intro h v f x hv hf hx
    rw [hstore] at hv
    exact Store.accepted_or_unshown hkeyed rfl hv hf hx
  case accepts_iff =>
    intro h v f x hv hf hx himpartial
    rw [hstore] at hv
    exact Store.accepts_iff_not_unshown hkeyed rfl hv hf hx himpartial
  case valueless =>
    intro c' entry d v f hd hv hf himpartial hvalue hdatatype
    have hends := ((Session.new c url).play inputs).1.store.ends_hello c' hd
    rw [hv] at hends
    rw [hends.valueless hf hvalue hdatatype]
    refine exists_congr fun x => and_congr_right fun hx => ?_
    rw [hstore] at hv
    rw [← Bool.not_eq_true, Store.accepts_iff_not_unshown hkeyed rfl hv hf hx himpartial,
      Classical.not_not]

/-- A plain kind of fields is impartial. -/
example (l : Label) : (Field.custom l).Impartial := plain_label.impartial

/-- A number whose first value is a text. -/
def loud : List (Input Empty) :=
  [.event .reconnect, .event (.transport 1 .opened),
    .event (.transport 1 (.message
      "\x7b\"type\":\"hello\",\"vars\":[[1,null,\"int\",null,null,\"loud\"]]\x7d"))]

/-- Its field refuses what is stored, and a later descriptor fails though it carries no value. -/
theorem loud_not_accepted :
    (∃ v f x, ((Session.new .withNumeric "ws://h").play loud).1.store.find? (.number 1) = some v ∧
      v.field = some f ∧ v.value = some x ∧ f.accepts x = false) ∧
    ((Session.new .withNumeric "ws://h").play loud).1.tally.issues = 0 ∧
    ((Session.new .withNumeric "ws://h").play (loud ++ [.event (.transport 1 (.message
      "\x7b\"type\":\"hello\",\"vars\":[[1]]\x7d"))])).1.tally.issues = 1 := by
  refine ⟨?_, by decide +kernel, by decide +kernel⟩
  have hany : (((Session.new .withNumeric "ws://h").play loud).1.store.find? (.number 1)).any
      (fun v => v.field.any fun f => v.value.any fun x => !f.accepts x) = true := by decide +kernel
  obtain ⟨v, hv, hfield⟩ := (Option.any_eq_true _ _).1 hany
  obtain ⟨f, hf, hvalue⟩ := (Option.any_eq_true _ _).1 hfield
  obtain ⟨x, hx, hrefused⟩ := (Option.any_eq_true _ _).1 hvalue
  exact ⟨v, f, x, hv, hf, hx, by simpa using hrefused⟩

end LivePanel
