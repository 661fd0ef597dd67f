import LivePanel.Proofs.Store.Failures

/-!
# Types

A variable that has a field keeps its datatype, whatever arrives. If fields are made of the datatypes
that were asked for, and last, then the two agree. Main statements: `datatype_foldl_arrive` and
`Typed.arrive`.
-/
namespace LivePanel

variable {φ : Type} [FieldKind φ]

namespace Record

/-- Where there is a field, a descriptor of another datatype is skipped. -/
theorem datatype_amend {field : Option (Field φ)} (hfield : field.isSome = true) (r : Record)
    (d : Descriptor) : (r.amend field d).datatype = r.datatype := by
  unfold amend
  split
  · rfl
  · rename_i hsame
    change d.datatype.getD r.datatype = r.datatype
    cases hd : d.datatype with
    | none => rfl
    | some t => simpa [hd, hfield] using hsame

theorem datatype_follow (h : Handle) {field : Option (Field φ)} (hfield : field.isSome = true)
    (r : Record) (a : Arrival φ) :
    (follow h (some r) (field, a)).map datatype = some r.datatype := by
  cases a with
  | hello c entry =>
    simp only [follow]
    split
    · split
      · exact congrArg some (r.datatype_amend hfield _)
      · rfl
    · rfl
  | refresh entry =>
    simp only [follow]
    split
    · split <;> rfl
    · rfl
  | edit key text => rfl

end Record

namespace Store

theorem datatype_arrive {s : Store φ} {h : Handle} {v : Variable φ} (hv : s.find? h = some v)
    (hr : v.rendered = true) (a : Arrival φ) :
    ∃ w, (s.arrive a).find? h = some w ∧ w.rendered = true ∧ w.datatype = v.datatype := by
  obtain ⟨f, hf⟩ := Option.isSome_iff_exists.1 hr
  have hkeeps := a.keepsField_act h (s.find? h)
  obtain ⟨w, g, hw, hg, -⟩ := hkeeps v f hv hf
  have hrecord := Arrival.record_act h (s.find? h) a
  rw [hw, hv, Option.map_some, Option.map_some, Option.bind_some] at hrecord
  have hdatatype := Record.datatype_follow h hr v.record a
  rw [← hrecord, Option.map_some] at hdatatype
  refine ⟨w, ?_, ?_, Option.some.inj hdatatype⟩
  · rw [find?_arrive, hw]
  · simp [Variable.rendered, hg]

/-- A variable that is rendered keeps its datatype. -/
theorem datatype_foldl_arrive {s : Store φ} {h : Handle} {v : Variable φ}
    (hv : s.find? h = some v) (hr : v.rendered = true) (as : List (Arrival φ)) :
    ∃ w, (as.foldl arrive s).find? h = some w ∧ w.datatype = v.datatype := by
  induction as generalizing s v with
  | nil => exact ⟨v, hv, rfl⟩
  | cons a as ih =>
    obtain ⟨u, hu, hur, hud⟩ := datatype_arrive hv hr a
    obtain ⟨w, hw, hwd⟩ := ih hu hur
    exact ⟨w, hw, hwd.trans hud⟩

end Store

/-- Whether the field of a variable, if it has one, is of its datatype. -/
def Variable.Typed (v : Variable φ) : Prop :=
  ∀ f, v.field = some f → FieldKind.datatype f = v.datatype

namespace Variable

theorem typed_of_unrendered {v : Variable φ} (hv : v.rendered = false) : v.Typed := by
  intro f hf
  simp [rendered, hf] at hv

/-- A variable stays typed as its field goes on. -/
theorem Typed.of_descends (lasting : Lasting φ) {v w : Variable φ} (hv : v.Typed) {f g : Field φ}
    (hf : v.field = some f) (hg : w.field = some g) (hfg : f.Descends g)
    (hw : w.datatype = v.datatype) : w.Typed := by
  intro k hk
  obtain rfl : g = k := Option.some.inj (hg.symm.trans hk)
  rw [(lasting.alike_of_descends hfg).datatype, hv f hf, hw]

theorem Takes.typed (lasting : Lasting φ) {v w : Variable φ} {x : Json}
    {r : Except Issue (Option Command)} (ht : v.Takes x (w, r)) (hv : v.Typed) : w.Typed := by
  cases ht with
  | kept hnone => exact typed_of_unrendered (by simp [rendered, hnone])
  | shown hf hp | refused hf hp =>
    exact hv.of_descends lasting hf rfl (Field.descends_present hp) rfl

theorem descends_showing (f : Field φ) (value : Option Json) : f.Descends (showing f value) := by
  cases value with
  | none => exact .same
  | some x => exact Field.Descends.same.presented x

end Variable

theorem Descriptor.typed_amended {d : Descriptor} {v : Variable φ} (hv : v.Typed)
    (hr : v.rendered = true) (hn : v.conflict? d = none) : (v.amended d).Typed := by
  intro f hf
  rw [hv f hf, Ends.datatype_amended hr hn]

/-- A field comes from a catalog that makes it of the datatype of its variable. -/
theorem Descriptor.Ends.typed (lasting : Lasting φ) {c : Catalog φ} (hc : c.Apt) {d : Descriptor}
    {o o' : Option (Variable φ)} {r : Except Issue (Option Command)} (he : d.Ends c o (o', r))
    (ho : ∀ v, o = some v → v.Typed) : ∀ w, o' = some w → w.Typed := by
  cases he with
  | incomplete | retyped => exact ho
  | unclaimed hw _ =>
    rintro w ⟨rfl⟩
    exact Variable.typed_of_unrendered hw.unrendered.2
  | @rendered _ w f hw hm =>
    rintro _ ⟨rfl⟩ g hg
    obtain rfl := Option.some.inj hg
    have hshown := lasting.alike_of_descends (Variable.descends_showing f w.value)
    rw [hshown.datatype]
    exact hc w.datatype w.options f hm
  | @silent v hr hn _ =>
    rintro _ ⟨rfl⟩
    exact typed_amended (ho v rfl) hr hn
  | @valued v _ _ _ hr hn _ ht =>
    rintro _ ⟨rfl⟩
    exact ht.typed lasting (typed_amended (ho v rfl) hr hn)

theorem Assignment.Ends.typed (lasting : Lasting φ) {e : Assignment} {o o' : Option (Variable φ)}
    {r : Except Issue (Option Command)} (he : e.Ends o (o', r)) (ho : ∀ v, o = some v → v.Typed) :
    ∀ w, o' = some w → w.Typed := by
  cases he with
  | unknown => exact ho
  | @valued v _ _ ht =>
    rintro _ ⟨rfl⟩
    exact ht.typed lasting (ho v rfl)

theorem Store.EditEnds.typed (lasting : Lasting φ) {h : Handle} {text : String}
    {o o' : Option (Variable φ)} {r : Except Refusal Update} (he : EditEnds h text o (o', r))
    (ho : ∀ v, o = some v → v.Typed) : ∀ w, o' = some w → w.Typed := by
  cases he with
  | unknown | unrendered => exact ho
  | @accepted v f _ hf _ =>
    rintro _ ⟨rfl⟩
    have hfield := Field.Descends.same.entered (f := f) text
    exact (ho v rfl).of_descends lasting hf rfl hfield rfl
  | @refused v f _ _ _ hf _ hg =>
    rintro _ ⟨rfl⟩
    have hfield := (Field.Descends.same.entered (f := f) text).trans hg.descends
    exact (ho v rfl).of_descends lasting hf rfl hfield rfl

/-- Whether a `hello` comes with a catalog that makes fields of the datatypes asked for. -/
def Arrival.Apt : Arrival φ → Prop
  | .hello c _ => c.Apt
  | .refresh _ | .edit .. => True

namespace Store

/-- Whether every field is of the datatype of its variable. -/
def Typed (s : Store φ) : Prop := ∀ h v, s.find? h = some v → v.Typed

theorem typed_empty : (empty : Store φ).Typed := by
  intro h v hv
  cases hv

theorem Typed.arrive (lasting : Lasting φ) {s : Store φ} (hs : s.Typed) {a : Arrival φ}
    (ha : a.Apt) : (s.arrive a).Typed := by
  intro h
  rw [find?_arrive]
  cases a with
  | hello c entry =>
    simp only [Arrival.act]
    split
    · split
      · exact (Descriptor.ends_step c _ _).typed lasting ha (hs h)
      · exact hs h
    · exact hs h
  | refresh entry =>
    simp only [Arrival.act]
    split
    · split
      · exact (Assignment.ends_step _ _).typed lasting (hs h)
      · exact hs h
    · exact hs h
  | edit key text =>
    simp only [Arrival.act]
    split
    · exact (ends_editStep h text _).typed lasting (hs h)
    · exact hs h

theorem Typed.foldl_arrive (lasting : Lasting φ) {s : Store φ} (hs : s.Typed)
    {as : List (Arrival φ)} (has : ∀ a ∈ as, a.Apt) : (as.foldl Store.arrive s).Typed := by
  induction as generalizing s with
  | nil => exact hs
  | cons a as ih =>
    have hfirst := hs.arrive lasting (has a List.mem_cons_self)
    exact ih hfirst fun b hb => has b (List.mem_cons_of_mem a hb)

end Store
end LivePanel
