import LivePanel.Proofs.Field.Catalog
import LivePanel.Proofs.Field.Lifetime
import LivePanel.Proofs.Store.Replies

/-!
# Rendering

A variable that is stored but not rendered waits for a descriptor that leaves it with a datatype
some field presents. From then on it has one field, whatever is registered later. Main statements:
`orderly_replies`, `replies_of_noneOffers` and `keeps_field`.
-/
namespace LivePanel

variable {φ : Type} [FieldKind φ]

/-- Whether a variable, if it is there at all, keeps a field that it has. -/
def KeepsField (o o' : Option (Variable φ)) : Prop :=
  ∀ v f, o = some v → v.field = some f → ∃ w g, o' = some w ∧ w.field = some g ∧ f.Descends g

theorem KeepsField.refl (o : Option (Variable φ)) : KeepsField o o :=
  fun v f hv hf => ⟨v, f, hv, hf, .same⟩

theorem KeepsField.trans {o p q : Option (Variable φ)} (hop : KeepsField o p)
    (hpq : KeepsField p q) : KeepsField o q := by
  intro v f hv hf
  obtain ⟨w, g, hw, hg, hfg⟩ := hop v f hv hf
  obtain ⟨u, k, hu, hk, hgk⟩ := hpq w g hw hg
  exact ⟨u, k, hu, hk, hfg.trans hgk⟩

/-- Whether there is a rendered variable. -/
def rendered? (o : Option (Variable φ)) : Bool := o.any Variable.rendered

namespace Variable.Takes

variable {v w : Variable φ} {x : Json} {r : Except Issue (Option Command)}

theorem keepsField (ht : v.Takes x (w, r)) : KeepsField (some v) (some w) := by
  intro u f hu hf
  obtain rfl := Option.some.inj hu
  cases ht with
  | kept hnone =>
    rw [hnone] at hf
    cases hf
  | shown hv hp | refused hv hp =>
    rw [hv] at hf
    obtain rfl := Option.some.inj hf
    exact ⟨_, _, rfl, rfl, Field.descends_present hp⟩

theorem orderly (ht : v.Takes x (w, r)) :
    Orderly v.handle v.rendered (Outcomes.told r) w.rendered := by
  cases ht with
  | kept => exact .nil _
  | @shown f f' hv _ =>
    have hr : v.rendered = true := by rw [rendered, hv]; rfl
    rw [hr]
    exact .showing (FieldKind.text f') (.nil true)
  | refused hv _ =>
    have hr : v.rendered = true := by rw [rendered, hv]; rfl
    rw [hr]
    exact .nil true

end Variable.Takes

namespace Descriptor

variable {c : Catalog φ} {d : Descriptor} {o o' : Option (Variable φ)} {w : Variable φ}
  {r : Except Issue (Option Command)}

omit [FieldKind φ] in
theorem Readies.unrendered (hw : d.Readies o w) : rendered? o = false ∧ w.rendered = false := by
  cases hw with
  | created hc =>
    unfold Variable.create at hc
    split at hc
    · cases hc
    · cases hc
      exact ⟨rfl, rfl⟩
  | overwritten hv =>
    constructor
    · simp [rendered?, Variable.rendered, hv]
    · simp [Variable.rendered, Variable.overwrite, hv]

theorem Ends.keepsField (he : d.Ends c o (o', r)) : KeepsField o o' := by
  cases he with
  | incomplete | retyped => exact .refl _
  | unclaimed hw _ | rendered hw _ =>
    -- there was no field before
    intro v f hv hf
    have hnone := hw.unrendered.1
    simp [rendered?, hv, Variable.rendered, hf] at hnone
  | silent =>
    intro v f hv hf
    obtain rfl := Option.some.inj hv
    exact ⟨_, f, rfl, hf, .same⟩
  | @valued v _ _ _ _ _ _ ht =>
    intro u f hu hf
    obtain rfl := Option.some.inj hu
    exact ht.keepsField _ f rfl hf

theorem Ends.orderly (he : d.Ends c o (o', r)) (ho : ∀ v ∈ o, v.handle = d.handle) :
    Orderly d.handle (rendered? o) (Outcomes.told r) (rendered? o') := by
  cases he with
  | incomplete | retyped | silent => exact .nil _
  | unclaimed hw _ =>
    have hsome : ∀ w : Variable φ, rendered? (some w) = w.rendered := fun _ => rfl
    rw [hw.unrendered.1, hsome, hw.unrendered.2]
    exact .nil false
  | @rendered _ w f hw _ =>
    rw [hw.unrendered.1]
    exact .rendering _ (hw.handle_eq ho) (.nil true)
  | @valued v _ _ _ _ _ _ ht =>
    rw [← ho v rfl]
    exact ht.orderly

end Descriptor

namespace Assignment.Ends

variable {e : Assignment} {o o' : Option (Variable φ)} {r : Except Issue (Option Command)}

theorem keepsField (he : e.Ends o (o', r)) : KeepsField o o' := by
  cases he with
  | unknown => exact .refl _
  | valued ht => exact ht.keepsField

theorem orderly (he : e.Ends o (o', r)) (ho : ∀ v ∈ o, v.handle = e.handle) :
    Orderly e.handle (rendered? o) (Outcomes.told r) (rendered? o') := by
  cases he with
  | unknown => exact .nil _
  | @valued v _ _ ht =>
    rw [← ho v rfl]
    exact ht.orderly

end Assignment.Ends

namespace Store

theorem Restores.descends {f g : Field φ} {value : Option Json} {told : Option String}
    (hr : Restores f value g told) : f.Descends g := by
  cases hr with
  | nothing => exact .same
  | shown hp | refused hp => exact Field.descends_present hp

namespace EditEnds

variable {h : Handle} {text : String} {o o' : Option (Variable φ)} {r : Except Refusal Update}

theorem keepsField (he : EditEnds h text o (o', r)) : KeepsField o o' := by
  cases he with
  | unknown | unrendered => exact .refl _
  | accepted hv _ =>
    intro u f hu hf
    obtain rfl := Option.some.inj hu
    rw [hv] at hf
    obtain rfl := Option.some.inj hf
    exact ⟨_, _, rfl, rfl, Field.Descends.same.entered text⟩
  | refused hv _ hg =>
    intro u f hu hf
    obtain rfl := Option.some.inj hu
    rw [hv] at hf
    obtain rfl := Option.some.inj hf
    exact ⟨_, _, rfl, rfl, (Field.Descends.same.entered text).trans hg.descends⟩

theorem orderly (he : EditEnds h text o (o', r)) :
    Orderly h (rendered? o) (undone r) (rendered? o') := by
  cases he with
  | unknown | unrendered => exact .nil _
  | @accepted v _ _ hv _ =>
    have hr : rendered? (some v) = true := by simp [rendered?, Variable.rendered, hv]
    rw [hr]
    exact .nil true
  | @refused v _ _ _ told hv _ _ =>
    have hr : rendered? (some v) = true := by simp [rendered?, Variable.rendered, hv]
    rw [hr]
    cases told with
    | none => exact .nil true
    | some shown => exact .showing shown (.nil true)

end EditEnds
end Store

namespace Arrival

theorem Served.keepsField {h : Handle} {o o' : Option (Variable φ)} {cs : List Command}
    (hs : Served h o (o', cs)) : KeepsField o o' := by
  cases hs with
  | hello _ he | refresh _ he | edit he => exact he.keepsField

theorem Served.orderly {h : Handle} {o o' : Option (Variable φ)} {cs : List Command}
    (hs : Served h o (o', cs)) (ho : ∀ v ∈ o, v.handle = h) :
    Orderly h (rendered? o) cs (rendered? o') := by
  cases hs with
  | hello hh he => exact hh ▸ he.orderly (hh ▸ ho)
  | refresh hh he => exact hh ▸ he.orderly (hh ▸ ho)
  | edit he => exact he.orderly

theorem keepsField_act (a : Arrival φ) (h : Handle) (o : Option (Variable φ)) :
    KeepsField o (a.act h o) := by
  rw [act_eq]
  split
  · rename_i ha
    exact (served ha o).keepsField
  · exact .refl o

end Arrival

namespace Descriptor

variable {c : Catalog φ} {d : Descriptor} {v : Variable φ} {o : Option (Variable φ)}
  {r : Except Issue (Option Command)}

omit [FieldKind φ] in
theorem isSome_make?_overwrite (c : Catalog φ) (d : Descriptor) (v : Variable φ) :
    (c.make? (v.overwrite d).datatype (v.overwrite d).options).isSome =
      c.contains (d.datatype.getD v.datatype) := c.isSome_make? _ _

/-- An unrendered variable is rendered if there is a field for the datatype it is left with. -/
theorem Ends.render_told (he : d.Ends c (some v) (o, r)) (hv : v.field = none)
    (hc : c.contains (d.datatype.getD v.datatype) = true) :
    rendered? o = true ∧ ∃ f, Outcomes.told r = [.render ((v.overwrite d).view f)] := by
  have hnot : v.rendered ≠ true := by simp [Variable.rendered, hv]
  cases he with
  | retyped hr | silent hr | valued hr => exact absurd hr hnot
  | unclaimed hw hm =>
    cases hw with
    | overwritten =>
      have hsome := isSome_make?_overwrite c d v
      rw [hm, hc] at hsome
      cases hsome
  | rendered hw hm =>
    cases hw with
    | overwritten => exact ⟨rfl, _, rfl⟩

/-- Otherwise it stays unrendered, and nothing is told. -/
theorem Ends.nothing_told (he : d.Ends c (some v) (o, r)) (hv : v.field = none)
    (hc : c.contains (d.datatype.getD v.datatype) = false) :
    Outcomes.told r = [] ∧ ∃ w, o = some w ∧ w.field = none := by
  have hnot : v.rendered ≠ true := by simp [Variable.rendered, hv]
  cases he with
  | retyped hr | silent hr | valued hr => exact absurd hr hnot
  | unclaimed hw hm =>
    cases hw with
    | overwritten => exact ⟨rfl, _, rfl, hv⟩
  | rendered hw hm =>
    cases hw with
    | overwritten =>
      have hsome := isSome_make?_overwrite c d v
      rw [hm, hc] at hsome
      cases hsome

end Descriptor

namespace Arrival

/-- Whether an arrival gets a stored variable rendered: it is a descriptor for it, and there is a
field for the datatype that the variable then has. -/
def Offers (h : Handle) (v : Variable φ) (a : Arrival φ) : Prop :=
  ∃ c entry d, a = .hello c entry ∧ Descriptor.ofJson entry = .ok d ∧ d.handle = h ∧
    c.contains (d.datatype.getD v.datatype) = true

variable {h : Handle} {v : Variable φ}

omit [FieldKind φ] in
theorem Offers.target?_eq {a : Arrival φ} (ha : a.Offers h v) : a.target? = some h := by
  obtain ⟨c, entry, d, rfl, hd, hh, -⟩ := ha
  rw [target?, Descriptor.target?_of_ok hd, hh]

theorem Offers.serve {a : Arrival φ} (ha : a.Offers h v) (hv : v.field = none) :
    rendered? (a.serve (some v)).1 = true ∧
      ∃ view : View, view.handle = v.handle ∧ (a.serve (some v)).2 = [.render view] := by
  obtain ⟨c, entry, d, rfl, hd, -, hc⟩ := ha
  obtain ⟨hr, f, ht⟩ := (d.ends_step c (some v)).render_told hv hc
  simp only [Arrival.serve, hd]
  exact ⟨hr, (v.overwrite d).view f, rfl, ht⟩

/-- Whatever offers no field leaves the variable waiting. -/
theorem serve_of_not_offers {a : Arrival φ} (ht : a.target? = some h) (ha : ¬ a.Offers h v)
    (hv : v.field = none) :
    (a.serve (some v)).2 = [] ∧ ∃ w, (a.serve (some v)).1 = some w ∧ w.field = none := by
  cases a with
  | hello c entry =>
    cases hd : Descriptor.ofJson entry with
    | error e => simp [target?, Descriptor.target?_of_error hd] at ht
    | ok d =>
      have hh : d.handle = h := by simpa [target?, Descriptor.target?_of_ok hd] using ht
      have hc : c.contains (d.datatype.getD v.datatype) = false := by
        rw [← Bool.not_eq_true]
        exact fun hc => ha ⟨c, entry, d, rfl, hd, hh, hc⟩
      simp only [Arrival.serve, hd]
      exact (d.ends_step c (some v)).nothing_told hv hc
  | refresh entry =>
    cases he : Assignment.ofJson entry with
    | error e => simp [target?, Assignment.target?_of_error he] at ht
    | ok e =>
      have hkept : v.refresh e.value = ({ v with value := some e.value }, .ok none) := by
        simp only [Variable.refresh, Variable.accept, hv]
        rfl
      simp only [Arrival.serve, he, Assignment.step, hkept]
      exact ⟨rfl, _, rfl, hv⟩
  | edit key text =>
    simp only [target?] at ht
    simp only [Arrival.serve, ht, Store.editStep_unrendered h text hv]
    exact ⟨rfl, v, rfl, hv⟩

end Arrival

namespace Store

/-- Whether a variable is stored and rendered. -/
def renders (s : Store φ) (h : Handle) : Bool := rendered? (s.find? h)

omit [FieldKind φ] in
theorem renders_iff (s : Store φ) (h : Handle) :
    s.renders h = true ↔ ∃ v, s.find? h = some v ∧ v.rendered = true := by
  simp [renders, rendered?, Option.any_eq_true]

/-- A reply keeps to the order of every variable. -/
theorem orderly_reply {s : Store φ} (hs : s.Keyed) (a : Arrival φ) (h : Handle) :
    Orderly h (s.renders h) (s.reply a) ((s.arrive a).renders h) := by
  apply Orderly.of_filter
  rw [filter_reply hs, renders, renders, find?_arrive, Arrival.act_eq]
  by_cases ha : a.target? = some h
  · rw [if_pos ha, if_pos ha]
    exact (Arrival.served ha (s.find? h)).orderly (hs h)
  · rw [if_neg ha, if_neg ha]
    exact .nil _

theorem orderly_replies {s : Store φ} (hs : s.Keyed) (as : List (Arrival φ)) (h : Handle) :
    Orderly h (s.renders h) (s.replies as) ((as.foldl arrive s).renders h) := by
  induction as generalizing s with
  | nil => exact .nil _
  | cons a as ih => exact (orderly_reply hs a h).append (ih (hs.arrive a))

/-- A variable keeps the field it has, whatever arrives. -/
theorem keeps_field (s : Store φ) (as : List (Arrival φ)) (h : Handle) :
    KeepsField (s.find? h) ((as.foldl arrive s).find? h) := by
  induction as generalizing s with
  | nil => exact .refl _
  | cons a as ih =>
    have hfirst : KeepsField (s.find? h) ((s.arrive a).find? h) := by
      rw [find?_arrive]
      exact a.keepsField_act h _
    exact hfirst.trans (ih (s.arrive a))

variable {s : Store φ} {h : Handle} {v : Variable φ} {a : Arrival φ}

/-- The arrival that offers a field is answered with the `render` that was due. -/
theorem reply_of_offers (hs : s.Keyed) (hv : s.find? h = some v) (hf : v.field = none)
    (ha : a.Offers h v) :
    (s.arrive a).renders h = true ∧
      ∃ view : View, view.handle = h ∧ s.reply a = [.render view] := by
  obtain ⟨hr, view, hview, htold⟩ := ha.serve hf
  constructor
  · rw [renders, find?_arrive, Arrival.act_eq, if_pos ha.target?_eq, hv]
    exact hr
  · refine ⟨view, hview.trans (hs h v hv), ?_⟩
    rw [reply_eq, ha.target?_eq, Option.elim_some, hv]
    exact htold

theorem reply_of_not_offers (hs : s.Keyed) (hv : s.find? h = some v) (hf : v.field = none)
    (ha : ¬ a.Offers h v) :
    (s.reply a).filter (Command.names h) = [] ∧
      ∃ w, (s.arrive a).find? h = some w ∧ w.field = none := by
  rw [filter_reply hs, find?_arrive, Arrival.act_eq, hv]
  by_cases ht : a.target? = some h
  · rw [if_pos ht, if_pos ht]
    exact Arrival.serve_of_not_offers ht ha hf
  · rw [if_neg ht, if_neg ht]
    exact ⟨rfl, v, rfl, hf⟩

/-- No arrival among some offers a field for the variable as it then is. -/
def NoneOffers (h : Handle) (s : Store φ) : List (Arrival φ) → Prop
  | [] => True
  | a :: as => (∀ v ∈ s.find? h, ¬ a.Offers h v) ∧ NoneOffers h (s.arrive a) as

/-- Until an arrival offers a field the variable waits, and nothing is told of it. -/
theorem replies_of_noneOffers (hs : s.Keyed) (hv : s.find? h = some v) (hf : v.field = none)
    {as : List (Arrival φ)} (has : NoneOffers h s as) :
    (s.replies as).filter (Command.names h) = [] ∧
      ∃ w, (as.foldl arrive s).find? h = some w ∧ w.field = none := by
  induction as generalizing s v with
  | nil => exact ⟨rfl, v, hv, hf⟩
  | cons a as ih =>
    obtain ⟨hfirst, w, hw, hwf⟩ := reply_of_not_offers hs hv hf (has.1 v hv)
    obtain ⟨hrest, hend⟩ := ih (hs.arrive a) hw hwf has.2
    refine ⟨?_, hend⟩
    rw [replies, List.filter_append, hfirst, hrest]
    rfl

end Store
end LivePanel
