import LivePanel.Proofs.Store.Record
import LivePanel.Proofs.Store.Restoring

/-!
# Values that are accepted

Once a variable is rendered, a value takes the place of the stored one only if the field accepts it,
and then it is shown. What is stored before that is not judged: the field may refuse it, and it stays
all the same. Main statements: `settles_foldl_arrive` and `exists_rendering`.
-/
namespace LivePanel

variable {φ : Type} [FieldKind φ]

theorem Field.accepts_eq (f : Field φ) (x : Json) : f.accepts x = (shown? f x).isSome := by
  rcases hp : FieldKind.present f x with ⟨g, e | _⟩
  · rw [shown?_of_refused hp, Variable.not_accepts_of_present hp]
    rfl
  · rw [shown?_of_accepted hp, Variable.accepts_of_present hp]
    rfl

/-- Whether a field is what became of one that accepted a value. -/
def Field.Accepted (f : Field φ) (x : Json) : Prop :=
  ∃ g g' : Field φ, FieldKind.present g x = (g', .ok ()) ∧ g'.Descends f

theorem Field.Accepted.accepts {f : Field φ} {x : Json} (ha : f.Accepted x) (hf : f.Impartial) :
    f.accepts x = true := by
  obtain ⟨g, g', hp, hd⟩ := ha
  have hg' : g'.Impartial := hd.impartial_iff.1 hf
  have hg : g.Impartial := (Field.descends_present hp).impartial_iff.1 hg'
  rw [Field.accepts_eq, hg'.of_descends hd, hg.of_descends (Field.descends_present hp),
    shown?_of_accepted hp]
  rfl

/-- What becomes of a rendered variable, by what is told of it. -/
inductive Settles (h : Handle) (value : Option Json) (f : Field φ) :
    Option (Variable φ) → List Command → Prop where
  /-- Nothing is told, and the value is as it was. -/
  | kept {w : Variable φ} {g : Field φ} {cs : List Command} : texts h cs = [] → w.value = value →
      w.field = some g → f.Descends g → Settles h value f (some w) cs
  /-- A value is told of that the field has accepted. -/
  | shown {w : Variable φ} {g : Field φ} {x : Json} {cs : List Command} : texts h cs ≠ [] →
      w.value = some x → w.field = some g → g.Accepted x → Settles h value f (some w) cs

namespace Settles

variable {h : Handle} {value : Option Json} {f g : Field φ} {o : Option (Variable φ)}
  {cs ds : List Command}

/-- What is told first matters only if nothing is told after it. -/
theorem trans {w : Variable φ} (hfirst : Settles h value f (some w) cs) (hg : w.field = some g)
    (hrest : Settles h w.value g o ds) : Settles h value f o (cs ++ ds) := by
  cases hrest with
  | shown htold hvalue hfield haccepted =>
    exact .shown (by simp [htold]) hvalue hfield haccepted
  | kept hsilent hvalue hfield hd =>
    cases hfirst with
    | kept hsilent' hvalue' hfield' hd' =>
      obtain rfl := Option.some.inj (hg.symm.trans hfield')
      refine .kept ?_ (hvalue.trans hvalue') hfield (hd'.trans hd)
      rw [texts_append, hsilent, hsilent']
      rfl
    | shown htold hvalue' hfield' haccepted =>
      obtain rfl := Option.some.inj (hg.symm.trans hfield')
      obtain ⟨k, k', hp, hk⟩ := haccepted
      exact .shown (by simp [htold]) (hvalue.trans hvalue') hfield ⟨k, k', hp, hk.trans hd⟩

theorem of_texts (hs : Settles h value f o cs) (hd : texts h ds = texts h cs) :
    Settles h value f o ds := by
  cases hs with
  | kept hsilent hvalue hfield hdescends =>
    exact .kept (hd.trans hsilent) hvalue hfield hdescends
  | shown htold hvalue hfield haccepted => exact .shown (hd ▸ htold) hvalue hfield haccepted

end Settles

theorem Variable.Takes.settles {v w : Variable φ} {x : Json} {r : Except Issue (Option Command)}
    (ht : v.Takes x (w, r)) {f : Field φ} (hf : v.field = some f) :
    Settles v.handle v.value f (some w) (Outcomes.told r) := by
  cases ht with
  | kept hnone =>
    rw [hf] at hnone
    cases hnone
  | shown _ hp => exact .shown (by simp [Outcomes.told]) rfl rfl ⟨_, _, hp, .same⟩
  | refused hf' hp =>
    obtain rfl := Option.some.inj (hf.symm.trans hf')
    exact .kept rfl rfl rfl (Field.descends_present hp)

theorem Descriptor.Ends.settles {c : Catalog φ} {d : Descriptor} {v : Variable φ}
    {o : Option (Variable φ)} {r : Except Issue (Option Command)} (he : d.Ends c (some v) (o, r))
    {f : Field φ} (hf : v.field = some f) : Settles v.handle v.value f o (Outcomes.told r) := by
  cases he with
  | unclaimed hw | rendered hw =>
    have hnone := hw.unrendered.1
    simp [rendered?, Variable.rendered, hf] at hnone
  | retyped => exact .kept rfl rfl hf .same
  | silent => exact .kept rfl rfl hf .same
  | valued _ _ _ ht => exact ht.settles hf

theorem Assignment.Ends.settles {e : Assignment} {v : Variable φ} {o : Option (Variable φ)}
    {r : Except Issue (Option Command)} (he : e.Ends (some v) (o, r)) {f : Field φ}
    (hf : v.field = some f) : Settles v.handle v.value f o (Outcomes.told r) := by
  cases he with
  | valued ht => exact ht.settles hf

theorem Store.EditEnds.settles {h : Handle} {text : String} {v : Variable φ}
    {o : Option (Variable φ)} {r : Except Refusal Update} (he : EditEnds h text (some v) (o, r))
    {f : Field φ} (hf : v.field = some f) : Settles h v.value f o (undone r) := by
  cases he with
  | unrendered hnone =>
    rw [hf] at hnone
    cases hnone
  | accepted hf' =>
    obtain rfl := Option.some.inj (hf.symm.trans hf')
    exact .kept rfl rfl rfl (Field.Descends.same.entered text)
  | @refused v f' g e told hf' _ hg =>
    obtain rfl := Option.some.inj (hf.symm.trans hf')
    have hd := (Field.Descends.same.entered (f := f) text).trans hg.descends
    generalize v.value = value at hg ⊢
    cases hg with
    | nothing | refused => exact .kept rfl rfl rfl hd
    | shown hp => exact .shown (by simp [undone]) rfl rfl ⟨_, _, hp, .same⟩

theorem Arrival.Served.settles {h : Handle} {v : Variable φ} {o : Option (Variable φ)}
    {cs : List Command} (hs : Served h (some v) (o, cs)) (hv : v.handle = h) {f : Field φ}
    (hf : v.field = some f) : Settles h v.value f o cs := by
  subst hv
  cases hs with
  | hello _ he | refresh _ he | edit he => exact he.settles hf

namespace Store

theorem settles_arrive {s : Store φ} (hs : s.Keyed) (a : Arrival φ) {h : Handle} {v : Variable φ}
    {f : Field φ} (hv : s.find? h = some v) (hf : v.field = some f) :
    Settles h v.value f ((s.arrive a).find? h) (s.reply a) := by
  refine Settles.of_texts ?_ (texts_reply hs a h)
  rw [find?_arrive, Arrival.act_eq, hv]
  by_cases ha : a.target? = some h
  · rw [if_pos ha, if_pos ha]
    exact (Arrival.served ha (some v)).settles (hs h v hv) hf
  · rw [if_neg ha, if_neg ha]
    exact .kept rfl rfl hf .same

/-- From then on, what is stored of a rendered variable is what was shown last, or else what was there
before. -/
theorem settles_foldl_arrive {s : Store φ} (hs : s.Keyed) (as : List (Arrival φ)) {h : Handle}
    {v : Variable φ} {f : Field φ} (hv : s.find? h = some v) (hf : v.field = some f) :
    Settles h v.value f ((as.foldl arrive s).find? h) (s.replies as) := by
  induction as generalizing s v f with
  | nil => exact hv ▸ .kept rfl rfl hf .same
  | cons a as ih =>
    have hfirst := settles_arrive hs a hv hf
    have hkeyed := hs.arrive a
    generalize hnext : (s.arrive a).find? h = o at hfirst
    cases hfirst with
    | kept hsilent hvalue hfield hd =>
      exact (Settles.kept hsilent hvalue hfield hd).trans hfield (ih hkeyed hnext hfield)
    | shown htold hvalue hfield haccepted =>
      exact (Settles.shown htold hvalue hfield haccepted).trans hfield (ih hkeyed hnext hfield)

/-- How a variable comes to be rendered: a descriptor brings it to a datatype that has a field, which
shows the value so far if it accepts it. -/
structure Renders (s : Store φ) (h : Handle) (c : Catalog φ) (entry : Json) (w : Variable φ)
    (f : Field φ) : Prop where
  unrendered : s.renders h = false
  made : c.make? w.datatype w.options = some f
  told : s.reply (.hello c entry) = [.render (w.view (Variable.showing f w.value))]
  stored : (s.arrive (.hello c entry)).find? h =
    some { w with field := some (Variable.showing f w.value) }

end Store

theorem Descriptor.Ends.renders_inv {c : Catalog φ} {d : Descriptor} {o o' : Option (Variable φ)}
    {r : Except Issue (Option Command)} (he : d.Ends c o (o', r)) (ho : rendered? o = false)
    (ho' : rendered? o' = true) :
    ∃ (w : Variable φ) (f : Field φ), c.make? w.datatype w.options = some f ∧
      r = .ok (some (.render (w.view (Variable.showing f w.value)))) ∧
      o' = some { w with field := some (Variable.showing f w.value) } := by
  cases he with
  | incomplete => cases ho'
  | retyped hr | silent hr | valued hr => simp [rendered?, hr] at ho
  | unclaimed hw _ => simp [rendered?, hw.unrendered.2] at ho'
  | rendered hw hm => exact ⟨_, _, hm, rfl, rfl⟩

theorem Variable.Takes.rendered_eq {v w : Variable φ} {x : Json} {r : Except Issue (Option Command)}
    (ht : v.Takes x (w, r)) : w.rendered = v.rendered := by
  cases ht with
  | kept => rfl
  | shown hf | refused hf => simp [rendered, hf]

theorem Assignment.Ends.rendered?_eq {e : Assignment} {o o' : Option (Variable φ)}
    {r : Except Issue (Option Command)} (he : e.Ends o (o', r)) : rendered? o' = rendered? o := by
  cases he with
  | unknown => rfl
  | valued ht => exact ht.rendered_eq

theorem Store.EditEnds.rendered?_eq {h : Handle} {text : String} {o o' : Option (Variable φ)}
    {r : Except Refusal Update} (he : EditEnds h text o (o', r)) : rendered? o' = rendered? o := by
  cases he with
  | unknown | unrendered => rfl
  | accepted hf | refused hf => simp [rendered?, Variable.rendered, hf]

namespace Store

/-- Nothing but a descriptor renders a variable. -/
theorem renders_arrive_inv {s : Store φ} {a : Arrival φ} {h : Handle} (hs : s.renders h = false)
    (ha : (s.arrive a).renders h = true) :
    ∃ c entry w f, a = .hello c entry ∧ s.Renders h c entry w f := by
  have htarget : a.target? = some h := by
    refine Decidable.byContradiction fun hne => ?_
    rw [renders, find?_arrive, Arrival.act_eq, if_neg hne] at ha
    rw [renders, ha] at hs
    cases hs
  cases a with
  | hello c entry =>
    cases hd : Descriptor.ofJson entry with
    | error e =>
      rw [Arrival.target?, Descriptor.target?_of_error hd] at htarget
      cases htarget
    | ok d =>
      obtain rfl : d.handle = h :=
        Option.some.inj ((Descriptor.target?_of_ok hd).symm.trans htarget)
      obtain ⟨w, f, hm, hr, hw⟩ := (s.ends_hello c hd).renders_inv hs ha
      refine ⟨c, entry, w, f, rfl, hs, hm, ?_, hw⟩
      rw [reply, hr]
      rfl
  | refresh entry =>
    cases he : Assignment.ofJson entry with
    | error e =>
      rw [Arrival.target?, Assignment.target?_of_error he] at htarget
      cases htarget
    | ok e =>
      obtain rfl : e.handle = h :=
        Option.some.inj ((Assignment.target?_of_ok he).symm.trans htarget)
      rw [renders, (s.ends_refresh he).rendered?_eq] at ha
      exact absurd (ha.symm.trans hs) (by simp)
  | edit key text =>
    rw [renders, arrive, (s.ends_edit htarget text).rendered?_eq] at ha
    exact absurd (ha.symm.trans hs) (by simp)

/-- A variable that is rendered in the end was rendered at one arrival. -/
theorem exists_rendering {s : Store φ} {h : Handle} (hs : s.renders h = false)
    {as : List (Arrival φ)} (has : (as.foldl arrive s).renders h = true) :
    ∃ before c entry after w f, as = before ++ .hello c entry :: after ∧
      (before.foldl arrive s).Renders h c entry w f := by
  induction as generalizing s with
  | nil =>
    rw [List.foldl_nil, hs] at has
    cases has
  | cons a as ih =>
    cases hfirst : (s.arrive a).renders h with
    | true =>
      obtain ⟨c, entry, w, f, rfl, hrenders⟩ := renders_arrive_inv hs hfirst
      exact ⟨[], c, entry, as, w, f, rfl, hrenders⟩
    | false =>
      obtain ⟨before, c, entry, after, w, f, rfl, hrenders⟩ := ih hfirst has
      exact ⟨a :: before, c, entry, after, w, f, rfl, hrenders⟩

end Store
end LivePanel
