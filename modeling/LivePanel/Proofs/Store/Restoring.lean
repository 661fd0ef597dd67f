import LivePanel.Proofs.Store.Failures

/-!
# Edits taken back

An edit that cannot be read is taken back by showing the stored value again. If the field shows that
value at all, its text is the one that was presented last. Main statements: `restores_of_refused` and
`remembers_foldl_arrive`.
-/
namespace LivePanel

variable {φ : Type} [FieldKind φ]

/-- The text that an edit of a rendered variable can be taken back to. -/
def Variable.fallback? (v : Variable φ) : Option String :=
  v.field.bind fun f => v.value.bind (shown? f)

theorem Variable.fallback?_eq {v : Variable φ} {f : Field φ} (hf : v.field = some f) :
    v.fallback? = v.value.bind (shown? f) := by rw [fallback?, hf, Option.bind_some]

/-- As a field goes on the text to go back to stays. -/
theorem Variable.fallback?_of_descends (plain : Plain φ) {v w : Variable φ} {f g : Field φ}
    (hf : v.field = some f) (hg : w.field = some g) (hfg : f.Descends g)
    (hvalue : w.value = v.value) : w.fallback? = v.fallback? := by
  rw [fallback?_eq hf, fallback?_eq hg, hvalue]
  congr 1
  funext x
  exact plain.shown?_of_descends hfg x

/-- An edit that the field cannot read is taken back where there is a text to go back to. Otherwise
what was typed stays. -/
theorem Store.EditEnds.restores_of_refused (steady : Steady φ) (plain : Plain φ) {h : Handle}
    {text : String} {v : Variable φ} {o' : Option (Variable φ)} {r : Except Refusal Update}
    (he : EditEnds h text (some v) (o', r)) {f : Field φ} {e : FieldFault} (hf : v.field = some f)
    (hx : FieldKind.value (FieldKind.enter f text) = .error e) :
    r = .error ⟨.field v.handle e, v.fallback?.map (.show h)⟩ ∧
      o'.bind Variable.text? =
        some (v.fallback?.getD (FieldKind.text (FieldKind.enter f text))) := by
  cases he with
  | unrendered hnone =>
    rw [hf] at hnone
    cases hnone
  | accepted hf' hx' =>
    obtain rfl := Option.some.inj (hf.symm.trans hf')
    rw [hx] at hx'
    cases hx'
  | refused hf' hx' hg =>
    obtain rfl := Option.some.inj (hf.symm.trans hf')
    rw [hx] at hx'
    cases hx'
    rw [Variable.fallback?_eq hf]
    generalize v.value = value at hg ⊢
    cases hg with
    | nothing => exact ⟨rfl, rfl⟩
    | @shown _ x hp =>
      have hshown := plain.field.enter f text x
      rw [shown?_of_accepted hp] at hshown
      rw [Option.bind_some, ← hshown]
      exact ⟨rfl, rfl⟩
    | @refused _ x _ hp =>
      have hshown := plain.field.enter f text x
      rw [shown?_of_refused hp] at hshown
      have htext := (Field.survives_of_refused steady hp).text
      rw [Option.bind_some, ← hshown]
      exact ⟨rfl, congrArg some htext⟩

/-- Whether the text to go back to, if there is one, is the text that was presented last. -/
def Remembers (o : Option (Variable φ)) (last : Option String) : Prop :=
  ∀ text, o.bind Variable.fallback? = some text → last = some text

theorem remembers_of_unrendered {v : Variable φ} (hv : v.field = none) (last : Option String) :
    Remembers (some v) last := by
  intro text ht
  simp [Variable.fallback?, hv] at ht

theorem Remembers.of_descends (plain : Plain φ) {v w : Variable φ} {f g : Field φ}
    {last : Option String} (hv : Remembers (some v) last) (hf : v.field = some f)
    (hg : w.field = some g) (hfg : f.Descends g) (hvalue : w.value = v.value) :
    Remembers (some w) last := by
  intro text ht
  rw [Option.bind_some, Variable.fallback?_of_descends plain hf hg hfg hvalue] at ht
  exact hv text ht

/-- A value that a field has just accepted is shown by the text that it then has. -/
theorem remembers_of_accepted (plain : Plain φ) {v : Variable φ} {f g : Field φ} {x : Json}
    (hp : FieldKind.present f x = (g, .ok ())) (hg : v.field = some g) (hvalue : v.value = some x) :
    Remembers (some v) (some (FieldKind.text g)) := by
  intro text ht
  have hshown := plain.shown?_of_descends (Field.descends_present hp) x
  rw [shown?_of_accepted hp] at hshown
  rwa [Option.bind_some, Variable.fallback?_eq hg, hvalue, Option.bind_some, hshown] at ht

/-- A variable is rendered with the text to go back to, if it has one. -/
theorem remembers_of_rendered (plain : Plain φ) (v : Variable φ) (f : Field φ) :
    Remembers (some { v with field := some (Variable.showing f v.value) })
      (some (FieldKind.text (Variable.showing f v.value))) := by
  cases hvalue : v.value with
  | none =>
    intro text ht
    simp [Variable.fallback?] at ht
  | some x =>
    rcases hp : FieldKind.present f x with ⟨g, e | _⟩
    · -- the field shows no text for a value that it refuses
      intro text ht
      have hshown := plain.shown?_of_descends (Field.descends_present hp) x
      rw [shown?_of_refused hp] at hshown
      simp [Variable.fallback?, Variable.showing, hp, hshown] at ht
    · simp only [Variable.showing, hp]
      exact remembers_of_accepted plain hp rfl rfl

theorem Variable.Takes.remembers (plain : Plain φ) {v w : Variable φ} {x : Json}
    {r : Except Issue (Option Command)} {last : Option String} (ht : v.Takes x (w, r))
    (hv : Remembers (some v) last) :
    Remembers (some w) ((texts v.handle (Outcomes.told r)).getLast?.or last) := by
  cases ht with
  | kept hnone => exact remembers_of_unrendered (by exact hnone) _
  | @shown _ g hf hp =>
    have hlast : Remembers (some { v with value := some x, field := some g })
        (some (FieldKind.text g)) := remembers_of_accepted plain hp rfl rfl
    simpa [Outcomes.told] using hlast
  | refused hf hp => exact hv.of_descends plain hf rfl (Field.descends_present hp) rfl

theorem Descriptor.Ends.remembers (plain : Plain φ) {c : Catalog φ} {d : Descriptor}
    {o o' : Option (Variable φ)} {r : Except Issue (Option Command)} {last : Option String}
    (he : d.Ends c o (o', r)) (ho : ∀ v ∈ o, v.handle = d.handle) (hr : Remembers o last) :
    Remembers o' ((texts d.handle (Outcomes.told r)).getLast?.or last) := by
  cases he with
  | incomplete | retyped => exact hr
  | unclaimed hw _ =>
    have hnone := hw.unrendered.2
    exact remembers_of_unrendered (by simpa [Variable.rendered] using hnone) _
  | @rendered _ w f hw _ =>
    have htexts : texts w.handle
        (Outcomes.told (.ok (some (.render (w.view (Variable.showing f w.value)))))) =
        [FieldKind.text (Variable.showing f w.value)] := texts_render (w.view _)
    rw [← hw.handle_eq ho, htexts]
    exact remembers_of_rendered plain w f
  | silent => exact hr
  | @valued v _ _ _ _ _ _ ht =>
    have hamended : Remembers (some (v.amended d)) last := hr
    rw [← ho v rfl]
    exact ht.remembers plain hamended

theorem Assignment.Ends.remembers (plain : Plain φ) {e : Assignment} {o o' : Option (Variable φ)}
    {r : Except Issue (Option Command)} {last : Option String} (he : e.Ends o (o', r))
    (ho : ∀ v ∈ o, v.handle = e.handle) (hr : Remembers o last) :
    Remembers o' ((texts e.handle (Outcomes.told r)).getLast?.or last) := by
  cases he with
  | unknown => exact hr
  | @valued v _ _ ht =>
    rw [← ho v rfl]
    exact ht.remembers plain hr

theorem Store.EditEnds.remembers (plain : Plain φ) {h : Handle} {text : String}
    {o o' : Option (Variable φ)} {r : Except Refusal Update} {last : Option String}
    (he : EditEnds h text o (o', r)) (hr : Remembers o last) :
    Remembers o' ((texts h (undone r)).getLast?.or last) := by
  cases he with
  | unknown | unrendered => exact hr
  | accepted hf _ => exact hr.of_descends plain hf rfl (Field.Descends.same.entered text) rfl
  | @refused v f g _ told hf _ hg =>
    have hfield := (Field.Descends.same.entered (f := f) text).trans hg.descends
    generalize hvalue : v.value = value at hg
    cases hg with
    | nothing | refused => exact hr.of_descends plain hf rfl hfield hvalue.symm
    | @shown _ x hp =>
      have hlast : Remembers (some { v with value := some x, field := some g })
          (some (FieldKind.text g)) := remembers_of_accepted plain hp rfl rfl
      simpa [undone] using hlast

theorem Arrival.Served.remembers (plain : Plain φ) {h : Handle} {o o' : Option (Variable φ)}
    {cs : List Command} {last : Option String} (hs : Served h o (o', cs))
    (ho : ∀ v ∈ o, v.handle = h) (hr : Remembers o last) :
    Remembers o' ((texts h cs).getLast?.or last) := by
  cases hs with
  | hello hh he =>
    subst hh
    exact he.remembers plain ho hr
  | refresh hh he =>
    subst hh
    exact he.remembers plain ho hr
  | edit he => exact he.remembers plain hr

namespace Store

/-- The texts of a variable that answer an arrival are told of it as it is served. -/
theorem texts_reply {s : Store φ} (hs : s.Keyed) (a : Arrival φ) (h : Handle) :
    texts h (s.reply a) = texts h (if a.target? = some h then (a.serve (s.find? h)).2 else []) := by
  rw [← filter_reply hs, texts_filter]
  intro c text ht
  have hhandle := Command.handle?_of_presents? (Command.text?_eq_some_iff.1 ht)
  simp [Command.names, hhandle]

theorem remembers_arrive (plain : Plain φ) {s : Store φ} (hs : s.Keyed) (a : Arrival φ) {h : Handle}
    {last : Option String} (hr : Remembers (s.find? h) last) :
    Remembers ((s.arrive a).find? h) ((texts h (s.reply a)).getLast?.or last) := by
  rw [texts_reply hs, find?_arrive, Arrival.act_eq]
  by_cases ha : a.target? = some h
  · rw [if_pos ha, if_pos ha]
    exact (Arrival.served ha (s.find? h)).remembers plain (hs h) hr
  · rw [if_neg ha, if_neg ha]
    exact hr

/-- Whatever arrives, the text to go back to is the one presented last. -/
theorem remembers_foldl_arrive (plain : Plain φ) {s : Store φ} (hs : s.Keyed) {h : Handle}
    {last : Option String} (hr : Remembers (s.find? h) last) (as : List (Arrival φ)) :
    Remembers ((as.foldl arrive s).find? h) ((texts h (s.replies as)).getLast?.or last) := by
  induction as generalizing s last with
  | nil => exact hr
  | cons a as ih =>
    have hrest := ih (hs.arrive a) (remembers_arrive plain hs a hr)
    rwa [List.foldl_cons, replies, texts_append, List.getLast?_append, Option.or_assoc]

end Store
end LivePanel
