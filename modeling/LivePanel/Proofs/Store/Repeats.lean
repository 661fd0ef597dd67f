import LivePanel.Proofs.Field.Verdicts
import LivePanel.Proofs.Store.Failures
import LivePanel.Proofs.Store.Looks

/-!
# Repeated batches

A batch that is taken a second time, right after the first, finds everything as it would leave it. For
a `refresh` any batch will do, since the values that count are the same both times; for a `hello` every
variable is settled after its descriptor, as long as there is one for each. Main statements:
`refresh_kin`, `Ends.settled`, `Settled.again` and `repeats_harmless`.
-/
namespace LivePanel

variable {φ : Type} [FieldKind φ]

/-! ## Values again -/

/-- What no value changes about a variable: all that it is said to be, and the verdicts of its
field. -/
structure Frame where
  handle : Handle
  /-- The record without its value. -/
  record : Record
  verdict? : Option (Json → Except FieldFault String)

def Variable.frame (v : Variable φ) : Frame :=
  ⟨v.handle, { v.record with value := none }, v.field.map judged⟩

/-- How two variables, or none, go on to two others side by side: to such as look alike, or both to
such as look like before. -/
def Echoes (o p o' p' : Option (Variable φ)) : Prop :=
  p.map Variable.look = p'.map Variable.look ∨
    (p.map Variable.look = o.map Variable.look ∧ p'.map Variable.look = o'.map Variable.look)

theorem Echoes.trans {o p q o' p' q' : Option (Variable φ)} (hfirst : Echoes o p o' p')
    (hrest : Echoes p q p' q') : Echoes o q o' q' := by
  obtain hsame | ⟨hq, hq'⟩ := hrest
  · exact .inl hsame
  · obtain hsame | ⟨hp, hp'⟩ := hfirst
    · exact .inl (hq.trans (hsame.trans hq'.symm))
    · exact .inr ⟨hq.trans hp, hq'.trans hp'⟩

/-- Against what it has become, something that echoes looks as it did. -/
theorem Echoes.look_eq {o p q : Option (Variable φ)} (h : Echoes o p p q) :
    q.map Variable.look = p.map Variable.look := by
  obtain hsame | ⟨-, hq⟩ := h
  · exact hsame.symm
  · exact hq

namespace Variable

theorem look_of_text {v w : Variable φ} (hhandle : w.handle = v.handle)
    (hrecord : w.record = v.record) (htext : w.text? = v.text?) : w.look = v.look := by
  rw [look, look, hhandle, hrecord, htext]

/-- What is judged alike is accepted with one text or refused for one reason. -/
theorem judged_of_frame {v v' : Variable φ} (hframe : v'.frame = v.frame) {f f' : Field φ}
    (hf : v.field = some f) (hf' : v'.field = some f') : judged f' = judged f := by
  have hverdict : v'.field.map judged = v.field.map judged := congrArg Frame.verdict? hframe
  rw [hf, hf', Option.map_some, Option.map_some] at hverdict
  exact Option.some.inj hverdict

theorem field_of_frame {v v' : Variable φ} (hframe : v'.frame = v.frame) :
    v'.field = none ↔ v.field = none := by
  have hverdict : v'.field.map judged = v.field.map judged := congrArg Frame.verdict? hframe
  have hnone := congrArg Option.isNone hverdict
  rwa [Option.isNone_map, Option.isNone_map, Bool.eq_iff_iff, Option.isNone_iff_eq_none,
    Option.isNone_iff_eq_none] at hnone

namespace Takes

variable {v w v' w' : Variable φ} {x : Json} {r r' : Except Issue (Option Command)}

theorem frame_eq (judging : Judging φ) (ht : v.Takes x (w, r)) : w.frame = v.frame := by
  cases ht with
  | kept => rfl
  | shown hf hp | refused hf hp => simp [frame, record, hf, judging.judged_eq hp]

theorem look_of_refused (steady : Steady φ) {f f' : Field φ} {e : FieldFault}
    (hf : v.field = some f) (hp : FieldKind.present f x = (f', .error e)) :
    ({ v with field := some f' } : Variable φ).look = v.look := by
  refine look_of_text rfl rfl ?_
  rw [text?, text?, hf, Option.map_some, Option.map_some, (Field.survives_of_refused steady hp).text]

/-- Variables of one frame take a value alike: with one outcome, and if it is accepted they look alike
afterwards. -/
theorem echoes (steady : Steady φ) (hframe : v'.frame = v.frame) (ht : v.Takes x (w, r))
    (ht' : v'.Takes x (w', r')) :
    r' = r ∧ Echoes (some v) (some w) (some v') (some w') := by
  have hhandle : v'.handle = v.handle := congrArg Frame.handle hframe
  have hrecord : { v'.record with value := some x } = { v.record with value := some x } :=
    congrArg (fun f : Frame => { f.record with value := some x }) hframe
  cases ht with
  | kept hf =>
    cases ht' with
    | kept hf' => exact ⟨rfl, .inl (congrArg some (look_of_text hhandle.symm hrecord.symm (by
        simp only [text?, hf, hf'])))⟩
    | shown hf' | refused hf' =>
      rw [(field_of_frame hframe).2 hf] at hf'
      cases hf'
  | @shown f g hf hp =>
    cases ht' with
    | kept hf' =>
      rw [(field_of_frame hframe).1 hf'] at hf
      cases hf
    | @shown f' g' hf' hp' =>
      have hjudged := congrFun (judged_of_frame hframe hf hf') x
      rw [judged_of_accepted hp, judged_of_accepted hp'] at hjudged
      have htext := Except.ok.inj hjudged
      refine ⟨by rw [hhandle, htext], .inl (congrArg some (look_of_text hhandle.symm hrecord.symm ?_))⟩
      simp only [text?, Option.map_some, htext]
    | @refused f' g' e' hf' hp' =>
      have hjudged := congrFun (judged_of_frame hframe hf hf') x
      rw [judged_of_accepted hp, judged_of_refused hp'] at hjudged
      cases hjudged
  | @refused f g e hf hp =>
    cases ht' with
    | kept hf' =>
      rw [(field_of_frame hframe).1 hf'] at hf
      cases hf
    | @shown f' g' hf' hp' =>
      have hjudged := congrFun (judged_of_frame hframe hf hf') x
      rw [judged_of_refused hp, judged_of_accepted hp'] at hjudged
      cases hjudged
    | @refused f' g' e' hf' hp' =>
      have hjudged := congrFun (judged_of_frame hframe hf hf') x
      rw [judged_of_refused hp, judged_of_refused hp'] at hjudged
      refine ⟨by rw [hhandle, Except.error.inj hjudged], .inr ⟨?_, ?_⟩⟩
      · exact congrArg some (look_of_refused steady hf hp)
      · exact congrArg some (look_of_refused steady hf' hp')

end Takes
end Variable

namespace Assignment.Ends

variable {e : Assignment} {o p o' p' : Option (Variable φ)} {r r' : Except Issue (Option Command)}

theorem frame_eq (judging : Judging φ) (he : e.Ends o (p, r)) :
    p.map Variable.frame = o.map Variable.frame := by
  cases he with
  | unknown => rfl
  | valued ht => exact congrArg some (ht.frame_eq judging)

theorem echoes (steady : Steady φ) (hframe : o'.map Variable.frame = o.map Variable.frame)
    (he : e.Ends o (p, r)) (he' : e.Ends o' (p', r')) : r' = r ∧ Echoes o p o' p' := by
  cases he with
  | unknown =>
    cases he' with
    | unknown => exact ⟨rfl, .inl rfl⟩
    | valued => cases hframe
  | valued ht =>
    cases he' with
    | unknown => cases hframe
    | valued ht' => exact ht.echoes steady (Option.some.inj hframe) ht'

end Assignment.Ends

namespace Store

/-- Stores whose variables have the same frames. -/
def Kin (s t : Store φ) : Prop :=
  ∀ h, (t.find? h).map Variable.frame = (s.find? h).map Variable.frame

/-- An entry for another variable leaves this one alone. -/
theorem find?_refreshEntry_of_ne {s : Store φ} {entry : Json} {h : Handle}
    (hne : Assignment.target? entry ≠ some h) : (s.refreshEntry entry).1.find? h = s.find? h :=
  find?_arrive_of_ne (a := .refresh entry) hne

theorem kin_refreshEntry (judging : Judging φ) (s : Store φ) (entry : Json) :
    s.Kin (s.refreshEntry entry).1 := by
  intro h
  by_cases htarget : Assignment.target? entry = some h
  · cases he : Assignment.ofJson entry with
    | error e =>
      rw [Assignment.target?_of_error he] at htarget
      cases htarget
    | ok e =>
      obtain rfl := Option.some.inj ((Assignment.target?_of_ok he).symm.trans htarget)
      exact (s.ends_refresh he).frame_eq judging
  · rw [find?_refreshEntry_of_ne htarget]

theorem refreshEntry_kin (steady : Steady φ) {s t : Store φ} (hst : s.Kin t) (entry : Json) :
    (t.refreshEntry entry).2 = (s.refreshEntry entry).2 ∧
      ∀ h, Echoes (s.find? h) ((s.refreshEntry entry).1.find? h) (t.find? h)
        ((t.refreshEntry entry).1.find? h) := by
  cases he : Assignment.ofJson entry with
  | error e =>
    have hkept : ∀ u : Store φ, u.refreshEntry entry = (u, .error e) := by
      intro u
      simp only [refreshEntry, he]
    rw [hkept s, hkept t]
    exact ⟨rfl, fun h => .inr ⟨rfl, rfl⟩⟩
  | ok e =>
    obtain ⟨houtcome, hechoes⟩ := (s.ends_refresh he).echoes steady (hst e.handle) (t.ends_refresh he)
    refine ⟨houtcome, fun h => ?_⟩
    by_cases hh : h = e.handle
    · subst hh
      exact hechoes
    · have hne : Assignment.target? entry ≠ some h := by
        rw [Assignment.target?_of_ok he]
        exact fun hsame => hh (Option.some.inj hsame).symm
      rw [find?_refreshEntry_of_ne hne, find?_refreshEntry_of_ne hne]
      exact .inr ⟨rfl, rfl⟩

theorem kin_refresh (judging : Judging φ) (s : Store φ) (entries : List Json) :
    s.Kin (s.refresh entries).1 := by
  induction entries generalizing s with
  | nil => exact fun _ => rfl
  | cons e es ih =>
    exact fun h => (ih (s.refreshEntry e).1 h).trans (s.kin_refreshEntry judging e h)

/-- Stores with the same frames take a batch of values with the same outcomes, and whatever it changes
looks the same in both. -/
theorem refresh_kin (judging : Judging φ) (steady : Steady φ) {s t : Store φ} (hst : s.Kin t)
    (entries : List Json) :
    (t.refresh entries).2 = (s.refresh entries).2 ∧
      ∀ h, Echoes (s.find? h) ((s.refresh entries).1.find? h) (t.find? h)
        ((t.refresh entries).1.find? h) := by
  induction entries generalizing s t with
  | nil => exact ⟨rfl, fun h => .inr ⟨rfl, rfl⟩⟩
  | cons e es ih =>
    obtain ⟨hfirst, hechoes⟩ := refreshEntry_kin steady hst e
    have hnext : (s.refreshEntry e).1.Kin (t.refreshEntry e).1 := by
      intro h
      rw [t.kin_refreshEntry judging e h, s.kin_refreshEntry judging e h, hst h]
    obtain ⟨hrest, hlater⟩ := ih hnext
    have houtcomes : ∀ u : Store φ, (u.refresh (e :: es)).2 =
        (u.refreshEntry e).2 :: ((u.refreshEntry e).1.refresh es).2 := fun _ => rfl
    refine ⟨?_, fun h => (hechoes h).trans (hlater h)⟩
    rw [houtcomes, houtcomes, hfirst, hrest]

end Store

/-! ## Descriptors again -/

/-- What was taken over is not changed by taking it over again. -/
theorem getD_again {α : Type} (o : Option α) (a : α) : o.getD (o.getD a) = o.getD a := by
  cases o <;> rfl

theorem or_again {α : Type} (o p : Option α) : o.or (o.or p) = o.or p := by
  cases o <;> rfl

namespace Variable

omit [FieldKind φ] in
theorem overwrite_again (v : Variable φ) (d : Descriptor) :
    (v.overwrite d).overwrite d = v.overwrite d := by
  simp only [overwrite, getD_again, or_again]

omit [FieldKind φ] in
theorem amended_again (v : Variable φ) (d : Descriptor) (value : Option Json)
    (field : Option (Field φ)) :
    ({ v.amended d with value, field } : Variable φ).amended d =
      { v.amended d with value, field } := by
  simp only [amended, overwrite, getD_again, or_again, Option.none_or]

omit [FieldKind φ] in
/-- A descriptor that was taken over without a conflict is in no conflict afterwards. -/
theorem conflict?_amended {v : Variable φ} {d : Descriptor} (hv : v.rendered = true)
    (hc : v.conflict? d = none) (value : Option Json) (f : Field φ) :
    ({ v.amended d with value, field := some f } : Variable φ).conflict? d = none := by
  have hdatatype := Descriptor.Ends.datatype_amended hv hc
  rw [conflict?, hv] at hc
  rw [conflict?, hdatatype]
  exact hc

end Variable

namespace Descriptor

omit [FieldKind φ] in
theorem Readies.overwrite_eq {d : Descriptor} {o : Option (Variable φ)} {w : Variable φ}
    (hw : d.Readies o w) : w.overwrite d = w := by
  cases hw with
  | created hc =>
    cases hd : d.datatype with
    | none => simp [Variable.create, hd] at hc
    | some t =>
      simp only [Variable.create, hd] at hc
      cases hc
      simp only [Variable.overwrite, hd, getD_again, Option.getD_some, Option.or_self]
  | @overwritten v hf => exact v.overwrite_again d

/-- What a descriptor leaves of a variable so that it has nothing more to do with it. -/
inductive Settled (c : Catalog φ) (d : Descriptor) : Option (Variable φ) → Prop where
  | missing : d.datatype = none → d.Settled c none
  /-- No field presents the datatype. -/
  | waiting {w : Variable φ} : w.field = none → w.overwrite d = w →
      c.make? w.datatype w.options = none → d.Settled c (some w)
  | retyped {v : Variable φ} {t : Datatype} : v.rendered = true → v.conflict? d = some t →
      d.Settled c (some v)
  /-- The value to show is stored and shown, unless the field refuses it. -/
  | shown {v : Variable φ} {f : Field φ} : v.field = some f → v.conflict? d = none →
      v.amended d = v →
      (∀ x text, d.value.or v.value = some x → judged f x = .ok text →
        v.value = some x ∧ FieldKind.text f = text) → d.Settled c (some v)

variable {c : Catalog φ} {d : Descriptor} {o o' : Option (Variable φ)}
  {r : Except Issue (Option Command)}

/-- A value that is shown again does not change what is shown. -/
theorem judged_showing (judging : Judging φ) {f : Field φ} {x : Json} {text : String}
    (ht : judged (Variable.showing f (some x)) x = .ok text) :
    FieldKind.text (Variable.showing f (some x)) = text := by
  rcases hp : FieldKind.present f x with ⟨g, e | _⟩
  · have hg : Variable.showing f (some x) = g := by rw [Variable.showing, hp]
    rw [hg, judging.judged_eq hp, judged_of_refused hp] at ht
    cases ht
  · have hg : Variable.showing f (some x) = g := by rw [Variable.showing, hp]
    rw [hg, judging.judged_eq hp, judged_of_accepted hp] at ht
    rw [hg]
    exact Except.ok.inj ht

theorem Readies.settled (judging : Judging φ) {w : Variable φ} (hw : d.Readies o w) (f : Field φ) :
    d.Settled c (some { w with field := some (Variable.showing f w.value) }) := by
  have hsame := hw.overwrite_eq
  have hdatatype : d.datatype.getD w.datatype = w.datatype := congrArg Variable.datatype hsame
  have hvalue : d.value.or w.value = w.value := congrArg Variable.value hsame
  refine .shown rfl ?conflict ?amended ?value
  case conflict =>
    cases hd : d.datatype with
    | none => simp [Variable.conflict?, hd]
    | some t =>
      rw [hd, Option.getD_some] at hdatatype
      simp [Variable.conflict?, hd, hdatatype]
  case amended =>
    have hname : d.name.getD w.name = w.name := congrArg Variable.name hsame
    have hdescription : d.description.or w.description = w.description :=
      congrArg Variable.description hsame
    have hoptions : d.options.getD w.options = w.options := congrArg Variable.options hsame
    simp only [Variable.amended, Variable.overwrite, hname, hdatatype, hdescription, hoptions,
      Option.none_or]
  case value =>
    intro x text hx ht
    have hstored : w.value = some x := hvalue.symm.trans hx
    refine ⟨hstored, ?_⟩
    rw [hstored] at ht ⊢
    exact judged_showing judging ht

/-- After a descriptor its variable is settled, whatever came of it. -/
theorem Ends.settled (judging : Judging φ) (he : d.Ends c o (o', r)) : d.Settled c o' := by
  cases he with
  | incomplete hd => exact .missing hd
  | unclaimed hw hm =>
    have hfield : ∀ w : Variable φ, w.rendered = false → w.field = none := by simp [Variable.rendered]
    exact .waiting (hfield _ hw.unrendered.2) hw.overwrite_eq hm
  | rendered hw hm => exact hw.settled judging _
  | retyped hv hc => exact .retyped hv hc
  | @silent v hv hc hx =>
    obtain ⟨f, hf⟩ := Option.isSome_iff_exists.1 hv
    have hself : v.amended d = { v.amended d with value := v.value, field := some f } := by
      rw [← hf]
      rfl
    rw [hself]
    refine .shown rfl (Variable.conflict?_amended hv hc _ f) (v.amended_again d _ _) ?_
    intro x text hsome
    rw [hx] at hsome
    cases hsome
  | @valued v w x r hv hc hx ht =>
    cases ht with
    | kept hf =>
      have hsome : v.field.isSome = true := hv
      rw [show v.field = none from hf] at hsome
      cases hsome
    | @shown f g hf hp =>
      refine .shown rfl (Variable.conflict?_amended hv hc _ g) (v.amended_again d _ _) ?_
      intro y text hy ht
      have hxy : d.value.or (some x) = some x := by
        cases hd : d.value with
        | none => rfl
        | some z => rwa [hd] at hx
      obtain rfl : x = y := Option.some.inj (hxy.symm.trans hy)
      rw [judging.judged_eq hp, judged_of_accepted hp] at ht
      exact ⟨rfl, Except.ok.inj ht⟩
    | @refused f g e hf hp =>
      refine .shown rfl (Variable.conflict?_amended hv hc _ g) (v.amended_again d _ _) ?_
      intro y text hy ht
      obtain rfl : x = y := Option.some.inj (hx.symm.trans hy)
      rw [judging.judged_eq hp, judged_of_refused hp] at ht
      cases ht

/-- A settled variable does not change its look, and is not rendered. -/
theorem Settled.again (steady : Steady φ) (hs : d.Settled c o) (he : d.Ends c o (o', r)) :
    o'.map Variable.look = o.map Variable.look ∧ ∀ view, .render view ∉ Outcomes.told r := by
  cases hs with
  | missing hd =>
    cases he with
    | incomplete => exact ⟨rfl, by simp [Outcomes.told]⟩
    | unclaimed hw | rendered hw => cases hw with
      | created hc => simp [Variable.create, hd] at hc
  | waiting hf hsame hm =>
    cases he with
    | unclaimed hw =>
      cases hw with
      | overwritten =>
        rw [hsame]
        exact ⟨rfl, by simp [Outcomes.told]⟩
    | rendered hw hm' =>
      cases hw with
      | overwritten =>
        rw [hsame, hm] at hm'
        cases hm'
    | retyped hv | silent hv | valued hv => simp [Variable.rendered, hf] at hv
  | retyped hv hc =>
    cases he with
    | unclaimed hw | rendered hw => cases hw with
      | overwritten hf => simp [Variable.rendered, hf] at hv
    | retyped => exact ⟨rfl, by simp [Outcomes.told]⟩
    | silent _ hc' | valued _ hc' =>
      rw [hc] at hc'
      cases hc'
  | shown hf hc hsame hvalue =>
    cases he with
    | unclaimed hw | rendered hw => cases hw with
      | overwritten hnone =>
        rw [hf] at hnone
        cases hnone
    | retyped _ hc' =>
      rw [hc] at hc'
      cases hc'
    | silent =>
      rw [hsame]
      exact ⟨rfl, by simp [Outcomes.told]⟩
    | valued _ _ hx ht =>
      rw [hsame] at ht
      cases ht with
      | kept hnone =>
        rw [hf] at hnone
        cases hnone
      | shown hf' hp =>
        obtain rfl := Option.some.inj (hf.symm.trans hf')
        obtain ⟨hstored, htext⟩ := hvalue _ _ hx (judged_of_accepted hp)
        refine ⟨congrArg some (Variable.look_of_text rfl ?_ ?_), by simp [Outcomes.told]⟩
        · simp only [Variable.record, hstored]
        · simp only [Variable.text?, hf, Option.map_some, htext]
      | refused hf' hp =>
        exact ⟨congrArg some (Variable.Takes.look_of_refused steady hf' hp),
          by simp [Outcomes.told]⟩

end Descriptor

/-! ## Batches again -/

namespace Store

omit [FieldKind φ] in
/-- Of descriptors for different variables one at most is for a given one. -/
theorem aimed_hello (c : Catalog φ) {entries : List Json}
    (hdistinct : (entries.filterMap Descriptor.target?).Nodup) (h : Handle) :
    ((entries.map (.hello c)).filter fun a : Arrival φ => a.target? = some h) = [] ∨
      ∃ e d, ((entries.map (.hello c)).filter fun a : Arrival φ => a.target? = some h) =
        [.hello c e] ∧ Descriptor.ofJson e = .ok d ∧ d.handle = h := by
  have hcount : entries.countP (fun e => Descriptor.target? e = some h) ≤ 1 := by
    have hone := List.nodup_iff_count.1 hdistinct h
    rw [List.count, List.countP_filterMap] at hone
    refine Nat.le_trans (Nat.le_of_eq (List.countP_congr fun e _ => ?_)) hone
    cases Descriptor.target? e <;> simp
  have haimed : ((entries.map (.hello c)).filter fun a : Arrival φ => a.target? = some h) =
      (entries.filter fun e => Descriptor.target? e = some h).map (.hello c) := by
    rw [List.filter_map]
    rfl
  have hmem : ∀ e ∈ entries.filter (fun e => Descriptor.target? e = some h),
      Descriptor.target? e = some h := fun e he => by simpa using (List.mem_filter.1 he).2
  rw [List.countP_eq_length_filter] at hcount
  rw [haimed]
  generalize entries.filter (fun e => Descriptor.target? e = some h) = aimed at hcount hmem ⊢
  match aimed, hcount with
  | [], _ => exact .inl rfl
  | [e], _ =>
    have htarget := hmem e List.mem_cons_self
    cases hd : Descriptor.ofJson e with
    | error issue =>
      rw [Descriptor.target?_of_error hd] at htarget
      cases htarget
    | ok d =>
      rw [Descriptor.target?_of_ok hd] at htarget
      exact .inr ⟨e, d, rfl, hd, Option.some.inj htarget⟩

/-- A variable looks the same after a second time, and is not rendered then. -/
theorem hello_again (judging : Judging φ) (steady : Steady φ) (c : Catalog φ) {s : Store φ}
    (hs : s.Keyed) {entries : List Json}
    (hdistinct : (entries.filterMap Descriptor.target?).Nodup) (h : Handle) :
    (((s.hello c entries).1.hello c entries).1.find? h).map Variable.look =
        ((s.hello c entries).1.find? h).map Variable.look ∧
      ∀ view, view.handle = h →
        .render view ∉ ((s.hello c entries).1.hello c entries).2.commands := by
  have hbatch : ∀ u : Store φ, (u.hello c entries).1 = (entries.map (.hello c)).foldl arrive u :=
    fun u => u.deliver_eq_foldl (.hello c entries)
  have hkeyed : (s.hello c entries).1.Keyed := hs.deliver (.hello c entries)
  have hfirst : (s.hello c entries).1.find? h = _ :=
    (congrArg (find? · h) (hbatch s)).trans (find?_foldl_aimed rfl _)
  generalize (s.hello c entries).1 = t at hkeyed hfirst ⊢
  have hsecond : (t.hello c entries).1.find? h = _ :=
    (congrArg (find? · h) (hbatch t)).trans (find?_foldl_aimed rfl _)
  have hreplies := filter_replies hkeyed hkeyed (rfl : t.find? h = t.find? h)
    (entries.map (.hello c))
  rw [← commands_hello] at hreplies
  have hnone : (∀ view, .render view ∉
      t.replies ((entries.map (.hello c)).filter fun a => a.target? = some h)) →
      ∀ view, view.handle = h → .render view ∉ (t.hello c entries).2.commands := by
    intro hno view hview hmem
    refine hno view ?_
    rw [← hreplies]
    exact List.mem_filter.2 ⟨hmem, decide_eq_true (congrArg some hview)⟩
  obtain haimed | ⟨e, d, haimed, hd, rfl⟩ := aimed_hello c hdistinct h <;>
    rw [haimed] at hsecond hnone
  · rw [hsecond]
    exact ⟨rfl, hnone (by simp [replies])⟩
  · rw [haimed] at hfirst
    have hsettled := (s.ends_hello c hd).settled judging
    rw [show (s.arrive (.hello c e)).find? d.handle = t.find? d.handle from hfirst.symm] at hsettled
    obtain ⟨hlook, hunrendered⟩ := hsettled.again steady (t.ends_hello c hd)
    rw [hsecond]
    refine ⟨hlook, hnone fun view => ?_⟩
    have hreply : t.replies [.hello c e] = Outcomes.told (t.helloEntry c e).2 := List.append_nil _
    rw [hreply]
    exact hunrendered view

/-- How a store takes a batch for the second time in a row. -/
structure Harmless (c : Catalog φ) (s : Store φ) : Prop where
  refresh : ∀ entries, (s.refresh entries).1.Resembles ((s.refresh entries).1.refresh entries).1
  /-- The second time there are the same commands and the same issues, entry by entry. -/
  outcomes : ∀ entries, ((s.refresh entries).1.refresh entries).2 = (s.refresh entries).2
  hello : ∀ entries, (entries.filterMap Descriptor.target?).Nodup →
    (s.hello c entries).1.Resembles ((s.hello c entries).1.hello c entries).1
  rendered : ∀ entries, (entries.filterMap Descriptor.target?).Nodup →
    ∀ view, .render view ∉ ((s.hello c entries).1.hello c entries).2.commands

end Store

/-- Repeated delivery is harmless. Where fields judge a value alone and keep their texts when they
refuse it, whatever a store has been through, it takes any `refresh`, and any `hello` with one
descriptor at most for each variable, a second time without a change to be seen. -/
theorem repeats_harmless (judging : Judging φ) (steady : Steady φ) (c : Catalog φ)
    (ds : List (Delivery φ)) : (ds.foldl Store.deliver Store.empty).Harmless c := by
  have hkeyed : (ds.foldl Store.deliver (Store.empty : Store φ)).Keyed := by
    rw [Store.foldl_deliver]
    exact Store.keyed_empty.foldl_arrive _
  generalize ds.foldl Store.deliver Store.empty = s at hkeyed ⊢
  constructor
  case refresh =>
    intro entries
    have hechoes := (Store.refresh_kin judging steady (s.kin_refresh judging entries) entries).2
    have hbatch := (s.refresh entries).1.deliver_eq_foldl (.refresh entries)
    have hlook := fun h => (hechoes h).look_eq
    rw [show ((s.refresh entries).1.refresh entries).1 = _ from hbatch] at hlook ⊢
    exact Store.resembles_foldl_arrive hlook
  case outcomes =>
    intro entries
    exact (Store.refresh_kin judging steady (s.kin_refresh judging entries) entries).1
  case hello =>
    intro entries hdistinct
    have hbatch := (s.hello c entries).1.deliver_eq_foldl (.hello c entries)
    have hlook := fun h => (Store.hello_again judging steady c hkeyed hdistinct h).1
    rw [show ((s.hello c entries).1.hello c entries).1 = _ from hbatch] at hlook ⊢
    exact Store.resembles_foldl_arrive hlook
  case rendered =>
    intro entries hdistinct view
    exact (Store.hello_again judging steady c hkeyed hdistinct view.handle).2 view rfl

/-- A number and a label, each with a value, and the number with a text that was never sent. -/
def typedOver : List (Delivery Label) :=
  [.hello (Catalog.withNumeric.register [.time] Label.maker)
      [.array [(Handle.number 1).json, .null, .string "int", .null, .null, (Handle.number 2).json],
        .array [(Handle.text "1").json, .null, .string "time"]],
    .edit "n:1" "3"]

/-- Values that the number takes, and others that nothing can be made of. -/
def repeated : List Json :=
  [.array [(Handle.number 1).json, (Handle.number 5).json],
    .array [(Handle.number 1).json, .string "x"], .null,
    .array [(Handle.number 1).json, (Handle.number 7).json],
    .array [(Handle.number 2).json, (Handle.number 7).json]]

theorem repeats_harmless_label :
    Judging Label ∧ Steady Label ∧
      (typedOver.foldl Store.deliver Store.empty).Harmless .withNumeric ∧
      (((typedOver.foldl Store.deliver Store.empty).refresh repeated).1.refresh
        repeated).2.commands.map Command.presents? =
        [some (.number 1, "5"), some (.number 1, "7")] ∧
      (((typedOver.foldl Store.deliver Store.empty).refresh repeated).1.refresh
        repeated).2.issues.length = 3 :=
  ⟨judging_label, steady_label, repeats_harmless judging_label steady_label .withNumeric typedOver,
    by decide +kernel, by decide +kernel⟩

end LivePanel
