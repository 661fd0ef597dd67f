import LivePanel.Proofs.Store.Isolation
import LivePanel.Proofs.Store.Record
import LivePanel.Proofs.Store.Rendering

/-!
# Failures

What a failing entry leaves behind, by the issue. Some issues leave the store as it was; the others
reach no variable but the one they are about, and of that one only so much. Main statements:
`arrive_of_barren`, `failsSafely` and `rewordedAt_edit`.
-/
namespace LivePanel

variable {φ : Type} [FieldKind φ]

/-- The issues that leave a store as it was: of an entry that cannot be read or lacks something, of
a variable that is not there, and of a datatype that would change. -/
def Issue.barren : Issue → Bool
  | .malformed _ | .incomplete _ | .noVariable _ | .retyped .. => true
  | .noField _ | .offline _ | .transport _ | .stageFailed .. | .field .. => false

omit [FieldKind φ] in
theorem Descriptor.barren_of_ofJson {entry : Json} {issue : Issue}
    (h : ofJson entry = .error issue) : issue.barren = true := by
  unfold ofJson at h
  cases hd : readDraft entry with
  | error e =>
    rw [hd] at h
    cases h
    rfl
  | ok d =>
    rw [hd] at h
    obtain ⟨_ | k, name, datatype, description, options, value⟩ := d
    · cases h
      rfl
    · cases h

omit [FieldKind φ] in
theorem Assignment.barren_of_ofJson {entry : Json} {issue : Issue}
    (h : ofJson entry = .error issue) : issue.barren = true := by
  unfold ofJson at h
  cases he : readEntry entry with
  | error e =>
    rw [he] at h
    cases h
    rfl
  | ok e =>
    rw [he] at h
    cases h

/-- A value is refused by a field alone. -/
theorem Variable.Takes.refused_inv {v w : Variable φ} {x : Json} {issue : Issue}
    (ht : v.Takes x (w, .error issue)) : ∃ f g e, v.field = some f ∧ issue = .field v.handle e ∧
      FieldKind.present f x = (g, .error e) ∧ w = { v with field := some g } := by
  cases ht with
  | refused hf hp => exact ⟨_, _, _, hf, rfl, hp, rfl⟩

theorem Variable.Takes.not_barren {v w : Variable φ} {x : Json} {issue : Issue}
    (ht : v.Takes x (w, .error issue)) : issue.barren = false := by
  obtain ⟨f, g, e, -, rfl, -⟩ := ht.refused_inv
  rfl

theorem Descriptor.Ends.eq_of_barren {c : Catalog φ} {d : Descriptor} {o o' : Option (Variable φ)}
    {issue : Issue} (he : d.Ends c o (o', .error issue)) (hi : issue.barren = true) : o' = o := by
  cases he with
  | incomplete | retyped => rfl
  | unclaimed => cases hi
  | valued _ _ _ ht =>
    rw [ht.not_barren] at hi
    cases hi

theorem Assignment.Ends.eq_of_barren {e : Assignment} {o o' : Option (Variable φ)} {issue : Issue}
    (he : e.Ends o (o', .error issue)) (hi : issue.barren = true) : o' = o := by
  cases he with
  | unknown => rfl
  | valued ht =>
    rw [ht.not_barren] at hi
    cases hi

theorem Store.EditEnds.eq_of_barren {h : Handle} {text : String} {o o' : Option (Variable φ)}
    {refusal : Refusal} (he : EditEnds h text o (o', .error refusal))
    (hi : refusal.issue.barren = true) : o' = o := by
  cases he with
  | unknown | unrendered => rfl
  | refused => cases hi

namespace Descriptor.Ends

variable {c : Catalog φ} {d : Descriptor} {o o' : Option (Variable φ)} {v : Variable φ}
  {r : Except Issue (Option Command)}

/-- A first descriptor needs a datatype. -/
theorem incomplete_of (he : d.Ends c (none : Option (Variable φ)) (o', r))
    (hd : d.datatype = none) : r = .error (.incomplete (.datatype d.handle)) := by
  cases he with
  | incomplete => rfl
  | unclaimed hw _ | rendered hw _ =>
    cases hw with
    | created hc => simp [Variable.create, hd] at hc

/-- A rendered variable keeps its datatype. -/
theorem retyped_of (he : d.Ends c (some v) (o', r)) (hv : v.rendered = true) {t : Datatype}
    (hd : d.datatype = some t) (ht : t ≠ v.datatype) :
    r = .error (.retyped v.handle v.datatype t) := by
  have hconflict : v.conflict? d = some t := by simp [Variable.conflict?, hd, hv, ht]
  cases he with
  | unclaimed hw _ | rendered hw _ =>
    have hnone := hw.unrendered.1
    rw [rendered?, Option.any_some, hv] at hnone
    cases hnone
  | retyped _ hc =>
    rw [hconflict] at hc
    cases hc
    rfl
  | silent _ hc | valued _ hc =>
    rw [hconflict] at hc
    cases hc

omit [FieldKind φ] in
theorem datatype_amended (hv : v.rendered = true) (hc : v.conflict? d = none) :
    (v.amended d).datatype = v.datatype := by
  change d.datatype.getD v.datatype = v.datatype
  cases hd : d.datatype with
  | none => rfl
  | some t => simpa [Variable.conflict?, hd, hv] using hc

/-- What is not barren is the fault of a field, or there is no field. -/
theorem issue_cases {issue : Issue} (he : d.Ends c o (o', .error issue)) :
    issue.barren = true ∨ (∃ h fault, issue = .field h fault) ∨ ∃ t, issue = .noField t := by
  cases he with
  | incomplete | retyped => exact .inl rfl
  | unclaimed => exact .inr (.inr ⟨_, rfl⟩)
  | valued _ _ _ ht =>
    obtain ⟨f, g, fault, -, hissue, -⟩ := ht.refused_inv
    exact .inr (.inl ⟨_, fault, hissue⟩)

/-- Where a field refuses the value, the rest of the descriptor is taken over all the same. -/
theorem of_field (steady : Steady φ) {h : Handle} {fault : FieldFault}
    (he : d.Ends c o (o', .error (.field h fault))) :
    ∃ v f g, o = some v ∧ v.handle = h ∧ v.field = some f ∧ f.Survives g ∧
      o' = some { v with
        name := d.name.getD v.name
        description := d.description.or v.description
        options := d.options.getD v.options
        field := some g } := by
  cases he with
  | @valued v w x _ hv hc _ ht =>
    obtain ⟨f, g, e, hf, hissue, hp, rfl⟩ := ht.refused_inv
    cases hissue
    refine ⟨v, f, g, rfl, rfl, hf, Field.survives_of_refused steady hp, ?_⟩
    -- without a conflict the descriptor carries no new datatype
    have hdatatype := datatype_amended hv hc
    rw [← hdatatype]
    rfl

/-- Where no field presents the datatype, the variable is there and up to date but unrendered. -/
theorem of_noField {t : Datatype} (he : d.Ends c o (o', .error (.noField t))) :
    ∃ w, d.Readies o w ∧ o' = some w ∧ w.datatype = t ∧ c.make? w.datatype w.options = none := by
  cases he with
  | unclaimed hw hm => exact ⟨_, hw, rfl, rfl, hm⟩
  | valued _ _ _ ht =>
    obtain ⟨f, g, e, -, hissue, -⟩ := ht.refused_inv
    cases hissue

end Descriptor.Ends

namespace Descriptor.Readies

variable {d : Descriptor} {v w : Variable φ}

omit [FieldKind φ] in
theorem record_of_none (hw : d.Readies none w) :
    d.datatype = some w.datatype ∧ w.record = Record.first d w.datatype := by
  cases hw with
  | created hc =>
    cases hd : d.datatype with
    | none => simp [Variable.create, hd] at hc
    | some t =>
      simp only [Variable.create, hd] at hc
      cases hc
      exact ⟨rfl, rfl⟩

theorem record_of_some (c : Catalog φ) (hw : d.Readies (some v) w) :
    v.field = none ∧ w.record = v.record.amend v.field d := by
  cases hw with
  | overwritten hf =>
    refine ⟨hf, ?_⟩
    rw [← Variable.record_introduce c v d hf, Variable.introduce, Variable.record_reveal]

end Descriptor.Readies

theorem Assignment.Ends.of_field (steady : Steady φ) {e : Assignment} {o o' : Option (Variable φ)}
    {h : Handle} {fault : FieldFault} (he : e.Ends o (o', .error (.field h fault))) :
    ∃ v f g, o = some v ∧ v.handle = h ∧ v.field = some f ∧ f.Survives g ∧
      o' = some { v with field := some g } := by
  cases he with
  | @valued v w _ ht =>
    obtain ⟨f, g, fault', hf, hissue, hp, rfl⟩ := ht.refused_inv
    cases hissue
    exact ⟨v, f, g, rfl, rfl, hf, Field.survives_of_refused steady hp, rfl⟩

theorem Assignment.Ends.issue_cases {e : Assignment} {o o' : Option (Variable φ)} {issue : Issue}
    (he : e.Ends o (o', .error issue)) :
    issue.barren = true ∨ ∃ h fault, issue = .field h fault := by
  cases he with
  | unknown => exact .inl rfl
  | valued ht =>
    obtain ⟨f, g, fault, -, hissue, -⟩ := ht.refused_inv
    exact .inr ⟨_, fault, hissue⟩

/-- Nothing of a variable changes but perhaps the text of its field. -/
def Variable.Rewords (v w : Variable φ) : Prop :=
  w = { v with field := w.field } ∧ Option.Rel Field.Rewords v.field w.field

theorem rel_refl {α : Type} {r : α → α → Prop} (hr : ∀ a, r a a) (o : Option α) :
    Option.Rel r o o := by
  cases o with
  | none => exact .none
  | some a => exact .some (hr a)

theorem Variable.Rewords.refl (v : Variable φ) : v.Rewords v :=
  ⟨rfl, rel_refl (fun _ => Field.Descends.same.rewords) v.field⟩

/-- An edit, accepted or refused, changes the text of a field at most. -/
theorem Store.EditEnds.rewords {h : Handle} {text : String} {o o' : Option (Variable φ)}
    {r : Except Refusal Update} (he : EditEnds h text o (o', r)) :
    Option.Rel Variable.Rewords o o' := by
  cases he with
  | unknown => exact .none
  | unrendered => exact .some (.refl _)
  | accepted hf _ =>
    refine .some ⟨rfl, ?_⟩
    rw [hf]
    exact .some (Field.Descends.same.entered text).rewords
  | refused hf _ hg =>
    refine .some ⟨rfl, ?_⟩
    rw [hf]
    exact .some ((Field.Descends.same.entered text).trans hg.descends).rewords

namespace Store

/-- An arrival that leaves the variable it is for as it was leaves all as it was. -/
theorem arrive_eq_self {s : Store φ} {a : Arrival φ}
    (ha : ∀ h, a.target? = some h → (s.arrive a).find? h = s.find? h) : s.arrive a = s := by
  cases a with
  | hello c entry =>
    cases hd : Descriptor.ofJson entry with
    | error e => exact arrive_of_no_target (Descriptor.target?_of_error hd)
    | ok d =>
      have hfind := ha d.handle (Descriptor.target?_of_ok hd)
      simp only [arrive, helloEntry, hd] at hfind ⊢
      exact alter_eq_self hfind
  | refresh entry =>
    cases he : Assignment.ofJson entry with
    | error e => exact arrive_of_no_target (Assignment.target?_of_error he)
    | ok e =>
      have hfind := ha e.handle (Assignment.target?_of_ok he)
      simp only [arrive, refreshEntry, he] at hfind ⊢
      exact alter_eq_self hfind
  | edit key text =>
    cases hr : s.resolve? key with
    | none => simp only [arrive, edit, hr]
    | some h =>
      have hfind := ha h ((s.resolve?_eq_some_iff key h).1 hr).1
      simp only [arrive, edit, hr] at hfind ⊢
      exact alter_eq_self hfind

/-- An arrival fails with an issue. -/
inductive Fails (s : Store φ) : Arrival φ → Issue → Prop where
  | hello {c : Catalog φ} {entry : Json} {issue : Issue} :
      (s.helloEntry c entry).2 = .error issue → s.Fails (.hello c entry) issue
  | refresh {entry : Json} {issue : Issue} :
      (s.refreshEntry entry).2 = .error issue → s.Fails (.refresh entry) issue
  | edit {key text : String} {refusal : Refusal} :
      (s.edit key text).2 = .error refusal → s.Fails (.edit key text) refusal.issue

variable {s : Store φ}

theorem ends_hello (s : Store φ) (c : Catalog φ) {entry : Json} {d : Descriptor}
    (hd : Descriptor.ofJson entry = .ok d) :
    d.Ends c (s.find? d.handle)
      ((s.arrive (.hello c entry)).find? d.handle, (s.helloEntry c entry).2) := by
  have hstep := d.ends_step c (s.find? d.handle)
  have hfind : (s.arrive (.hello c entry)).find? d.handle = (d.step c (s.find? d.handle)).1 := by
    simp only [find?_arrive, Arrival.act, hd, if_true]
  have hreply : (s.helloEntry c entry).2 = (d.step c (s.find? d.handle)).2 := by
    simp only [helloEntry, hd, alter_snd]
  rwa [hfind, hreply]

theorem ends_refresh (s : Store φ) {entry : Json} {e : Assignment}
    (he : Assignment.ofJson entry = .ok e) :
    e.Ends (s.find? e.handle)
      ((s.arrive (.refresh entry)).find? e.handle, (s.refreshEntry entry).2) := by
  have hstep := e.ends_step (s.find? e.handle)
  have hfind : (s.arrive (.refresh entry)).find? e.handle = (e.step (s.find? e.handle)).1 := by
    simp only [find?_arrive, Arrival.act, he, if_true]
  have hreply : (s.refreshEntry entry).2 = (e.step (s.find? e.handle)).2 := by
    simp only [refreshEntry, he, alter_snd]
  rwa [hfind, hreply]

theorem ends_edit (s : Store φ) {key : String} {h : Handle} (hk : Handle.ofKey? key = some h)
    (text : String) :
    EditEnds h text (s.find? h) ((s.edit key text).1.find? h, (s.edit key text).2) := by
  rw [find?_edit, if_pos hk, edit_of_key s hk]
  exact ends_editStep h text (s.find? h)

/-- What fails in a `hello` could not be read, or it is a descriptor that ended so. -/
theorem Fails.hello_cases {c : Catalog φ} {entry : Json} {issue : Issue}
    (hfail : s.Fails (.hello c entry) issue) :
    (Descriptor.target? entry = none ∧ issue.barren = true) ∨
      ∃ d, Descriptor.ofJson entry = .ok d ∧
        d.Ends c (s.find? d.handle) ((s.arrive (.hello c entry)).find? d.handle, .error issue) := by
  cases hfail with
  | hello hr =>
    cases hd : Descriptor.ofJson entry with
    | error e =>
      simp only [helloEntry, hd] at hr
      cases hr
      exact .inl ⟨Descriptor.target?_of_error hd, Descriptor.barren_of_ofJson hd⟩
    | ok d =>
      have hends := s.ends_hello c hd
      rw [hr] at hends
      exact .inr ⟨d, rfl, hends⟩

theorem Fails.refresh_cases {entry : Json} {issue : Issue}
    (hfail : s.Fails (.refresh entry) issue) :
    (Assignment.target? entry = none ∧ issue.barren = true) ∨
      ∃ e, Assignment.ofJson entry = .ok e ∧
        e.Ends (s.find? e.handle) ((s.arrive (.refresh entry)).find? e.handle, .error issue) := by
  cases hfail with
  | refresh hr =>
    cases he : Assignment.ofJson entry with
    | error e =>
      simp only [refreshEntry, he] at hr
      cases hr
      exact .inl ⟨Assignment.target?_of_error he, Assignment.barren_of_ofJson he⟩
    | ok e =>
      have hends := s.ends_refresh he
      rw [hr] at hends
      exact .inr ⟨e, rfl, hends⟩

/-- A barren issue leaves the store as it was. -/
theorem arrive_of_barren {a : Arrival φ} {issue : Issue} (hfail : s.Fails a issue)
    (hi : issue.barren = true) : s.arrive a = s := by
  cases a with
  | hello c entry =>
    obtain ⟨hnone, -⟩ | ⟨d, hd, hends⟩ := hfail.hello_cases
    · exact arrive_of_no_target hnone
    · refine arrive_eq_self fun h hh => ?_
      obtain rfl : d.handle = h := Option.some.inj ((Descriptor.target?_of_ok hd).symm.trans hh)
      exact hends.eq_of_barren hi
  | refresh entry =>
    obtain ⟨hnone, -⟩ | ⟨e, he, hends⟩ := hfail.refresh_cases
    · exact arrive_of_no_target hnone
    · refine arrive_eq_self fun h hh => ?_
      obtain rfl : e.handle = h := Option.some.inj ((Assignment.target?_of_ok he).symm.trans hh)
      exact hends.eq_of_barren hi
  | edit key text =>
    cases hfail with
    | edit hr =>
      refine arrive_eq_self fun h hk => ?_
      have hends := s.ends_edit hk text
      rw [hr] at hends
      exact hends.eq_of_barren hi

/-- Whether two stores have the same variables beside that of one handle. -/
def AgreesBeside (h : Handle) (s t : Store φ) : Prop := ∀ k, k ≠ h → t.find? k = s.find? k

theorem agreesBeside_arrive {a : Arrival φ} {h : Handle} (ha : a.target? = some h) :
    s.AgreesBeside h (s.arrive a) := by
  intro k hk
  refine find?_arrive_of_ne fun hka => hk ?_
  rw [ha] at hka
  exact (Option.some.inj hka).symm

/-- What the failures of a store leave behind. -/
structure FailsSafely (s : Store φ) : Prop where
  untouched : ∀ a issue, s.Fails a issue → issue.barren = true → s.arrive a = s
  /-- No variable begins without a datatype. -/
  incomplete : ∀ c entry d, Descriptor.ofJson entry = .ok d → s.find? d.handle = none →
    d.datatype = none → s.Fails (.hello c entry) (.incomplete (.datatype d.handle))
  /-- No rendered variable takes anything from a descriptor of another datatype. -/
  retyped : ∀ c entry d v t, Descriptor.ofJson entry = .ok d → s.find? d.handle = some v →
    v.rendered = true → d.datatype = some t → t ≠ v.datatype →
    s.Fails (.hello c entry) (.retyped d.handle v.datatype t)
  refresh_issue : ∀ entry issue, s.Fails (.refresh entry) issue →
    issue.barren = true ∨ ∃ h fault, issue = .field h fault
  refresh_field : ∀ entry h fault, s.Fails (.refresh entry) (.field h fault) →
    ∃ v f g, s.find? h = some v ∧ v.field = some f ∧ f.Survives g ∧
      (s.arrive (.refresh entry)).find? h = some { v with field := some g } ∧
      s.AgreesBeside h (s.arrive (.refresh entry)) ∧
      (f.Firm → s.arrive (.refresh entry) = s)
  hello_issue : ∀ c entry issue, s.Fails (.hello c entry) issue →
    issue.barren = true ∨ (∃ h fault, issue = .field h fault) ∨ ∃ t, issue = .noField t
  /-- Of a `hello` that fails in a field, the name, the description and the options are taken. -/
  hello_field : ∀ c entry h fault, s.Fails (.hello c entry) (.field h fault) →
    ∃ d v f g, Descriptor.ofJson entry = .ok d ∧ d.handle = h ∧ s.find? h = some v ∧
      v.field = some f ∧ f.Survives g ∧
      (s.arrive (.hello c entry)).find? h = some { v with
        name := d.name.getD v.name
        description := d.description.or v.description
        options := d.options.getD v.options
        field := some g } ∧
      s.AgreesBeside h (s.arrive (.hello c entry))
  /-- A variable that no field presents is stored or brought up to date, and left unrendered. -/
  hello_noField : ∀ c entry t, s.Fails (.hello c entry) (.noField t) →
    ∃ d w, Descriptor.ofJson entry = .ok d ∧
      (s.arrive (.hello c entry)).find? d.handle = some w ∧ w.field = none ∧ w.datatype = t ∧
      c.contains t = false ∧
      (s.find? d.handle = none → d.datatype = some t ∧ w.record = Record.first d t) ∧
      (∀ v, s.find? d.handle = some v → v.field = none ∧ w.record = v.record.amend v.field d) ∧
      s.AgreesBeside d.handle (s.arrive (.hello c entry))

theorem failsSafely (steady : Steady φ) {s : Store φ} (hs : s.Keyed) : s.FailsSafely := by
  constructor
  case untouched => exact fun a issue ha hi => arrive_of_barren ha hi
  case incomplete =>
    intro c entry d hd hnone hdatatype
    have hends := s.ends_hello c hd
    rw [hnone] at hends
    exact .hello (hends.incomplete_of hdatatype)
  case retyped =>
    intro c entry d v t hd hv hr hdatatype ht
    have hends := s.ends_hello c hd
    rw [hv] at hends
    rw [← hs _ v hv]
    exact .hello (hends.retyped_of hr hdatatype ht)
  case refresh_issue =>
    intro entry issue hfail
    obtain ⟨-, hi⟩ | ⟨e, -, hends⟩ := hfail.refresh_cases
    · exact .inl hi
    · exact hends.issue_cases
  case refresh_field =>
    intro entry h fault hfail
    obtain ⟨-, ⟨⟩⟩ | ⟨e, he, hends⟩ := hfail.refresh_cases
    obtain ⟨v, f, g, hv, hh, hf, hg, hfind⟩ := hends.of_field steady
    obtain rfl : e.handle = h := (hs _ v hv).symm.trans hh
    have htarget : (Arrival.refresh entry : Arrival φ).target? = some e.handle :=
      Assignment.target?_of_ok he
    refine ⟨v, f, g, hv, hf, hg, hfind, agreesBeside_arrive htarget, fun hfirm => ?_⟩
    -- a firm field is back as it was, so the one variable that was reached is too
    refine arrive_eq_self fun k hk => ?_
    obtain rfl : e.handle = k := Option.some.inj (htarget.symm.trans hk)
    rw [hfind, hv, hg.firm hfirm, ← hf]
  case hello_issue =>
    intro c entry issue hfail
    obtain ⟨-, hi⟩ | ⟨d, -, hends⟩ := hfail.hello_cases
    · exact .inl hi
    · exact hends.issue_cases
  case hello_field =>
    intro c entry h fault hfail
    obtain ⟨-, ⟨⟩⟩ | ⟨d, hd, hends⟩ := hfail.hello_cases
    obtain ⟨v, f, g, hv, hh, hf, hg, hfind⟩ := hends.of_field steady
    obtain rfl : d.handle = h := (hs _ v hv).symm.trans hh
    exact ⟨d, v, f, g, hd, rfl, hv, hf, hg, hfind,
      agreesBeside_arrive (Descriptor.target?_of_ok hd)⟩
  case hello_noField =>
    intro c entry t hfail
    obtain ⟨-, ⟨⟩⟩ | ⟨d, hd, hends⟩ := hfail.hello_cases
    obtain ⟨w, hw, hfind, rfl, hm⟩ := hends.of_noField
    have hfield : w.field = none := by simpa [Variable.rendered] using hw.unrendered.2
    have hcontains : c.contains w.datatype = false := by
      rw [← c.isSome_make? w.datatype w.options, hm]
      rfl
    refine ⟨d, w, hd, hfind, hfield, rfl, hcontains, fun hnone => ?_, fun v hv => ?_,
      agreesBeside_arrive (Descriptor.target?_of_ok hd)⟩
    · rw [hnone] at hw
      exact hw.record_of_none
    · rw [hv] at hw
      exact hw.record_of_some c

/-- One store is another but for the text of the field that a key stands for. -/
structure RewordedAt (key : String) (s t : Store φ) : Prop where
  others : ∀ h, Handle.ofKey? key ≠ some h → t.find? h = s.find? h
  reworded : ∀ h, Option.Rel Variable.Rewords (s.find? h) (t.find? h)

theorem rewordedAt_edit (s : Store φ) (key text : String) :
    s.RewordedAt key (s.edit key text).1 := by
  have hothers : ∀ h, Handle.ofKey? key ≠ some h → (s.edit key text).1.find? h = s.find? h := by
    intro h hk
    rw [find?_edit, if_neg hk]
  refine ⟨hothers, fun h => ?_⟩
  by_cases hk : Handle.ofKey? key = some h
  · exact (s.ends_edit hk text).rewords
  · rw [hothers h hk]
    exact rel_refl Variable.Rewords.refl _

end Store
end LivePanel
