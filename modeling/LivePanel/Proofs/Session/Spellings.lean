import LivePanel.Proofs.Session.Rendering
import LivePanel.Proofs.Store.Failures
import LivePanel.Proofs.Store.Forms
import LivePanel.Proofs.Wire.Spellings

/-!
# Datatypes by their names

A datatype comes into a store only as one that was read, so its name stands for it, and neither the
catalog nor a variable can tell in which way it was spelled. Only another name is another datatype.
Main statements: `Record.canonical_follow`, `recognizes` and `datatypes_canonical`.
-/
namespace LivePanel

variable {φ : Type} [FieldKind φ]

/-- How a catalog goes by the names of datatypes, whatever their spellings. -/
structure Catalog.GoesByName (c : Catalog φ) : Prop where
  claimed : ∀ v w d e, Datatype.ofJson? v = some d → Datatype.ofJson? w = some e →
    d.name = e.name → c.contains d = c.contains e
  made : ∀ v w d e, Datatype.ofJson? v = some d → Datatype.ofJson? w = some e →
    d.name = e.name → ∀ options, c.make? d options = c.make? e options
  /-- No store tells which of the spellings an entry has. -/
  respelled : ∀ v w d e, Datatype.ofJson? v = some d → Datatype.ofJson? w = some e →
    d.name = e.name → ∀ entry, Arrival.Alike (.hello c (Entry.respell v entry))
      (.hello c (Entry.respell w entry))

theorem Catalog.goesByName (c : Catalog φ) : c.GoesByName := by
  have hsame : ∀ v w d e, Datatype.ofJson? v = some d → Datatype.ofJson? w = some e →
      d.name = e.name → d = e := fun v w d e hd he =>
    (Datatype.wellNamed.injective v w d e hd he).2
  constructor
  case claimed =>
    intro v w d e hd he hname
    rw [hsame v w d e hd he hname]
  case made =>
    intro v w d e hd he hname options
    rw [hsame v w d e hd he hname]
  case respelled =>
    intro v w d e hd he hname entry
    obtain rfl := hsame v w d e hd he hname
    exact Arrival.alike_hello c (congrArg _ (Descriptor.ofJson_respell hd he entry))

theorem Descriptor.canonical_datatype {entry : Json} {d : Descriptor} {t : Datatype}
    (h : ofJson entry = .ok d) (ht : d.datatype = some t) : t.Canonical := by
  rw [datatype?_of_ok h, Option.bind_eq_some_iff] at ht
  obtain ⟨j, -, hj⟩ := ht
  exact Datatype.canonical_iff.2 ⟨j, hj⟩

/-- What arrives can only bring in a datatype that was read. -/
theorem Record.canonical_follow (h : Handle) {r : Option Record}
    (hr : ∀ x, r = some x → x.datatype.Canonical) (field : Option (Field φ)) (a : Arrival φ) :
    ∀ x, follow h r (field, a) = some x → x.datatype.Canonical := by
  cases a with
  | edit key text => exact hr
  | refresh entry =>
    simp only [follow]
    split
    · split
      · intro x hx
        obtain ⟨y, hy, rfl⟩ := Option.map_eq_some_iff.1 hx
        exact hr y hy
      · exact hr
    · exact hr
  | hello c entry =>
    simp only [follow]
    split
    case h_2 => exact hr
    case h_1 d hd =>
      split
      case isFalse => exact hr
      case isTrue =>
        intro x hx
        cases r with
        | none =>
          obtain ⟨t, ht, rfl⟩ := Option.map_eq_some_iff.1 hx
          exact Descriptor.canonical_datatype hd ht
        | some y =>
          obtain rfl := Option.some.inj hx
          unfold amend
          split
          · exact hr y rfl
          · cases ht : d.datatype with
            | none => exact hr y rfl
            | some t => exact Descriptor.canonical_datatype hd ht

namespace Store

/-- Whether the name of every variable's datatype stands for it. -/
def Canonical (s : Store φ) : Prop := ∀ h v, s.find? h = some v → v.datatype.Canonical

omit [FieldKind φ] in
theorem canonical_empty : (empty : Store φ).Canonical := by
  intro h v hv
  cases hv

theorem Canonical.arrive {s : Store φ} (hs : s.Canonical) (a : Arrival φ) :
    (s.arrive a).Canonical := by
  intro h v hv
  have hrecord := Arrival.record_act h (s.find? h) a
  rw [← find?_arrive, hv, Option.map_some] at hrecord
  refine Record.canonical_follow h ?_ _ a v.record hrecord.symm
  intro x hx
  obtain ⟨w, hw, rfl⟩ := Option.map_eq_some_iff.1 hx
  exact hs h w hw

theorem Canonical.foldl_arrive {s : Store φ} (hs : s.Canonical) (as : List (Arrival φ)) :
    (as.foldl Store.arrive s).Canonical := by
  induction as generalizing s with
  | nil => exact hs
  | cons a as ih => exact ih (hs.arrive a)

end Store

/-- An entry that cannot be read is malformed or has no handle. -/
theorem Descriptor.issue_of_ofJson {entry : Json} {issue : Issue}
    (h : ofJson entry = .error issue) : (∃ e, issue = .malformed e) ∨ issue = .incomplete .handle := by
  unfold ofJson at h
  cases hd : readDraft entry with
  | error e =>
    rw [hd] at h
    cases h
    exact .inl ⟨e, rfl⟩
  | ok d =>
    rw [hd] at h
    obtain ⟨_ | k, name, datatype, description, options, value⟩ := d
    · cases h
      exact .inr rfl
    · cases h

theorem Descriptor.Ends.conflict_of_retyped {c : Catalog φ} {d : Descriptor}
    {o o' : Option (Variable φ)} {h : Handle} {old new : Datatype}
    (he : d.Ends c o (o', .error (.retyped h old new))) :
    ∃ v, o = some v ∧ v.conflict? d = some new := by
  cases he with
  | retyped _ hc => exact ⟨_, rfl, hc⟩
  | valued _ _ _ ht => cases ht

omit [FieldKind φ] in
theorem Variable.of_conflict? {v : Variable φ} {d : Descriptor} {t : Datatype}
    (h : v.conflict? d = some t) : d.datatype = some t ∧ t ≠ v.datatype := by
  obtain ⟨ht, hdiffers⟩ := Option.filter_eq_some_iff.1 h
  have hne := (Bool.and_eq_true_iff.1 hdiffers).2
  exact ⟨ht, by simpa using hne⟩

namespace Store

variable {s : Store φ}

theorem Fails.retyped_inv {c : Catalog φ} {entry : Json} {h : Handle} {old new : Datatype}
    (hfail : s.Fails (.hello c entry) (.retyped h old new)) :
    ∃ d v, Descriptor.ofJson entry = .ok d ∧ s.find? d.handle = some v ∧
      v.conflict? d = some new := by
  cases hfail with
  | hello hr =>
    cases hd : Descriptor.ofJson entry with
    | error e =>
      simp only [helloEntry, hd] at hr
      obtain rfl := Except.error.inj hr
      obtain ⟨e, he⟩ | he := Descriptor.issue_of_ofJson hd <;> cases he
    | ok d =>
      have hends := s.ends_hello c hd
      rw [hr] at hends
      obtain ⟨v, hv, hc⟩ := hends.conflict_of_retyped
      exact ⟨d, v, rfl, hv, hc⟩

/-- How a store goes by the names of datatypes, whatever their spellings. -/
structure Recognizes (s : Store φ) : Prop where
  canonical : s.Canonical
  /-- The datatype of a rendered variable is changed by another name, and by nothing else. -/
  retyped : ∀ c entry d v, Descriptor.ofJson entry = .ok d → s.find? d.handle = some v →
    v.rendered = true →
    ((∃ h old new, s.Fails (.hello c entry) (.retyped h old new)) ↔
      ∃ j t, Entry.datatype? entry = some j ∧ Datatype.ofJson? j = some t ∧
        t.name ≠ v.datatype.name)
  /-- Its name is no other name, so an entry that gives it may fail, but not for that. -/
  named : ∀ c entry h v, s.find? h = some v → Entry.handle? entry = some h.json →
    Entry.datatype? entry = some (.string v.datatype.name) →
    ∀ k old new, ¬ s.Fails (.hello c entry) (.retyped k old new)

theorem Canonical.retyped_iff (hs : s.Canonical) (c : Catalog φ) {entry : Json} {d : Descriptor}
    {v : Variable φ} (hd : Descriptor.ofJson entry = .ok d) (hv : s.find? d.handle = some v)
    (hr : v.rendered = true) :
    (∃ h old new, s.Fails (.hello c entry) (.retyped h old new)) ↔
      ∃ j t, Entry.datatype? entry = some j ∧ Datatype.ofJson? j = some t ∧
        t.name ≠ v.datatype.name := by
  have hread := Descriptor.datatype?_of_ok hd
  constructor
  · rintro ⟨h, old, t, hfail⟩
    obtain ⟨d', v', hd', hv', hc⟩ := hfail.retyped_inv
    obtain rfl : d = d' := Except.ok.inj (hd.symm.trans hd')
    obtain rfl : v = v' := Option.some.inj (hv.symm.trans hv')
    obtain ⟨ht, hne⟩ := Variable.of_conflict? hc
    have hname := (Descriptor.canonical_datatype hd ht).eq_iff (hs _ v hv)
    rw [hread, Option.bind_eq_some_iff] at ht
    obtain ⟨j, hj, hjt⟩ := ht
    exact ⟨j, t, hj, hjt, fun he => hne (hname.2 he)⟩
  · rintro ⟨j, t, hj, hjt, hname⟩
    rw [hj, Option.bind_some, hjt] at hread
    have hends := s.ends_hello c hd
    rw [hv] at hends
    have hne : t ≠ v.datatype := fun he => hname (congrArg Datatype.name he)
    exact ⟨_, _, _, .hello (hends.retyped_of hr hread hne)⟩

theorem Canonical.not_retyped (hs : s.Canonical) {c : Catalog φ} {entry : Json} {h : Handle}
    {v : Variable φ} (hv : s.find? h = some v) (hhandle : Entry.handle? entry = some h.json)
    (hdatatype : Entry.datatype? entry = some (.string v.datatype.name)) {k : Handle}
    {old new : Datatype} : ¬ s.Fails (.hello c entry) (.retyped k old new) := by
  intro hfail
  obtain ⟨d, w, hd, hw, hc⟩ := hfail.retyped_inv
  obtain ⟨j, hj, hjson⟩ := Descriptor.handle?_of_ok hd
  obtain rfl : d.handle = h :=
    Handle.json_injective (hjson.trans (Option.some.inj (hj.symm.trans hhandle)))
  obtain rfl : v = w := Option.some.inj (hv.symm.trans hw)
  have hname : Datatype.ofJson? (.string v.datatype.name) = some v.datatype :=
    congrArg some (hs _ v hv)
  have hread := Descriptor.datatype?_of_ok hd
  rw [hdatatype, Option.bind_some, hname] at hread
  obtain ⟨ht, hne⟩ := Variable.of_conflict? hc
  exact hne (Option.some.inj (ht.symm.trans hread))

theorem Canonical.recognizes (hs : s.Canonical) : s.Recognizes where
  canonical := hs
  retyped c _ _ _ hd hv hr := hs.retyped_iff c hd hv hr
  named _ _ _ _ hv hhandle hdatatype _ _ _ := hs.not_retyped hv hhandle hdatatype

end Store

/-- Datatypes that are read are canonical, in whatever way they are spelled. What spells a datatype
is known, its name among that, and so two of them are equal just if their names are. Catalogs, and
the stores of all deliveries and of all sessions, therefore go by names: a spelling makes no
difference to them, and only an entry with another name is a change of datatype. -/
theorem datatypes_canonical :
    Datatype.WellNamed ∧
      (∀ c : Catalog φ, c.GoesByName) ∧
      (∀ ds : List (Delivery φ), (ds.foldl Store.deliver .empty).Recognizes) ∧
      ∀ (c : Catalog φ) (url : String) (inputs : List (Input φ)),
        ((Session.new c url).play inputs).1.store.Recognizes := by
  refine ⟨Datatype.wellNamed, Catalog.goesByName, fun ds => ?_, fun c url inputs => ?_⟩
  · rw [Store.foldl_deliver]
    exact (Store.canonical_empty.foldl_arrive _).recognizes
  · rw [Session.store_play]
    exact (Store.canonical_empty.foldl_arrive _).recognizes

end LivePanel
