import LivePanel.Store.Basic

/-!
# Arrivals at a store

A store is changed by batches of entries and by edits. A batch is taken one entry after another, so
every delivery comes down to a list of arrivals, and an arrival changes the variable of one handle
by a function of that variable alone. Main statements: `foldl_deliver` and `find?_arrive`.
-/
namespace LivePanel

/-- What a store takes at once. A `hello` comes with the catalog of its time. -/
inductive Delivery (φ : Type) where
  | hello : Catalog φ → (entries : List Json) → Delivery φ
  | refresh : (entries : List Json) → Delivery φ
  | edit : (key text : String) → Delivery φ

/-- One entry of a message, or one edit. -/
inductive Arrival (φ : Type) where
  | hello : Catalog φ → (entry : Json) → Arrival φ
  | refresh : (entry : Json) → Arrival φ
  | edit : (key text : String) → Arrival φ

def Delivery.arrivals {φ : Type} : Delivery φ → List (Arrival φ)
  | .hello c entries => entries.map (.hello c)
  | .refresh entries => entries.map .refresh
  | .edit key text => [.edit key text]

namespace Store

variable {φ : Type} [FieldKind φ]

def deliver (s : Store φ) : Delivery φ → Store φ
  | .hello c entries => (s.hello c entries).1
  | .refresh entries => (s.refresh entries).1
  | .edit key text => (s.edit key text).1

def arrive (s : Store φ) : Arrival φ → Store φ
  | .hello c entry => (s.helloEntry c entry).1
  | .refresh entry => (s.refreshEntry entry).1
  | .edit key text => (s.edit key text).1

omit [FieldKind φ] in
theorem batch_fst (take : Store φ → Json → Store φ × Except Issue (Option Command)) (s : Store φ)
    (es : List Json) : (s.batch take es).1 = es.foldl (fun s e => (take s e).1) s := by
  induction es generalizing s with
  | nil => rfl
  | cons e es ih => simp only [batch, List.foldl_cons, ih]

theorem deliver_eq_foldl (s : Store φ) (d : Delivery φ) :
    s.deliver d = d.arrivals.foldl arrive s := by
  cases d with
  | hello c es => simp only [deliver, hello, batch_fst, Delivery.arrivals, List.foldl_map, arrive]
  | refresh es => simp only [deliver, refresh, batch_fst, Delivery.arrivals, List.foldl_map, arrive]
  | edit key text => rfl

theorem foldl_deliver (s : Store φ) (ds : List (Delivery φ)) :
    ds.foldl deliver s = (ds.flatMap Delivery.arrivals).foldl arrive s := by
  induction ds generalizing s with
  | nil => rfl
  | cons d ds ih =>
    rw [List.foldl_cons, ih, deliver_eq_foldl, List.flatMap_cons, List.foldl_append]

omit [FieldKind φ] in
theorem contains_eq (s : Store φ) (h : Handle) : s.contains h = (s.find? h).isSome := rfl

omit [FieldKind φ] in
/-- A key names a variable if it spells the handle of one that is stored. -/
theorem resolve?_eq_some_iff (s : Store φ) (key : String) (h : Handle) :
    s.resolve? key = some h ↔ Handle.ofKey? key = some h ∧ s.contains h = true := by
  rw [resolve?, Option.filter_eq_some_iff]

end Store

section
variable {φ : Type} [FieldKind φ]

/-- A descriptor never takes a variable away. -/
theorem Descriptor.step_or (d : Descriptor) (c : Catalog φ) (o : Option (Variable φ)) :
    (d.step c o).1.or o = (d.step c o).1 := by
  cases o with
  | none => exact Option.or_none
  | some v => rfl

theorem Assignment.step_or (e : Assignment) (o : Option (Variable φ)) :
    (e.step o).1.or o = (e.step o).1 := by
  cases o <;> rfl

theorem Store.editStep_or (h : Handle) (text : String) (o : Option (Variable φ)) :
    (editStep h text o).1.or o = (editStep h text o).1 := by
  cases o with
  | none => rfl
  | some v =>
    simp only [editStep]
    split <;> rfl

/-- What an arrival does to the variable of one handle, which may not exist. -/
def Arrival.act (h : Handle) (o : Option (Variable φ)) : Arrival φ → Option (Variable φ)
  | .hello c entry =>
    match Descriptor.ofJson entry with
    | .ok d => if d.handle = h then (d.step c o).1 else o
    | .error _ => o
  | .refresh entry =>
    match Assignment.ofJson entry with
    | .ok e => if e.handle = h then (e.step o).1 else o
    | .error _ => o
  | .edit key text => if Handle.ofKey? key = some h then (Store.editStep h text o).1 else o

end

namespace Store

variable {φ : Type} [FieldKind φ]

theorem find?_edit (s : Store φ) (key text : String) (h : Handle) :
    (s.edit key text).1.find? h =
      if Handle.ofKey? key = some h then (editStep h text (s.find? h)).1 else s.find? h := by
  cases hr : s.resolve? key with
  | none =>
    simp only [edit, hr]
    split
    · -- the key spells the handle, so no variable is stored under it
      rename_i hk
      have hn : s.find? h = none := by
        have hc : ¬ s.contains h = true := fun hc => by
          rw [(resolve?_eq_some_iff s key h).2 ⟨hk, hc⟩] at hr
          cases hr
        rw [contains_eq] at hc
        simpa using hc
      rw [hn]; rfl
    · rfl
  | some k =>
    have hk := ((resolve?_eq_some_iff s key k).1 hr).1
    simp only [edit, hr, hk, Option.some.injEq]
    by_cases he : k = h
    · subst he
      rw [if_pos rfl, find?_alter_self, editStep_or]
    · rw [if_neg he, find?_alter_of_ne s (Ne.symm he)]

/-- The variable of a handle after an arrival depends on that variable alone. -/
theorem find?_arrive (s : Store φ) (a : Arrival φ) (h : Handle) :
    (s.arrive a).find? h = a.act h (s.find? h) := by
  cases a with
  | hello c entry =>
    simp only [arrive, helloEntry, Arrival.act]
    cases Descriptor.ofJson entry with
    | error e => rfl
    | ok d =>
      by_cases hd : d.handle = h
      · subst hd
        simp only [if_pos, find?_alter_self, Descriptor.step_or]
      · simp only [if_neg hd, find?_alter_of_ne s (Ne.symm hd)]
  | refresh entry =>
    simp only [arrive, refreshEntry, Arrival.act]
    cases Assignment.ofJson entry with
    | error e => rfl
    | ok e =>
      by_cases he : e.handle = h
      · subst he
        simp only [if_pos, find?_alter_self, Assignment.step_or]
      · simp only [if_neg he, find?_alter_of_ne s (Ne.symm he)]
  | edit key text => exact find?_edit s key text h

end Store

namespace Variable

variable {φ : Type} [FieldKind φ]

theorem handle_accept (v : Variable φ) (x : Json) : (v.accept x).1.handle = v.handle := by
  unfold accept
  split
  · rfl
  · split <;> rfl

theorem handle_refresh (v : Variable φ) (x : Json) : (v.refresh x).1.handle = v.handle :=
  handle_accept v x

theorem handle_reveal (c : Catalog φ) (v : Variable φ) : (v.reveal c).1.handle = v.handle := by
  unfold reveal render
  cases c.make? v.datatype v.options <;> rfl

theorem handle_amend (v : Variable φ) (d : Descriptor) : (v.amend d).1.handle = v.handle := by
  simp only [amend, absorb]
  cases v.conflict? { d with value := none } with
  | some t => rfl
  | none =>
    simp only
    split
    · exact handle_refresh _ _
    · rfl

theorem handle_revert (v : Variable φ) : v.revert.1.handle = v.handle := by
  simp only [revert]
  split
  · split <;> rfl
  · rfl

omit [FieldKind φ] in
theorem handle_create {d : Descriptor} {v : Variable φ} (h : create d = .ok v) :
    v.handle = d.handle := by
  unfold create at h
  split at h
  · cases h
  · cases h; rfl

end Variable

section
variable {φ : Type} [FieldKind φ]

theorem Descriptor.handle_step (d : Descriptor) (c : Catalog φ) {o : Option (Variable φ)}
    (ho : ∀ v ∈ o, v.handle = d.handle) : ∀ w ∈ (d.step c o).1, w.handle = d.handle := by
  cases o with
  | none =>
    intro w hw
    simp only [step] at hw
    cases hc : Variable.create (φ := φ) d with
    | error e => simp [hc] at hw
    | ok v =>
      simp only [hc, Prod.map_fst, Option.mem_def, Option.some.injEq] at hw
      rw [← hw, Variable.handle_reveal, Variable.handle_create hc]
  | some v =>
    have hv := ho v rfl
    intro w hw
    simp only [step, Prod.map_fst, Option.mem_def, Option.some.injEq] at hw
    split at hw
    · rw [← hw, Variable.handle_amend, hv]
    · rw [← hw, Variable.introduce, Variable.handle_reveal]
      exact hv

theorem Assignment.handle_step (e : Assignment) {o : Option (Variable φ)}
    (ho : ∀ v ∈ o, v.handle = e.handle) : ∀ w ∈ (e.step o).1, w.handle = e.handle := by
  cases o with
  | none => simp [step]
  | some v =>
    intro w hw
    simp only [step, Prod.map_fst, Option.mem_def, Option.some.injEq] at hw
    rw [← hw, Variable.handle_refresh, ho v rfl]

theorem Store.handle_editStep (h : Handle) (text : String) {o : Option (Variable φ)}
    (ho : ∀ v ∈ o, v.handle = h) : ∀ w ∈ (editStep h text o).1, w.handle = h := by
  cases o with
  | none => simp [editStep]
  | some v =>
    have hv : (v.commit text).1.handle = h := ho v rfl
    intro w hw
    simp only [editStep] at hw
    rcases hc : v.commit text with ⟨u, _ | _⟩ <;> rw [hc] at hw hv
    · have hw' : u.revert.1 = w := by simpa using hw
      rw [← hw', Variable.handle_revert, hv]
    · have hw' : u = w := by simpa using hw
      rw [← hw', hv]

theorem Arrival.handle_act (a : Arrival φ) {h : Handle} {o : Option (Variable φ)}
    (ho : ∀ v ∈ o, v.handle = h) : ∀ w ∈ a.act h o, w.handle = h := by
  cases a with
  | hello c entry =>
    simp only [act]
    split
    · split
      · rename_i d _ hd
        subst hd
        exact d.handle_step c ho
      · exact ho
    · exact ho
  | refresh entry =>
    simp only [act]
    split
    · split
      · rename_i e _ he
        subst he
        exact e.handle_step ho
      · exact ho
    · exact ho
  | edit key text =>
    simp only [act]
    split
    · exact Store.handle_editStep h text ho
    · exact ho

/-- Every variable is stored under its own handle. -/
def Store.Keyed (s : Store φ) : Prop := ∀ h, ∀ v ∈ s.find? h, v.handle = h

omit [FieldKind φ] in
theorem Store.keyed_empty : (empty : Store φ).Keyed := by
  intro h v hv
  cases hv

theorem Store.Keyed.arrive {s : Store φ} (hs : s.Keyed) (a : Arrival φ) : (s.arrive a).Keyed := by
  intro h
  rw [find?_arrive]
  exact a.handle_act (hs h)

theorem Store.Keyed.foldl_arrive {s : Store φ} (hs : s.Keyed) (as : List (Arrival φ)) :
    (as.foldl Store.arrive s).Keyed := by
  induction as generalizing s with
  | nil => exact hs
  | cons a as ih => exact ih (hs.arrive a)

theorem Store.Keyed.deliver {s : Store φ} (hs : s.Keyed) (d : Delivery φ) :
    (s.deliver d).Keyed := by
  rw [deliver_eq_foldl]
  exact hs.foldl_arrive d.arrivals

end
end LivePanel
