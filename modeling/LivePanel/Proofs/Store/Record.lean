import LivePanel.Proofs.Store.Arrivals

/-!
# A variable's record

What a store keeps of a variable, its field aside, is the left fold of the arrivals for its handle.
The fold needs one thing that the arrivals do not tell: which field presented the variable when each
of them came. Main statement: `record_foldl_deliver`.
-/
namespace LivePanel

/-- What a variable is said to be, and its last value. -/
structure Record where
  name : String
  datatype : Datatype
  description : Option String
  options : Options
  value : Option Json

def Variable.record {φ : Type} (v : Variable φ) : Record :=
  ⟨v.name, v.datatype, v.description, v.options, v.value⟩

variable {φ : Type} [FieldKind φ]

/-- Whether a field takes a value. -/
def Field.accepts (f : Field φ) (x : Json) : Bool := (FieldKind.present f x).2.isOk

/-- A value fits a variable that is not rendered, or one whose field accepts it. -/
def fits (field : Option (Field φ)) (x : Json) : Bool := field.all (·.accepts x)

namespace Record

/-- The record that a first descriptor makes. -/
def first (d : Descriptor) (datatype : Datatype) : Record where
  name := d.name.getD d.handle.display
  datatype := datatype
  description := d.description
  options := d.options.getD []
  value := d.value

/-- Whatever a descriptor carries is taken over, a value only if it fits. Once there is a field, a
descriptor with another datatype is skipped. -/
def amend (field : Option (Field φ)) (r : Record) (d : Descriptor) : Record :=
  if field.isSome = true ∧ d.datatype.any (· ≠ r.datatype) = true then r
  else {
    name := d.name.getD r.name
    datatype := d.datatype.getD r.datatype
    description := d.description.or r.description
    options := d.options.getD r.options
    value := (d.value.filter (fits field)).or r.value }

def assign (field : Option (Field φ)) (r : Record) (x : Json) : Record :=
  { r with value := if fits field x then some x else r.value }

/-- Carries a record on over an arrival, which finds the variable with a certain field. A record
begins with a descriptor that has a datatype. -/
def follow (h : Handle) (r : Option Record) : Option (Field φ) × Arrival φ → Option Record
  | (field, .hello _ entry) =>
    match Descriptor.ofJson entry with
    | .ok d =>
      if d.handle = h then
        match r with
        | none => d.datatype.map (first d)
        | some r => some (r.amend field d)
      else r
    | .error _ => r
  | (field, .refresh entry) =>
    match Assignment.ofJson entry with
    | .ok e => if e.handle = h then r.map (·.assign field e.value) else r
    | .error _ => r
  | (_, .edit ..) => r

end Record

/-- The arrivals with the field each finds on the variable of a handle. -/
def Store.attended (h : Handle) (s : Store φ) :
    List (Arrival φ) → List (Option (Field φ) × Arrival φ)
  | [] => []
  | a :: as => ((s.find? h).bind (·.field), a) :: (s.arrive a).attended h as

namespace Variable

theorem accepts_of_present {f f' : Field φ} {x : Json} (h : FieldKind.present f x = (f', .ok ())) :
    f.accepts x = true := by
  simp [Field.accepts, h, Except.isOk, Except.toBool]

theorem not_accepts_of_present {f f' : Field φ} {x : Json} {e : FieldFault}
    (h : FieldKind.present f x = (f', .error e)) : f.accepts x = false := by
  simp [Field.accepts, h, Except.isOk, Except.toBool]

/-- A value from the server is kept if it fits. -/
theorem record_accept (v : Variable φ) (x : Json) :
    (v.accept x).1.record = v.record.assign v.field x := by
  cases hf : v.field with
  | none => simp [accept, hf, record, Record.assign, fits]
  | some f =>
    rcases hp : FieldKind.present f x with ⟨f', _ | u⟩
    · simp [accept, hf, hp, record, Record.assign, fits, not_accepts_of_present hp]
    · simp [accept, hf, hp, record, Record.assign, fits, accepts_of_present hp]

theorem record_refresh (v : Variable φ) (x : Json) :
    (v.refresh x).1.record = v.record.assign v.field x := record_accept v x

/-- Rendering leaves the record alone. -/
theorem record_reveal (c : Catalog φ) (v : Variable φ) : (v.reveal c).1.record = v.record := by
  unfold reveal render
  cases c.make? v.datatype v.options <;> rfl

omit [FieldKind φ] in
theorem record_overwrite (v : Variable φ) (d : Descriptor) :
    (v.overwrite d).record =
      ⟨d.name.getD v.name, d.datatype.getD v.datatype, d.description.or v.description,
        d.options.getD v.options, d.value.or v.value⟩ := rfl

/-- An unrendered variable takes over all that a descriptor carries. -/
theorem record_introduce (c : Catalog φ) (v : Variable φ) (d : Descriptor) (hv : v.field = none) :
    (v.introduce c d).1.record = v.record.amend v.field d := by
  have hfit : d.value.filter (fits (none : Option (Field φ))) = d.value := by
    cases d.value <;> rfl
  rw [introduce, record_reveal, record_overwrite, Record.amend, hv, if_neg (by simp), hfit]
  rfl

omit [FieldKind φ] in
theorem isSome_conflict? (v : Variable φ) (d : Descriptor) (hv : v.rendered = true) :
    (v.conflict? d).isSome = d.datatype.any (· ≠ v.record.datatype) := by
  cases hd : d.datatype with
  | none => simp [conflict?, hd]
  | some t => by_cases ht : t = v.datatype <;> simp [conflict?, hd, hv, ht, record]

/-- A rendered variable skips a descriptor of another datatype; of any other it takes the value if
its field accepts it. Showing the stored value again stores nothing new. -/
theorem record_amend (v : Variable φ) (d : Descriptor) (hv : v.rendered = true) :
    (v.amend d).1.record = v.record.amend v.field d := by
  have hsome : v.field.isSome = true := hv
  have hdiffers := isSome_conflict? v d hv
  cases hc : v.conflict? d with
  | some t =>
    rw [hc] at hdiffers
    rw [Record.amend, if_pos ⟨hsome, hdiffers.symm⟩]
    simp only [amend, absorb, show v.conflict? { d with value := none } = some t from hc]
  | none =>
    rw [hc] at hdiffers
    rw [Record.amend, if_neg (by rw [← hdiffers]; simp)]
    simp only [amend, absorb, show v.conflict? { d with value := none } = none from hc]
    cases hx : d.value with
    | some x =>
      simp only [Option.some_or, record_refresh]
      by_cases hf : fits v.field x = true <;>
        simp [Record.assign, record, overwrite, Option.filter_some, hf]
    | none =>
      cases hw : v.value with
      | some w =>
        -- the value that is shown again is the one that is stored
        simp only [overwrite, hw, Option.or_some, record_refresh]
        simp [Record.assign, record, hw]
      | none => simp [overwrite, hw, record]

end Variable

/-- The first descriptor of a datatype makes a record, and no other does. -/
theorem Variable.record_step_none (c : Catalog φ) (d : Descriptor) :
    ((d.step c (none : Option (Variable φ))).1).map record = d.datatype.map (Record.first d) := by
  cases hd : d.datatype with
  | none => simp [Descriptor.step, create, hd]
  | some t =>
    simp only [Descriptor.step, create, hd, Prod.map_fst, Option.map_some, record_reveal]
    rfl

theorem Variable.record_step_some (c : Catalog φ) (d : Descriptor) (v : Variable φ) :
    ((d.step c (some v)).1).map record = some (v.record.amend v.field d) := by
  cases hv : v.rendered with
  | true =>
    simp only [Descriptor.step, hv, if_true, Prod.map_fst, Option.map_some, record_amend v d hv]
  | false =>
    have hnone : v.field = none := by simpa [rendered] using hv
    simp only [Descriptor.step, hv, Bool.false_eq_true, if_false, Prod.map_fst, Option.map_some,
      record_introduce c v d hnone]

theorem Variable.record_commit (v : Variable φ) (text : String) :
    (v.commit text).1.record = v.record := rfl

theorem Variable.record_revert (v : Variable φ) : v.revert.1.record = v.record := by
  simp only [revert]
  split
  · split <;> rfl
  · rfl

/-- An edit changes nothing but the field. -/
theorem Variable.record_editStep (h : Handle) (text : String) (o : Option (Variable φ)) :
    ((Store.editStep h text o).1).map record = o.map record := by
  cases o with
  | none => rfl
  | some v =>
    have hcommit := record_commit v text
    simp only [Store.editStep]
    rcases hc : v.commit text with ⟨w, _ | u⟩ <;> rw [hc] at hcommit
    · exact congrArg some ((record_revert w).trans hcommit)
    · exact congrArg some hcommit

/-- One arrival carries the record on as the fold does. -/
theorem Arrival.record_act (h : Handle) (o : Option (Variable φ)) (a : Arrival φ) :
    (a.act h o).map Variable.record =
      Record.follow h (o.map Variable.record) (o.bind (·.field), a) := by
  cases a with
  | hello c entry =>
    simp only [act, Record.follow]
    cases Descriptor.ofJson entry with
    | error e => rfl
    | ok d =>
      by_cases hd : d.handle = h
      · simp only [if_pos hd]
        cases o with
        | none => exact Variable.record_step_none c d
        | some v => exact Variable.record_step_some c d v
      · simp only [if_neg hd]
  | refresh entry =>
    simp only [act, Record.follow]
    cases Assignment.ofJson entry with
    | error e => rfl
    | ok e =>
      by_cases he : e.handle = h
      · simp only [if_pos he]
        cases o with
        | none => rfl
        | some v => exact congrArg some (Variable.record_refresh v e.value)
      · simp only [if_neg he]
  | edit key text =>
    simp only [act, Record.follow]
    split
    · exact Variable.record_editStep h text o
    · rfl

theorem Store.record_foldl_arrive (s : Store φ) (as : List (Arrival φ)) (h : Handle) :
    ((as.foldl arrive s).find? h).map Variable.record =
      (s.attended h as).foldl (Record.follow h) ((s.find? h).map Variable.record) := by
  induction as generalizing s with
  | nil => rfl
  | cons a as ih =>
    rw [List.foldl_cons, ih, attended, List.foldl_cons, find?_arrive, Arrival.record_act]

/-- Whether an arrival can bring the variable of a handle into a store. -/
def Arrival.Introduces (h : Handle) (a : Arrival φ) : Prop :=
  ∃ c entry d, a = .hello c entry ∧ Descriptor.ofJson entry = .ok d ∧ d.handle = h ∧
    d.datatype.isSome = true

theorem Record.isSome_follow (h : Handle) (r : Option Record) (field : Option (Field φ))
    (a : Arrival φ) :
    (follow h r (field, a)).isSome = true ↔ r.isSome = true ∨ a.Introduces h := by
  cases a with
  | hello c entry =>
    have hi : Arrival.Introduces h (.hello c entry) ↔
        ∃ d, Descriptor.ofJson entry = .ok d ∧ d.handle = h ∧ d.datatype.isSome = true := by
      constructor
      · rintro ⟨_, _, d, he, hd⟩; cases he; exact ⟨d, hd⟩
      · rintro ⟨d, hd⟩; exact ⟨c, entry, d, rfl, hd⟩
    rw [hi, follow]
    cases Descriptor.ofJson entry with
    | error e => simp
    | ok d =>
      by_cases hd : d.handle = h <;> cases r <;> simp [hd]
  | refresh entry =>
    have hi : ¬ Arrival.Introduces h (.refresh entry : Arrival φ) := by
      rintro ⟨_, _, _, he, -⟩
      cases he
    rw [follow]
    cases Assignment.ofJson entry with
    | error e => simp [hi]
    | ok e => by_cases he : e.handle = h <;> simp [he, hi]
  | edit key text =>
    have hi : ¬ Arrival.Introduces h (.edit key text : Arrival φ) := by
      rintro ⟨_, _, _, he, -⟩
      cases he
    simp [follow, hi]

/-- A variable is stored once one of the arrivals has introduced it. -/
theorem Store.contains_foldl_arrive (s : Store φ) (as : List (Arrival φ)) (h : Handle) :
    (as.foldl arrive s).contains h = true ↔
      s.contains h = true ∨ ∃ a ∈ as, a.Introduces h := by
  induction as generalizing s with
  | nil => simp
  | cons a as ih =>
    have hstep : (s.arrive a).contains h = true ↔ s.contains h = true ∨ a.Introduces h := by
      have hr := Record.isSome_follow h ((s.find? h).map Variable.record)
        ((s.find? h).bind (·.field)) a
      rw [← Arrival.record_act, ← find?_arrive] at hr
      simpa only [contains_eq, Option.isSome_map] using hr
    rw [List.foldl_cons, ih, hstep, or_assoc]
    simp only [List.mem_cons, exists_eq_or_imp]

/-- A store equals the fold of what it was sent. Whatever batches and edits an empty store takes, a
variable is in it if and only if some `hello` entry for its handle had a datatype, and its record is
the left fold of the arrivals, each with the field it found. -/
theorem record_foldl_deliver (ds : List (Delivery φ)) (h : Handle) :
    let s := ds.foldl Store.deliver Store.empty
    let arrivals := ds.flatMap Delivery.arrivals
    (s.contains h = true ↔ ∃ a ∈ arrivals, a.Introduces h) ∧
      (s.find? h).map Variable.record =
        (Store.empty.attended h arrivals).foldl (Record.follow h) none := by
  intro s arrivals
  have hs : s = arrivals.foldl Store.arrive Store.empty := Store.foldl_deliver Store.empty ds
  constructor
  · rw [hs, Store.contains_foldl_arrive]
    have hempty : (Store.empty : Store φ).contains h = false := rfl
    simp only [hempty, Bool.false_eq_true, false_or]
  · rw [hs, Store.record_foldl_arrive]
    rfl

end LivePanel
