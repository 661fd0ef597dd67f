import LivePanel.Field.Catalog

/-!
# Claims on datatypes

Which maker a catalog has for a datatype after registrations, and whether the fields it makes are of
the datatype it was asked for. Main statements: `find?_register`, `contains_installNumeric` and
`Apt.register`.
-/
namespace LivePanel

namespace Catalog

variable {φ : Type}

theorem find?_foldl_insert (ds : List Datatype) (m : Maker φ) (makers : Table Datatype (Maker φ))
    (d : Datatype) :
    (ds.foldl (fun makers d => makers.insert d m) makers).find? d =
      if d ∈ ds then some m else makers.find? d := by
  induction ds generalizing makers with
  | nil => rfl
  | cons e ds ih =>
    rw [List.foldl_cons, ih]
    by_cases hd : d ∈ ds
    · rw [if_pos hd, if_pos (List.mem_cons_of_mem e hd)]
    · by_cases he : d = e
      · subst he
        rw [if_neg hd, Table.find?_insert_self, if_pos List.mem_cons_self]
      · rw [if_neg hd, Table.find?_insert_of_ne _ he, if_neg]
        simp [he, hd]

/-- The last registration for a datatype counts, and others are as before. -/
theorem find?_register (c : Catalog φ) (ds : List Datatype) (m : Maker φ) (d : Datatype) :
    (c.register ds m).makers.find? d = if d ∈ ds then some m else c.makers.find? d :=
  find?_foldl_insert ds m c.makers d

theorem contains_register (c : Catalog φ) (ds : List Datatype) (m : Maker φ) (d : Datatype) :
    (c.register ds m).contains d = (decide (d ∈ ds) || c.contains d) := by
  unfold contains Table.contains
  rw [find?_register]
  by_cases hd : d ∈ ds <;> simp [hd]

/-- A field is made for a datatype if and only if somebody has claimed it. -/
theorem isSome_make? (c : Catalog φ) (d : Datatype) (options : Options) :
    (c.make? d options).isSome = c.contains d := by
  rw [make?, Option.isSome_map]
  rfl

/-- The built-in field leaves no numeric datatype unclaimed. -/
theorem contains_installNumeric (c : Catalog φ) (d : Datatype) :
    c.installNumeric.contains d = (decide (d ∈ Datatype.numeric) || c.contains d) := by
  rw [installNumeric, contains_register]
  cases h : c.contains d <;> simp [h]

theorem size_ne_zero_of_contains {c : Catalog φ} {d : Datatype} (h : c.contains d = true) :
    c.size ≠ 0 := by
  have hmem : d ∈ c.makers.keys := (c.makers.mem_keys_iff d).2 h
  have hpos := List.length_pos_of_mem hmem
  rw [Table.length_keys] at hpos
  exact Nat.pos_iff_ne_zero.1 hpos

theorem size_installNumeric_ne_zero (c : Catalog φ) : c.installNumeric.size ≠ 0 := by
  apply size_ne_zero_of_contains (d := .integer)
  rw [contains_installNumeric]
  rfl

end Catalog

section
variable {φ : Type} [FieldKind φ]

/-- Whether a maker that is asked for one of some datatypes makes a field of that datatype. -/
def Maker.Apt (m : Maker φ) (ds : List Datatype) : Prop :=
  ∀ d ∈ ds, ∀ options, FieldKind.datatype (m d options) = d

namespace Catalog

/-- Whether every field that is made is of the datatype that was asked for. -/
def Apt (c : Catalog φ) : Prop :=
  ∀ d options f, c.make? d options = some f → FieldKind.datatype f = d

theorem apt_empty : (empty : Catalog φ).Apt := by
  intro d options f hf
  cases hf

theorem Apt.register {c : Catalog φ} (hc : c.Apt) {ds : List Datatype} {m : Maker φ}
    (hm : m.Apt ds) : (c.register ds m).Apt := by
  intro d options f hf
  rw [make?, find?_register] at hf
  by_cases hd : d ∈ ds
  · rw [if_pos hd] at hf
    cases hf
    exact hm d hd options
  · rw [if_neg hd] at hf
    exact hc d options f hf

theorem Apt.installNumeric {c : Catalog φ} (hc : c.Apt) : c.installNumeric.Apt :=
  hc.register fun _ _ _ => rfl

end Catalog
end
end LivePanel
