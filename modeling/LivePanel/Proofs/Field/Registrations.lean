import Mathlib.Data.List.Dedup
import LivePanel.Proofs.Field.Catalog
import LivePanel.Store.Variable

/-!
# Registrations

What a catalog makes of a datatype, told from the registrations alone, in whatever order they came:
the last maker that was registered for it counts, and where there is none the built-in field fills the
gap if it was ever installed. Main statements: `find?_foldl_of_unlisted`, `contains_foldl_enroll` and
`catalog_follows`.
-/
namespace LivePanel

/-- What a host can do to a catalog. -/
inductive Registration (φ : Type) where
  | maker : (ds : List Datatype) → Maker φ → Registration φ
  /-- The built-in field, for the numeric datatypes that nobody has claimed. -/
  | numeric : Registration φ

variable {φ : Type}

namespace Registration

/-- Whether a maker is registered for a datatype. -/
def Lists (d : Datatype) : Registration φ → Prop
  | .maker ds _ => d ∈ ds
  | .numeric => False

def isNumeric : Registration φ → Bool
  | .maker .. => false
  | .numeric => true

/-- The datatypes that are claimed afterwards, whoever claims them. -/
def datatypes : Registration φ → List Datatype
  | .maker ds _ => ds
  | .numeric => Datatype.numeric

theorem any_isNumeric {rs : List (Registration φ)} :
    rs.any isNumeric = true ↔ .numeric ∈ rs := by
  rw [List.any_eq_true]
  constructor
  · rintro ⟨r, hr, hn⟩
    cases r with
    | maker => cases hn
    | numeric => exact hr
  · exact fun h => ⟨.numeric, h, rfl⟩

end Registration

namespace Catalog

def enroll (c : Catalog φ) : Registration φ → Catalog φ
  | .maker ds m => c.register ds m
  | .numeric => c.installNumeric

/-- The built-in field takes a numeric datatype that has no maker, and leaves the makers there are. -/
theorem find?_installNumeric (c : Catalog φ) (d : Datatype) :
    c.installNumeric.makers.find? d =
      (c.makers.find? d).or (if d ∈ Datatype.numeric then some numericMaker else none) := by
  rw [installNumeric, find?_register]
  cases hc : c.makers.find? d with
  | none =>
    have hfree : c.contains d = false := by rw [contains, Table.contains, hc]; rfl
    simp [hfree]
  | some m =>
    have htaken : c.contains d = true := by rw [contains, Table.contains, hc]; rfl
    simp [htaken]

/-- As long as nobody registers a maker for a datatype, it keeps the one it has; if it has none, the
built-in field is what it can get. -/
theorem find?_foldl_of_unlisted (c : Catalog φ) {rs : List (Registration φ)} {d : Datatype}
    (hrs : ∀ r ∈ rs, ¬ r.Lists d) :
    (rs.foldl enroll c).makers.find? d =
      (c.makers.find? d).or
        (if rs.any Registration.isNumeric = true ∧ d ∈ Datatype.numeric then some numericMaker
          else none) := by
  induction rs generalizing c with
  | nil => simp
  | cons r rs ih =>
    rw [List.foldl_cons, ih _ fun r' hr' => hrs r' (List.mem_cons_of_mem r hr')]
    cases r with
    | maker ds m =>
      have hd : d ∉ ds := hrs _ List.mem_cons_self
      rw [enroll, find?_register, if_neg hd, List.any_cons, Registration.isNumeric,
        Bool.false_or]
    | numeric =>
      rw [enroll, find?_installNumeric, Option.or_assoc, List.any_cons, Registration.isNumeric,
        Bool.true_or]
      by_cases hd : d ∈ Datatype.numeric <;> simp [hd]

theorem make?_of_last {c : Catalog φ} {ds : List Datatype} {m : Maker φ}
    {later : List (Registration φ)} {d : Datatype} (hd : d ∈ ds)
    (hlater : ∀ r ∈ later, ¬ r.Lists d) (options : Options) :
    (later.foldl enroll (c.register ds m)).make? d options = some (m d options) := by
  rw [make?, find?_foldl_of_unlisted _ hlater, find?_register, if_pos hd]
  rfl

theorem make?_of_unlisted {rs : List (Registration φ)} {d : Datatype}
    (hrs : ∀ r ∈ rs, ¬ r.Lists d) (options : Options) :
    (rs.foldl enroll empty).make? d options =
      if rs.any Registration.isNumeric = true ∧ d ∈ Datatype.numeric then
        some (.numeric (.make d options))
      else none := by
  have hnone : (empty : Catalog φ).makers.find? d = none := rfl
  rw [make?, find?_foldl_of_unlisted _ hrs, hnone, Option.none_or]
  split <;> rfl

theorem contains_enroll (c : Catalog φ) (r : Registration φ) (d : Datatype) :
    (c.enroll r).contains d = (decide (d ∈ r.datatypes) || c.contains d) := by
  cases r with
  | maker ds m => exact c.contains_register ds m d
  | numeric => exact c.contains_installNumeric d

/-- Nothing that was claimed is ever given up. -/
theorem contains_foldl_enroll (c : Catalog φ) (rs : List (Registration φ)) (d : Datatype) :
    (rs.foldl enroll c).contains d =
      (decide (d ∈ rs.flatMap Registration.datatypes) || c.contains d) := by
  induction rs generalizing c with
  | nil => simp
  | cons r rs ih =>
    rw [List.foldl_cons, ih, contains_enroll, List.flatMap_cons]
    simp [Bool.or_assoc, Bool.or_comm]

theorem contains_foldl_empty (rs : List (Registration φ)) (d : Datatype) :
    (rs.foldl enroll empty).contains d = true ↔ d ∈ rs.flatMap Registration.datatypes := by
  have hnone : (empty : Catalog φ).contains d = false := rfl
  rw [contains_foldl_enroll, hnone, Bool.or_false, decide_eq_true_iff]

/-- As many datatypes are claimed as were named by the registrations, each counted once. -/
theorem size_foldl_enroll (rs : List (Registration φ)) :
    (rs.foldl enroll empty).size = (rs.flatMap Registration.datatypes).dedup.length := by
  have hsame : (rs.foldl enroll empty).makers.keys.Perm
      (rs.flatMap Registration.datatypes).dedup := by
    rw [List.perm_ext_iff_of_nodup (Table.keys_nodup _) (List.nodup_dedup _)]
    intro d
    rw [Table.mem_keys_iff, List.mem_dedup]
    exact contains_foldl_empty rs d
  rw [size, ← Table.length_keys, hsame.length_eq]

/-- Once installed, the built-in field finds nothing more to claim. -/
theorem installNumeric_installNumeric (c : Catalog φ) :
    c.installNumeric.installNumeric = c.installNumeric := by
  have hnone : (Datatype.numeric.filter fun d => !c.installNumeric.contains d) = [] := by
    rw [List.filter_eq_nil_iff]
    intro d hd
    simp [contains_installNumeric, hd]
  rw [installNumeric, hnone]
  rfl

theorem make?_installNumeric {c : Catalog φ} {d : Datatype} (hd : c.contains d = true)
    (options : Options) : c.installNumeric.make? d options = c.make? d options := by
  obtain ⟨m, hm⟩ := Option.isSome_iff_exists.1 hd
  have hm' : c.makers.find? d = some m := hm
  rw [make?, make?, find?_installNumeric, hm']
  rfl

section
variable [FieldKind φ]

/-- A catalog does what the history of its registrations says. -/
structure Follows (c : Catalog φ) (rs : List (Registration φ)) : Prop where
  /-- The last maker that was registered for a datatype makes its fields. -/
  last : ∀ earlier ds m later, rs = earlier ++ .maker ds m :: later → ∀ d ∈ ds,
    (∀ r ∈ later, ¬ r.Lists d) → ∀ options, c.make? d options = some (m d options)
  /-- Where nobody registered a maker, the built-in field is made, if it was installed at all. -/
  numeric : ∀ d ∈ Datatype.numeric, (∀ r ∈ rs, ¬ r.Lists d) → .numeric ∈ rs →
    ∀ options, c.make? d options = some (.numeric (.make d options))
  unclaimed : ∀ d, (∀ r ∈ rs, ¬ r.Lists d) → ¬ (d ∈ Datatype.numeric ∧ .numeric ∈ rs) →
    ∀ options, c.make? d options = none
  /-- Without a field a variable is not rendered, and its datatype is named. -/
  refused : ∀ v : Variable φ, c.make? v.datatype v.options = none ↔
    v.render c = .error (.noField v.datatype)
  contains_iff : ∀ d options, c.contains d = true ↔ (c.make? d options).isSome = true
  size_eq : c.size = (rs.flatMap Registration.datatypes).dedup.length
  idempotent : c.installNumeric.installNumeric = c.installNumeric
  /-- What is claimed when the built-in field is installed is made as before. -/
  kept : ∀ d, c.contains d = true → ∀ options,
    c.installNumeric.make? d options = c.make? d options
  /-- Once it was installed, no numeric datatype is without a field. -/
  complete : .numeric ∈ rs → ∀ d ∈ Datatype.numeric, c.contains d = true

theorem follows_foldl_enroll (rs : List (Registration φ)) : (rs.foldl enroll empty).Follows rs := by
  constructor
  case last =>
    rintro earlier ds m later rfl d hd hlater options
    rw [List.foldl_append]
    exact make?_of_last hd hlater options
  case numeric =>
    intro d hd hrs hinstalled options
    rw [make?_of_unlisted hrs, if_pos ⟨Registration.any_isNumeric.2 hinstalled, hd⟩]
  case unclaimed =>
    intro d hrs hnot options
    rw [make?_of_unlisted hrs, if_neg fun h => hnot ⟨h.2, Registration.any_isNumeric.1 h.1⟩]
  case refused =>
    intro v
    rw [Variable.render]
    cases (rs.foldl enroll empty).make? v.datatype v.options <;> simp
  case contains_iff =>
    intro d options
    rw [isSome_make?]
  case size_eq => exact size_foldl_enroll rs
  case idempotent => exact installNumeric_installNumeric _
  case kept => exact fun d hd options => make?_installNumeric hd options
  case complete =>
    intro hinstalled d hd
    rw [contains_foldl_empty, List.mem_flatMap]
    exact ⟨.numeric, hinstalled, hd⟩

end
end Catalog

/-- The catalog is a map in which the last registration wins and the built-in field only fills gaps.
Whatever is registered and installed, and in whatever order, it does what the history says, which for
the default catalog begins with the built-in field. -/
theorem catalog_follows {φ : Type} [FieldKind φ] (rs : List (Registration φ)) :
    (rs.foldl Catalog.enroll .empty).Follows rs ∧
      (rs.foldl Catalog.enroll .withNumeric).Follows (.numeric :: rs) :=
  ⟨Catalog.follows_foldl_enroll rs, Catalog.follows_foldl_enroll (.numeric :: rs)⟩

end LivePanel
