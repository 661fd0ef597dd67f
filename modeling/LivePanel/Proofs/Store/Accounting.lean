import LivePanel.Proofs.Store.Display
import LivePanel.Proofs.Store.Endings

/-!
# What comes of a batch

Each entry of a batch comes to a command, to an issue, or to nothing, and to nothing only where there
is nothing to show. Main statements: `mutedHello_iff`, `mutedRefresh_iff`, `accounts_hello` and
`accounts_refresh`.
-/
namespace LivePanel

namespace Outcomes

/-- The issue of one outcome. -/
def issue? : Except Issue (Option Command) → Option Issue
  | .ok _ => none
  | .error e => some e

/-- Whether an outcome is neither a command nor an issue. -/
def mute : Except Issue (Option Command) → Bool
  | .ok none => true
  | .ok (some _) | .error _ => false

theorem mute_iff (o : Except Issue (Option Command)) : mute o = true ↔ o = .ok none := by
  rcases o with e | _ | c <;> simp [mute]

theorem issues_cons (o : Except Issue (Option Command)) (os : Outcomes) :
    issues (o :: os) = (issue? o).toList ++ issues os := by
  cases o <;> rfl

/-- An outcome is one thing out of three. -/
theorem length_told (o : Except Issue (Option Command)) :
    (told o).length + (issue? o).toList.length + (mute o).toNat = 1 := by
  rcases o with e | _ | c <;> rfl

theorem length_eq (os : Outcomes) :
    os.commands.length + os.issues.length + os.countP mute = os.length := by
  induction os with
  | nil => rfl
  | cons o os ih =>
    have hone := length_told o
    have hcount : List.countP mute (o :: os) = List.countP mute os + (mute o).toNat := by
      cases hm : mute o <;> simp [hm]
    rw [commands_cons, issues_cons, hcount, List.length_append, List.length_append, List.length_cons]
    omega

end Outcomes

variable {φ : Type} [FieldKind φ]

/-- Whether a descriptor agrees with a rendered variable but there is no value to show, neither a new
one nor an old one. -/
def Variable.mutes (v : Variable φ) (d : Descriptor) : Bool :=
  v.rendered && v.value.isNone && d.value.isNone && d.datatype.all (· == v.datatype)

namespace Store

/-- Whether a `hello` entry is about a variable that mutes it. -/
def mutedHello (s : Store φ) (entry : Json) : Bool :=
  match Descriptor.ofJson entry with
  | .ok d => (s.find? d.handle).any (·.mutes d)
  | .error _ => false

/-- Whether a `refresh` entry is about a variable that is not rendered. -/
def mutedRefresh (s : Store φ) (entry : Json) : Bool :=
  match Assignment.ofJson entry with
  | .ok e => (s.find? e.handle).any fun v => !v.rendered
  | .error _ => false

omit [FieldKind φ] in
/-- The entries of a `hello` that come to nothing. -/
theorem mutedHello_iff (s : Store φ) (entry : Json) :
    s.mutedHello entry = true ↔ ∃ d v, Descriptor.ofJson entry = .ok d ∧
      s.find? d.handle = some v ∧ v.rendered = true ∧ v.value = none ∧ d.value = none ∧
      ∀ t ∈ d.datatype, t = v.datatype := by
  unfold mutedHello
  cases Descriptor.ofJson entry with
  | error e => simp
  | ok d =>
    cases hv : s.find? d.handle <;> simp [hv, Variable.mutes, and_assoc, Option.all_eq_true]

omit [FieldKind φ] in
theorem mutedRefresh_iff (s : Store φ) (entry : Json) :
    s.mutedRefresh entry = true ↔ ∃ e v, Assignment.ofJson entry = .ok e ∧
      s.find? e.handle = some v ∧ v.rendered = false := by
  unfold mutedRefresh
  cases Assignment.ofJson entry with
  | error e => simp
  | ok e => cases hv : s.find? e.handle <;> simp [hv]

end Store

theorem Variable.Takes.mute_eq {v w : Variable φ} {x : Json} {r : Except Issue (Option Command)}
    (ht : v.Takes x (w, r)) : Outcomes.mute r = !v.rendered := by
  cases ht with
  | kept hf | shown hf | refused hf => simp [rendered, hf, Outcomes.mute]

omit [FieldKind φ] in
theorem Variable.all_datatype_eq {v : Variable φ} (hv : v.rendered = true) (d : Descriptor) :
    d.datatype.all (· == v.datatype) = (v.conflict? d).isNone := by
  cases hd : d.datatype with
  | none => simp [conflict?, hd]
  | some t => by_cases ht : t = v.datatype <;> simp [conflict?, hd, hv, ht, bne]

theorem Descriptor.Ends.mute_eq {c : Catalog φ} {d : Descriptor} {o o' : Option (Variable φ)}
    {r : Except Issue (Option Command)} (he : d.Ends c o (o', r)) :
    Outcomes.mute r = o.any (·.mutes d) := by
  cases he with
  | incomplete => rfl
  | unclaimed hw | rendered hw =>
    cases hw with
    | created => rfl
    | overwritten hf => simp [Outcomes.mute, Variable.mutes, Variable.rendered, hf]
  | retyped hv hc => simp [Outcomes.mute, Variable.mutes, Variable.all_datatype_eq hv, hc]
  | silent hv hc hx =>
    obtain ⟨hd, hv'⟩ := Option.or_eq_none_iff.1 hx
    simp [Outcomes.mute, Variable.mutes, Variable.all_datatype_eq hv, hv, hc, hd, hv']
  | @valued v w x r hv hc hx ht =>
    have hsame : (v.amended d).rendered = v.rendered := rfl
    have hsome : (v.value.isNone && d.value.isNone) = false := by
      cases hd : d.value with
      | some y => simp
      | none =>
        rw [hd, Option.none_or] at hx
        simp [hx]
    rw [ht.mute_eq, hsame, Option.any_some, Variable.mutes, Bool.and_assoc v.rendered, hsome, hv]
    rfl

theorem Assignment.Ends.mute_eq {e : Assignment} {o o' : Option (Variable φ)}
    {r : Except Issue (Option Command)} (he : e.Ends o (o', r)) :
    Outcomes.mute r = o.any fun v => !v.rendered := by
  cases he with
  | unknown => rfl
  | valued ht => exact ht.mute_eq

namespace Store

theorem mute_helloEntry (c : Catalog φ) (s : Store φ) (entry : Json) :
    Outcomes.mute (s.helloEntry c entry).2 = s.mutedHello entry := by
  unfold helloEntry mutedHello
  cases Descriptor.ofJson entry with
  | error e => rfl
  | ok d =>
    rw [alter_snd]
    exact (d.ends_step c (s.find? d.handle)).mute_eq

theorem mute_refreshEntry (s : Store φ) (entry : Json) :
    Outcomes.mute (s.refreshEntry entry).2 = s.mutedRefresh entry := by
  unfold refreshEntry mutedRefresh
  cases Assignment.ofJson entry with
  | error e => rfl
  | ok e =>
    rw [alter_snd]
    exact (e.ends_step (s.find? e.handle)).mute_eq

section

variable (take : Store φ → Json → Store φ × Except Issue (Option Command))

/-- Each entry of a batch with the store that it meets. -/
def met (s : Store φ) : List Json → List (Store φ × Json)
  | [] => []
  | e :: es => (s, e) :: (take s e).1.met es

omit [FieldKind φ] in
theorem map_met (s : Store φ) (entries : List Json) : (s.met take entries).map Prod.snd = entries := by
  induction entries generalizing s with
  | nil => rfl
  | cons e es ih => rw [met, List.map_cons, ih]

omit [FieldKind φ] in
theorem batch_snd (s : Store φ) (entries : List Json) :
    (s.batch take entries).2 = (s.met take entries).map fun m => (take m.1 m.2).2 := by
  induction entries generalizing s with
  | nil => rfl
  | cons e es ih => rw [met, List.map_cons, ← ih, batch]

/-- How the entries of a batch are accounted for. Those that come to nothing are told by `muted`. -/
structure Accounts (s : Store φ) (muted : Store φ → Json → Bool) (entries : List Json) : Prop where
  each : (s.met take entries).map Prod.snd = entries
  /-- Commands and issues come in the order of the entries. -/
  commands : Outcomes.commands (s.batch take entries).2 =
    (s.met take entries).flatMap fun m => Outcomes.told (take m.1 m.2).2
  issues : Outcomes.issues (s.batch take entries).2 =
    (s.met take entries).filterMap fun m => Outcomes.issue? (take m.1 m.2).2
  mute_iff : ∀ m ∈ s.met take entries, muted m.1 m.2 = true ↔ (take m.1 m.2).2 = .ok none
  total : (Outcomes.commands (s.batch take entries).2).length +
    (Outcomes.issues (s.batch take entries).2).length +
    (s.met take entries).countP (fun m => muted m.1 m.2) = entries.length

variable {take}

omit [FieldKind φ] in
theorem accounts_of_mute {muted : Store φ → Json → Bool}
    (hmuted : ∀ s e, Outcomes.mute (take s e).2 = muted s e) (s : Store φ) (entries : List Json) :
    s.Accounts take muted entries := by
  have hcount : (s.batch take entries).2.countP Outcomes.mute =
      (s.met take entries).countP fun m => muted m.1 m.2 := by
    rw [batch_snd, List.countP_map]
    exact congrArg (List.countP · _) (funext fun m => hmuted m.1 m.2)
  have hlength : (s.batch take entries).2.length = entries.length := by
    rw [batch_snd, List.length_map]
    have hentries := congrArg List.length (s.map_met take entries)
    rwa [List.length_map] at hentries
  constructor
  case each => exact s.map_met take entries
  case commands =>
    rw [batch_snd]
    induction s.met take entries with
    | nil => rfl
    | cons m ms ih => rw [List.map_cons, Outcomes.commands_cons, ih, List.flatMap_cons]
  case issues =>
    rw [batch_snd]
    induction s.met take entries with
    | nil => rfl
    | cons m ms ih =>
      rw [List.map_cons, Outcomes.issues_cons, ih, List.filterMap_cons]
      cases Outcomes.issue? (take m.1 m.2).2 <;> rfl
  case mute_iff =>
    intro m _
    rw [← hmuted, Outcomes.mute_iff]
  case total =>
    rw [← hcount, Outcomes.length_eq, hlength]

end

theorem accounts_hello (c : Catalog φ) (s : Store φ) (entries : List Json) :
    s.Accounts (helloEntry c) mutedHello entries :=
  accounts_of_mute (mute_helloEntry c) s entries

theorem accounts_refresh (s : Store φ) (entries : List Json) :
    s.Accounts refreshEntry mutedRefresh entries :=
  accounts_of_mute mute_refreshEntry s entries

end Store
end LivePanel
