import Mathlib.Logic.Relation
import LivePanel.Proofs.Wire.Frames

/-!
# Forms of an entry

An entry is an array of its members or an object of them. Members of different names are read
without regard to one another, so their order does not matter, and a member that leaves a draft as
it is might as well not be there. Main statements: `Parallel.foldlM_perm`,
`Parallel.foldlM_without`, `coherent_descriptor` and `coherent_assignment`.
-/
namespace LivePanel

open Entry

namespace Members

/-- The members but those of one name. -/
def without (name : String) (ms : Members) : Members := ms.filter (·.1 ≠ name)

/-- The object of some members, in which they are kept in the order of their names. -/
def ofList (ms : List (String × Json)) : Members := ms.foldl (fun ms m => insert m.1 m.2 ms) []

theorem without_cons_self (name : String) (v : Json) (ms : Members) :
    without name ((name, v) :: ms) = without name ms :=
  List.filter_cons_of_neg (by simp)

theorem without_cons_of_ne {name : String} {m : String × Json} (h : m.1 ≠ name) (ms : Members) :
    without name (m :: ms) = m :: without name ms :=
  List.filter_cons_of_pos (by simpa using h)

theorem insert_perm {name : String} (v : Json) {ms : Members} (h : name ∉ ms.map Prod.fst) :
    (insert name v ms).Perm ((name, v) :: ms) := by
  induction ms with
  | nil => exact .refl _
  | cons m ms ih =>
    obtain ⟨n, w⟩ := m
    obtain ⟨hne, hms⟩ := List.ne_and_not_mem_of_not_mem_cons h
    rw [insert, if_neg hne]
    split
    · exact .refl _
    · exact ((ih hms).cons (n, w)).trans (.swap (name, v) (n, w) ms)

theorem foldl_insert_perm {ms : List (String × Json)} {before : Members}
    (h : ((ms ++ before).map Prod.fst).Nodup) :
    (ms.foldl (fun ms m => insert m.1 m.2 ms) before).Perm (ms ++ before) := by
  induction ms generalizing before with
  | nil => exact .refl _
  | cons m ms ih =>
    have hmiddle : (ms ++ m :: before).Perm (m :: (ms ++ before)) := List.perm_middle
    have hinsert : (insert m.1 m.2 before).Perm (m :: before) := insert_perm m.2 (by
      simp only [List.cons_append, List.map_cons, List.nodup_cons, List.map_append,
        List.mem_append, not_or] at h
      exact h.1.2)
    have hstep := hinsert.append_left ms
    have hnames : ((ms ++ insert m.1 m.2 before).map Prod.fst).Nodup :=
      ((hstep.trans hmiddle).map Prod.fst).nodup_iff.2 h
    exact (ih hnames).trans (hstep.trans hmiddle)

theorem ofList_perm {ms : List (String × Json)} (h : (ms.map Prod.fst).Nodup) :
    (ofList ms).Perm ms := by
  have hperm : (ofList ms).Perm (ms ++ []) := foldl_insert_perm (by rwa [List.append_nil])
  rwa [List.append_nil] at hperm

end Members

section
variable {δ : Type} {put : δ → String × Json → Except Defect δ}

/-- Whether members of different names can be put into a draft in either order. -/
def Parallel (put : δ → String × Json → Except Defect δ) : Prop :=
  ∀ d x m n, m.1 ≠ n.1 → (put d m >>= (put · n)) = .ok x → (put d n >>= (put · m)) = .ok x

/-- What a member does to a draft hangs on the member alone, and members of different names do not
get in each other's way. -/
theorem parallel_of_sets {sets : String × Json → (δ → δ) → Prop}
    (hput : ∀ d d' m, put d m = .ok d' ↔ ∃ f, sets m f ∧ f d = d')
    (hcomm : ∀ m n f g, sets m f → sets n g → m.1 ≠ n.1 → ∀ d, g (f d) = f (g d)) :
    Parallel put := by
  intro d x m n hne h
  obtain ⟨d₁, hm, hn⟩ := exists_of_bind_eq_ok h
  obtain ⟨f, hf, rfl⟩ := (hput d d₁ m).1 hm
  obtain ⟨g, hg, rfl⟩ := (hput (f d) x n).1 hn
  rw [(hput d (g d) n).2 ⟨g, hg, rfl⟩, hcomm m n f g hf hg hne d]
  exact (hput (g d) _ m).2 ⟨f, hf, rfl⟩

/-- The order of the members does not matter to what is read. -/
theorem Parallel.foldlM_perm (hput : Parallel put) {ms ns : List (String × Json)} (hp : ms.Perm ns)
    (hnames : (ms.map Prod.fst).Nodup) {d x : δ} (h : ms.foldlM put d = .ok x) :
    ns.foldlM put d = .ok x := by
  induction hp generalizing d with
  | nil => exact h
  | cons m _ ih =>
    obtain ⟨d₁, hfirst, hrest⟩ := exists_of_bind_eq_ok h
    rw [List.foldlM_cons, hfirst]
    exact ih (List.nodup_cons.1 hnames).2 hrest
  | swap m n ms =>
    obtain ⟨d₁, hn, h⟩ := exists_of_bind_eq_ok h
    obtain ⟨d₂, hm, hrest⟩ := exists_of_bind_eq_ok h
    have hne : n.1 ≠ m.1 := by
      have hhead := (List.nodup_cons.1 hnames).1
      exact fun he => hhead (by simp [he])
    have hboth := hput d d₂ n m hne (by rw [hn]; exact hm)
    obtain ⟨d₃, hm', hn'⟩ := exists_of_bind_eq_ok hboth
    rw [List.foldlM_cons, hm']
    show List.foldlM put d₃ (n :: ms) = .ok x
    rw [List.foldlM_cons, hn']
    exact hrest
  | trans hfirst _ ih₁ ih₂ => exact ih₂ ((hfirst.map Prod.fst).nodup_iff.1 hnames) (ih₁ hnames h)

/-- Members that leave the draft as it is can be left out, and what is wrong is the same. -/
theorem Parallel.foldlM_without (hput : Parallel put) {name : String} {ms : Members} {d : δ}
    (h : ∀ v, (name, v) ∈ ms → put d (name, v) = .ok d) :
    (ms.without name).foldlM put d = ms.foldlM put d := by
  induction ms generalizing d with
  | nil => rfl
  | cons m ms ih =>
    by_cases hm : m.1 = name
    · obtain ⟨n, v⟩ := m
      obtain rfl : n = name := hm
      rw [Members.without_cons_self, List.foldlM_cons, h v List.mem_cons_self]
      exact ih fun w hw => h w (List.mem_cons_of_mem _ hw)
    · rw [Members.without_cons_of_ne hm, List.foldlM_cons, List.foldlM_cons]
      cases hd : put d m with
      | error e => rfl
      | ok d₁ =>
        refine ih fun v hv => ?_
        -- put in before the member at hand it changes nothing, so neither does it after
        have hbefore := hput d d₁ (name, v) m (Ne.symm hm)
          (by rw [h v (List.mem_cons_of_mem _ hv)]; exact hd)
        rwa [hd] at hbefore

end

theorem toOption_eq_of_ok_iff {α ε : Type} {r t : Except ε α} (h : ∀ a, r = .ok a ↔ t = .ok a) :
    r.toOption = t.toOption := by
  cases hr : r with
  | ok a => rw [(h a).1 hr]
  | error e =>
    cases ht : t with
    | ok a => cases hr.symm.trans ((h a).2 ht)
    | error f => rfl

/-- More is read of what succeeds with the same. -/
theorem bind_eq_ok_of_imp {α β ε : Type} {r t : Except ε α} {f : α → Except ε β} {b : β}
    (h : ∀ a, r = .ok a → t = .ok a) (hr : r.bind f = .ok b) : t.bind f = .ok b := by
  obtain ⟨a, ha, hb⟩ := exists_of_bind_eq_ok hr
  rw [h a ha]
  exact hb

namespace EntryKind

/-- How many members an array has at least. -/
def required : EntryKind → Nat
  | .descriptor => 1
  | .assignment => 2

/-- Whether a null stands for an absent member. -/
def skipsNull : EntryKind → Bool
  | .descriptor => true
  | .assignment => false

/-- The object that has the values of an array under the names of its members. -/
def named (k : EntryKind) (vs : List Json) : Members := .ofList (k.members.zip vs)

theorem nodup_zip (k : EntryKind) (vs : List Json) :
    ((k.members.zip vs).map Prod.fst).Nodup := by
  have hmembers : k.members.Nodup := by cases k <;> decide
  rw [List.zip_eq_zip_take_min, List.map_fst_zip (by simp)]
  exact (List.take_sublist _ _).nodup hmembers

theorem named_perm (k : EntryKind) (vs : List Json) : (k.named vs).Perm (k.members.zip vs) :=
  Members.ofList_perm (k.nodup_zip vs)

/-- How entries of one kind read in their forms. -/
structure Coherent {α : Type} (k : EntryKind) (read : Json → Except Issue α) : Prop where
  /-- An array reads as the object of its values does. -/
  positional : ∀ vs, k.required ≤ vs.length → vs.length ≤ k.members.length →
    ∀ a, read (.array vs) = .ok a ↔ read (.object (k.named vs)) = .ok a
  /-- A member that no entry has does not matter, not even to what is wrong. -/
  unknown : ∀ (ms : Members) name, name ∉ k.members →
    read (.object (ms.without name)) = read (.object ms)
  /-- Nor does a null that stands for an absent member. -/
  null : k.skipsNull = true → ∀ (ms : Members) name, (∀ v, (name, v) ∈ ms → v = .null) →
    read (.object (ms.without name)) = read (.object ms)

/-- One entry is another in a different form. -/
inductive Recasts (k : EntryKind) : Json → Json → Prop where
  | positional {vs : List Json} : k.required ≤ vs.length → vs.length ≤ k.members.length →
      k.Recasts (.array vs) (.object (k.named vs))
  | unknown {ms : Members} {name : String} : name ∉ k.members →
      k.Recasts (.object ms) (.object (ms.without name))
  | null {ms : Members} {name : String} : k.skipsNull = true →
      (∀ v, (name, v) ∈ ms → v = .null) → k.Recasts (.object ms) (.object (ms.without name))

/-- Entries that come from one another by changes of form, in either direction. -/
def Restates (k : EntryKind) : Json → Json → Prop := Relation.EqvGen k.Recasts

theorem Coherent.toOption_eq {α : Type} {k : EntryKind} {read : Json → Except Issue α}
    (hread : k.Coherent read) {e e' : Json} (h : k.Restates e e') :
    (read e).toOption = (read e').toOption := by
  induction h with
  | rel e e' h =>
    cases h with
    | positional hmin hmax => exact toOption_eq_of_ok_iff (hread.positional _ hmin hmax)
    | unknown hname => rw [hread.unknown _ _ hname]
    | null hk hnull => rw [hread.null hk _ _ hnull]
  | refl e => rfl
  | symm e e' _ ih => exact ih.symm
  | trans e e' e'' _ _ ih₁ ih₂ => exact ih₁.trans ih₂

end EntryKind

/-- The members of an array are read as those of its object are. -/
theorem Parallel.foldlM_named_iff {δ : Type} {put : δ → String × Json → Except Defect δ}
    (hput : Parallel put) (k : EntryKind) (vs : List Json) (d x : δ) :
    (k.members.zip vs).foldlM put d = .ok x ↔ (k.named vs).foldlM put d = .ok x := by
  have hperm := k.named_perm vs
  have hnames := k.nodup_zip vs
  constructor
  · exact hput.foldlM_perm hperm.symm hnames
  · exact hput.foldlM_perm hperm ((hperm.map Prod.fst).nodup_iff.2 hnames)

namespace Descriptor

theorem Draft.Sets.comm {m n : String × Json} {f g : Draft → Draft} (hf : Sets m f) (hg : Sets n g)
    (hne : m.1 ≠ n.1) (d : Draft) : g (f d) = f (g d) := by
  cases hf with
  | handle => cases hg with | handle => exact absurd rfl hne | _ => rfl
  | name => cases hg with | name => exact absurd rfl hne | _ => rfl
  | datatype => cases hg with | datatype => exact absurd rfl hne | _ => rfl
  | description => cases hg with | description => exact absurd rfl hne | _ => rfl
  | options => cases hg with | options => exact absurd rfl hne | _ => rfl
  | value => cases hg with | value => exact absurd rfl hne | _ => rfl
  | unknown => rfl

theorem parallel_put : Parallel Draft.put :=
  parallel_of_sets (fun _ _ _ => Draft.put_eq_ok_iff) fun _ _ _ _ hf hg hne => hf.comm hg hne

theorem put_null (name : String) : Draft.put {} (name, .null) = .ok {} := by
  unfold Draft.put
  split <;> rfl

theorem readDraft_array {vs : List Json} (hmin : 1 ≤ vs.length)
    (hmax : vs.length ≤ EntryKind.descriptor.members.length) :
    readDraft (.array vs) = Draft.take (EntryKind.descriptor.members.zip vs) := by
  have hnonempty : vs.isEmpty = false := by
    cases vs with
    | nil => cases hmin
    | cons v vs => rfl
  simp [readDraft, hnonempty, Nat.not_lt.2 hmax]

theorem ofJson_of_readDraft {v w : Json} (h : ∀ d, readDraft v = .ok d → readDraft w = .ok d)
    {d : Descriptor} (hv : ofJson v = .ok d) : ofJson w = .ok d := by
  obtain ⟨draft, hdraft, hd⟩ := exists_of_bind_eq_ok hv
  rw [ofJson, h draft (ok_of_mapError_eq_ok hdraft)]
  exact hd

theorem ofJson_without {ms : Members} {name : String}
    (h : ∀ v, (name, v) ∈ ms → Draft.put {} (name, v) = .ok {}) :
    ofJson (.object (ms.without name)) = ofJson (.object ms) := by
  have hread : readDraft (.object (ms.without name)) = readDraft (.object ms) :=
    parallel_put.foldlM_without h
  rw [ofJson, ofJson, hread]

end Descriptor

theorem coherent_descriptor : EntryKind.descriptor.Coherent Descriptor.ofJson where
  positional vs hmin hmax d := by
    have harray := Descriptor.readDraft_array hmin hmax
    have htake : ∀ x, Descriptor.readDraft (.array vs) = .ok x ↔
        Descriptor.readDraft (.object (EntryKind.descriptor.named vs)) = .ok x := by
      intro x
      rw [harray]
      exact Descriptor.parallel_put.foldlM_named_iff _ vs {} x
    constructor
    · exact Descriptor.ofJson_of_readDraft fun x => (htake x).1
    · exact Descriptor.ofJson_of_readDraft fun x => (htake x).2
  unknown ms name hname := Descriptor.ofJson_without fun v _ =>
    Descriptor.Draft.put_unknown {} hname v
  null _ ms name hnull := Descriptor.ofJson_without fun v hv => by
    rw [hnull v hv]
    exact Descriptor.put_null name

namespace Assignment

/-- What a member does to a draft. -/
inductive Draft.Sets : String × Json → (Draft → Draft) → Prop where
  | handle {v : Json} {h : Handle} : readHandle v = .ok h →
      Sets ("handle", v) fun d => { d with handle := some h }
  | value (v : Json) : Sets ("value", v) fun d => { d with value := some v }
  | unknown {name : String} {v : Json} : name ∉ EntryKind.assignment.members → Sets (name, v) id

theorem Draft.put_unknown (d : Draft) {name : String} (h : name ∉ EntryKind.assignment.members)
    (v : Json) : d.put (name, v) = .ok d := by
  simp only [EntryKind.members, List.mem_cons, List.not_mem_nil, or_false, not_or] at h
  unfold put
  split <;> simp_all

theorem Draft.put_eq_ok_iff {d d' : Draft} {m : String × Json} :
    d.put m = .ok d' ↔ ∃ f, Sets m f ∧ f d = d' := by
  constructor
  · intro h
    obtain ⟨name, v⟩ := m
    unfold put at h
    split at h
    · rename_i hname
      obtain rfl : name = _ := hname
      obtain ⟨x, hx, rfl⟩ := exists_of_map_eq_ok h
      exact ⟨_, .handle hx, rfl⟩
    · rename_i hname
      obtain rfl : name = _ := hname
      exact ⟨_, .value v, Except.ok.inj h⟩
    · have hname : name ∉ EntryKind.assignment.members := by
        simp_all [EntryKind.members]
      exact ⟨id, .unknown hname, Except.ok.inj h⟩
  · rintro ⟨f, hf, rfl⟩
    cases hf with
    | handle hx => exact congrArg (Except.map _) hx
    | value v => rfl
    | unknown hname => exact d.put_unknown hname _

theorem Draft.Sets.comm {m n : String × Json} {f g : Draft → Draft} (hf : Sets m f) (hg : Sets n g)
    (hne : m.1 ≠ n.1) (d : Draft) : g (f d) = f (g d) := by
  cases hf with
  | handle => cases hg with | handle => exact absurd rfl hne | _ => rfl
  | value => cases hg with | value => exact absurd rfl hne | _ => rfl
  | unknown => rfl

theorem parallel_put : Parallel Draft.put :=
  parallel_of_sets (fun _ _ _ => Draft.put_eq_ok_iff) fun _ _ _ _ hf hg hne => hf.comm hg hne

theorem readEntry_array {vs : List Json} (hmin : 2 ≤ vs.length) (hmax : vs.length ≤ 2) :
    readEntry (.array vs) =
      (Draft.take (EntryKind.assignment.members.zip vs)).bind Draft.entry := by
  have hlength : vs.length = EntryKind.assignment.members.length := Nat.le_antisymm hmax hmin
  simp [readEntry, hlength]
  rfl

theorem ofJson_of_readEntry {v w : Json} (h : ∀ e, readEntry v = .ok e → readEntry w = .ok e)
    {e : Assignment} (hv : ofJson v = .ok e) : ofJson w = .ok e := by
  rw [ofJson, h e (ok_of_mapError_eq_ok hv)]
  rfl

end Assignment

theorem coherent_assignment : EntryKind.assignment.Coherent Assignment.ofJson where
  positional vs hmin hmax e := by
    have harray := Assignment.readEntry_array hmin hmax
    have hread : ∀ e, Assignment.readEntry (.array vs) = .ok e ↔
        Assignment.readEntry (.object (EntryKind.assignment.named vs)) = .ok e := by
      intro e
      rw [harray]
      have htake := Assignment.parallel_put.foldlM_named_iff EntryKind.assignment vs {}
      constructor
      · exact bind_eq_ok_of_imp fun d => (htake d).1
      · exact bind_eq_ok_of_imp fun d => (htake d).2
    constructor
    · exact Assignment.ofJson_of_readEntry fun x => (hread x).1
    · exact Assignment.ofJson_of_readEntry fun x => (hread x).2
  unknown ms name hname := by
    have htake : Assignment.Draft.take (ms.without name) = Assignment.Draft.take ms :=
      Assignment.parallel_put.foldlM_without fun v _ => Assignment.Draft.put_unknown {} hname v
    rw [Assignment.ofJson, Assignment.ofJson, Assignment.readEntry, Assignment.readEntry, htake]
  null hk := by cases hk

end LivePanel
