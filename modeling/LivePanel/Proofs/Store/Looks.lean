import LivePanel.Proofs.Store.Isolation
import LivePanel.Proofs.Store.Record
import LivePanel.Proofs.Store.Rendering

/-!
# What can be seen of a store

What can be seen of a variable is what it is said to be, its last value and the text of its field.
Stores that look alike after some arrivals differ at most inside fields of other kinds than the
built-in one. Main statement: `resembles_foldl_arrive`.
-/
namespace LivePanel

namespace Table

variable {κ ν : Type} [DecidableEq κ]

theorem ext_lookup {es fs : List (κ × ν)}
    (hkeys : es.map Prod.fst = fs.map Prod.fst) (hes : (es.map Prod.fst).Nodup)
    (hlookup : ∀ k ∈ es.map Prod.fst, es.lookup k = fs.lookup k) : es = fs := by
  induction es generalizing fs with
  | nil => exact (List.map_eq_nil_iff.1 hkeys.symm).symm
  | cons e es ih =>
    obtain ⟨l, w⟩ := e
    cases fs with
    | nil => cases hkeys
    | cons f fs =>
      obtain ⟨m, w'⟩ := f
      obtain ⟨hl, hrest⟩ := List.cons.inj hkeys
      obtain rfl : l = m := hl
      rw [List.map_cons, List.nodup_cons] at hes
      have hw : w = w' := by simpa using hlookup l List.mem_cons_self
      rw [hw, ih hrest hes.2]
      intro k hk
      have hne : k ≠ l := fun h => hes.1 (h ▸ hk)
      have hlater := hlookup k (List.mem_cons_of_mem l hk)
      rwa [List.lookup_cons, List.lookup_cons, beq_eq_false_iff_ne.2 hne] at hlater

/-- A table is given by its keys and what is found under them. -/
theorem eq_of_find?_eq {t u : Table κ ν} (hkeys : t.keys = u.keys)
    (hfind : ∀ k, t.find? k = u.find? k) : t = u := by
  have hentries : t.entries = u.entries := ext_lookup hkeys t.distinct fun k _ => hfind k
  obtain ⟨es, _⟩ := t
  obtain ⟨fs, _⟩ := u
  cases hentries
  rfl

theorem keys_prefix_insert (t : Table κ ν) (k : κ) (v : ν) : t.keys <+: (t.insert k v).keys := by
  rw [keys_insert]
  split
  · exact List.prefix_rfl
  · exact List.prefix_append _ _

/-- A table that was only added to and has the same keys has them in the same order. -/
theorem keys_eq_of_grown {t u : Table κ ν} (hgrown : t.keys <+: u.keys)
    (hcontains : ∀ k, u.contains k = t.contains k) : u.keys = t.keys := by
  have hmem : ∀ k, k ∈ u.keys ↔ k ∈ t.keys := by
    intro k
    rw [mem_keys_iff, mem_keys_iff, hcontains]
  have hperm : u.keys.Perm t.keys := (List.perm_ext_iff_of_nodup u.keys_nodup t.keys_nodup).2 hmem
  exact (hgrown.eq_of_length hperm.length_eq.symm).symm

end Table

/-- What can be seen of a variable. -/
structure Look where
  handle : Handle
  record : Record
  text? : Option String

variable {φ : Type} [FieldKind φ]

def Variable.look (v : Variable φ) : Look := ⟨v.handle, v.record, v.text?⟩

/-- The built-in field is its look, as long as it is the same field. -/
theorem Field.Descends.eq_of_text {n : NumberField} {g : Field φ}
    (hd : (Field.numeric n : Field φ).Descends g) (ht : FieldKind.text g = n.text) :
    g = .numeric n := by
  cases hd.rewords with
  | numeric _ text =>
    obtain rfl : text = n.text := ht
    rfl

namespace Variable

omit [FieldKind φ] in
theorem ext_record {v w : Variable φ} (hhandle : w.handle = v.handle)
    (hrecord : w.record = v.record) (hfield : w.field = v.field) : w = v := by
  obtain ⟨handle, name, datatype, description, options, value, field⟩ := v
  obtain ⟨handle', name', datatype', description', options', value', field'⟩ := w
  cases hhandle
  cases hfield
  cases hrecord
  rfl

theorem eq_of_look_of_unrendered {v w : Variable φ} (hl : w.look = v.look) (hv : v.field = none) :
    w = v := by
  have htext : w.text? = v.text? := congrArg Look.text? hl
  have hfield : w.field = v.field := by
    rw [text?, text?, hv, Option.map_none, Option.map_eq_none_iff] at htext
    rw [htext, hv]
  exact ext_record (congrArg Look.handle hl) (congrArg Look.record hl) hfield

theorem eq_of_look_of_numeric {v w : Variable φ} (hl : w.look = v.look) {n : NumberField}
    (hv : v.field = some (.numeric n)) (hkeeps : KeepsField (some v) (some w)) : w = v := by
  obtain ⟨u, g, hu, hg, hd⟩ := hkeeps v _ rfl hv
  obtain rfl := Option.some.inj hu
  have htext : w.text? = v.text? := congrArg Look.text? hl
  rw [text?, text?, hg, hv] at htext
  have hfield : w.field = v.field := by
    rw [hg, hv, hd.eq_of_text (Option.some.inj htext)]
  exact ext_record (congrArg Look.handle hl) (congrArg Look.record hl) hfield

end Variable

namespace Store

/-- A store that is as another one was before, for all that can be seen of it. -/
structure Resembles (s t : Store φ) : Prop where
  keys : t.table.keys = s.table.keys
  look : ∀ h, (t.find? h).map Variable.look = (s.find? h).map Variable.look
  /-- Fields are the same ones as before. -/
  keeps : ∀ h, KeepsField (s.find? h) (t.find? h)
  unrendered : ∀ h v, s.find? h = some v → v.field = none → t.find? h = some v
  numeric : ∀ h v n, s.find? h = some v → v.field = some (.numeric n) → t.find? h = some v
  /-- With fields of no other kind than the built-in one it is the same store. -/
  same : (∀ h v f, s.find? h = some v → v.field = some f → ∃ n, f = .numeric n) → t = s

omit [FieldKind φ] in
theorem keys_prefix_alter {α : Type} (s : Store φ) (h : Handle)
    (f : Option (Variable φ) → Option (Variable φ) × α) :
    s.table.keys <+: (s.alter h f).1.table.keys := by
  unfold alter
  split
  · exact s.table.keys_prefix_insert h _
  · exact List.prefix_rfl

theorem keys_prefix_arrive (s : Store φ) (a : Arrival φ) :
    s.table.keys <+: (s.arrive a).table.keys := by
  cases a with
  | hello c entry =>
    rw [arrive, helloEntry]
    cases Descriptor.ofJson entry with
    | error e => exact List.prefix_rfl
    | ok d => exact s.keys_prefix_alter d.handle _
  | refresh entry =>
    rw [arrive, refreshEntry]
    cases Assignment.ofJson entry with
    | error e => exact List.prefix_rfl
    | ok e => exact s.keys_prefix_alter e.handle _
  | edit key text =>
    rw [arrive, edit]
    cases s.resolve? key with
    | none => exact List.prefix_rfl
    | some h => exact s.keys_prefix_alter h _

theorem keys_prefix_foldl_arrive (s : Store φ) (as : List (Arrival φ)) :
    s.table.keys <+: (as.foldl arrive s).table.keys := by
  induction as generalizing s with
  | nil => exact List.prefix_rfl
  | cons a as ih => exact (s.keys_prefix_arrive a).trans (ih (s.arrive a))

/-- A variable that looks as it did, with a field that went on, is as it was unless its field is of
another kind than the built-in one. -/
theorem find?_eq_of_look {o o' : Option (Variable φ)}
    (hlook : o'.map Variable.look = o.map Variable.look) (hkeeps : KeepsField o o')
    (ho : ∀ v f, o = some v → v.field = some f → ∃ n, f = .numeric n) : o' = o := by
  cases o with
  | none => exact Option.map_eq_none_iff.1 hlook
  | some v =>
    obtain ⟨w, rfl, hl⟩ := Option.map_eq_some_iff.1 hlook
    cases hf : v.field with
    | none => rw [Variable.eq_of_look_of_unrendered hl hf]
    | some f =>
      obtain ⟨n, rfl⟩ := ho v f rfl hf
      rw [Variable.eq_of_look_of_numeric hl hf hkeeps]

/-- After some arrivals a store is as it was if all of its variables look as they did. -/
theorem resembles_foldl_arrive {s : Store φ} {as : List (Arrival φ)}
    (hlook : ∀ h, ((as.foldl arrive s).find? h).map Variable.look =
      (s.find? h).map Variable.look) : s.Resembles (as.foldl arrive s) := by
  have hkeeps := s.keeps_field as
  have hkeys : (as.foldl arrive s).table.keys = s.table.keys := by
    refine Table.keys_eq_of_grown (s.keys_prefix_foldl_arrive as) fun h => ?_
    have hl := congrArg Option.isSome (hlook h)
    rwa [Option.isSome_map, Option.isSome_map] at hl
  constructor
  case keys => exact hkeys
  case look => exact hlook
  case keeps => exact hkeeps
  case unrendered =>
    intro h v hv hf
    rw [← hv]
    refine find?_eq_of_look (hlook h) (hkeeps h) fun u f hu hfu => ?_
    obtain rfl := Option.some.inj (hv.symm.trans hu)
    rw [hf] at hfu
    cases hfu
  case numeric =>
    intro h v n hv hf
    rw [← hv]
    refine find?_eq_of_look (hlook h) (hkeeps h) fun u f hu hfu => ⟨n, ?_⟩
    obtain rfl := Option.some.inj (hv.symm.trans hu)
    exact Option.some.inj (hfu.symm.trans hf)
  case same =>
    intro hnumeric
    have hfind : ∀ h, (as.foldl arrive s).find? h = s.find? h := fun h =>
      find?_eq_of_look (hlook h) (hkeeps h) (hnumeric h)
    generalize as.foldl arrive s = t at hkeys hfind ⊢
    obtain ⟨table⟩ := s
    obtain ⟨table'⟩ := t
    exact congrArg Store.mk (Table.eq_of_find?_eq hkeys hfind)

end Store
end LivePanel
