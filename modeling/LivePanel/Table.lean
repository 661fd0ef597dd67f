/-!
Finite tables: one value for each key, in order of first arrival. Main statements:
`find?_insert_self` and `find?_insert_of_ne`, writing under one key leaves the others alone, and
`keys_insert`, it adds at most that key.
-/
namespace LivePanel

structure Table (κ ν : Type) where
  entries : List (κ × ν)
  distinct : (entries.map Prod.fst).Nodup

namespace Table

variable {κ ν : Type}

def empty : Table κ ν := ⟨[], .nil⟩

def keys (t : Table κ ν) : List κ := t.entries.map Prod.fst

def size (t : Table κ ν) : Nat := t.entries.length

@[simp] theorem length_keys (t : Table κ ν) : t.keys.length = t.size := by simp [keys, size]

theorem keys_nodup (t : Table κ ν) : t.keys.Nodup := t.distinct

variable [DecidableEq κ]

def find? (t : Table κ ν) (k : κ) : Option ν := t.entries.lookup k

def contains (t : Table κ ν) (k : κ) : Bool := (t.find? k).isSome

/-- Puts a pair in the place of the one with its key, or at the end. -/
def put (k : κ) (v : ν) : List (κ × ν) → List (κ × ν)
  | [] => [(k, v)]
  | (l, w) :: rest => if k = l then (k, v) :: rest else (l, w) :: put k v rest

theorem keys_put (k : κ) (v : ν) (es : List (κ × ν)) :
    (put k v es).map Prod.fst =
      if k ∈ es.map Prod.fst then es.map Prod.fst else es.map Prod.fst ++ [k] := by
  induction es with
  | nil => simp [put]
  | cons e es ih =>
    obtain ⟨l, w⟩ := e
    by_cases h : k = l
    · simp [put, h]
    · simp only [put, h, if_false, List.map_cons, ih, List.mem_cons, false_or]
      split <;> simp

theorem nodup_put (k : κ) (v : ν) {es : List (κ × ν)} (h : (es.map Prod.fst).Nodup) :
    ((put k v es).map Prod.fst).Nodup := by
  rw [keys_put]
  split
  · exact h
  · rename_i hk
    rw [List.nodup_append]
    exact ⟨h, by simp, by simp only [List.mem_singleton]; rintro a ha b rfl rfl; exact hk ha⟩

theorem lookup_put_self (k : κ) (v : ν) (es : List (κ × ν)) :
    (put k v es).lookup k = some v := by
  induction es with
  | nil => simp [put]
  | cons e es ih =>
    obtain ⟨l, w⟩ := e
    by_cases h : k = l
    · simp [put, h]
    · simp [put, h, List.lookup_cons, ih, beq_eq_false_iff_ne.2 h]

theorem lookup_put_of_ne {k l : κ} (h : l ≠ k) (v : ν) (es : List (κ × ν)) :
    (put k v es).lookup l = es.lookup l := by
  induction es with
  | nil => simp [put, List.lookup_cons, beq_eq_false_iff_ne.2 h]
  | cons e es ih =>
    obtain ⟨m, w⟩ := e
    by_cases hm : k = m
    · subst hm; simp [put, List.lookup_cons, beq_eq_false_iff_ne.2 h]
    · simp [put, hm, List.lookup_cons, ih]

theorem put_of_lookup {k : κ} {v : ν} {es : List (κ × ν)} (h : es.lookup k = some v) :
    put k v es = es := by
  induction es with
  | nil => cases h
  | cons e es ih =>
    obtain ⟨l, w⟩ := e
    by_cases hk : k = l
    · subst hk
      simp only [List.lookup_cons, beq_self_eq_true, Option.some.injEq] at h
      simp [put, h]
    · rw [List.lookup_cons, beq_eq_false_iff_ne.2 hk] at h
      simp [put, hk, ih h]

theorem mem_keys_iff_lookup (k : κ) (es : List (κ × ν)) :
    k ∈ es.map Prod.fst ↔ (es.lookup k).isSome = true := by
  induction es with
  | nil => simp
  | cons e es ih =>
    obtain ⟨l, w⟩ := e
    by_cases h : k = l
    · simp [h]
    · simp only [List.map_cons, List.mem_cons, h, false_or, List.lookup_cons,
        beq_eq_false_iff_ne.2 h, ih]

/-- Writes a value under a key. -/
def insert (t : Table κ ν) (k : κ) (v : ν) : Table κ ν :=
  ⟨put k v t.entries, nodup_put k v t.distinct⟩

@[simp] theorem find?_empty (k : κ) : (empty : Table κ ν).find? k = none := rfl

@[simp] theorem find?_insert_self (t : Table κ ν) (k : κ) (v : ν) :
    (t.insert k v).find? k = some v := lookup_put_self k v t.entries

theorem find?_insert_of_ne (t : Table κ ν) {k l : κ} (h : l ≠ k) (v : ν) :
    (t.insert k v).find? l = t.find? l := lookup_put_of_ne h v t.entries

/-- Writing what is there already changes nothing. -/
theorem insert_of_find? {t : Table κ ν} {k : κ} {v : ν} (h : t.find? k = some v) :
    t.insert k v = t := by
  simp only [insert, put_of_lookup h]

theorem keys_insert (t : Table κ ν) (k : κ) (v : ν) :
    (t.insert k v).keys = if k ∈ t.keys then t.keys else t.keys ++ [k] := keys_put k v t.entries

/-- The keys are those that are found. -/
theorem mem_keys_iff (t : Table κ ν) (k : κ) : k ∈ t.keys ↔ t.contains k = true :=
  mem_keys_iff_lookup k t.entries

end Table
end LivePanel
