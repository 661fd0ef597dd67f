import LivePanel.Store.Entry

/-!
The variables of a session by their handles. Only `hello` brings variables in, and none ever leaves.
Main statements: `find?_alter_self` and `find?_alter_of_ne`, a step changes the variable it names
and no other.
-/
namespace LivePanel

structure Store (φ : Type) where
  /-- Each variable under its handle, in order of arrival. -/
  table : Table Handle (Variable φ) := .empty

namespace Store

variable {φ : Type}

def empty : Store φ := {}

def find? (s : Store φ) (h : Handle) : Option (Variable φ) := s.table.find? h

def contains (s : Store φ) (h : Handle) : Bool := s.table.contains h

def size (s : Store φ) : Nat := s.table.size

def insert (s : Store φ) (h : Handle) (v : Variable φ) : Store φ := ⟨s.table.insert h v⟩

/-- Does something to the variable of one handle, and passes on what comes of it. -/
def alter {α : Type} (s : Store φ) (h : Handle)
    (f : Option (Variable φ) → Option (Variable φ) × α) : Store φ × α :=
  match f (s.find? h) with
  | (some v, a) => (s.insert h v, a)
  | (none, a) => (s, a)

@[simp] theorem find?_insert_self (s : Store φ) (h : Handle) (v : Variable φ) :
    (s.insert h v).find? h = some v := Table.find?_insert_self s.table h v

theorem find?_insert_of_ne (s : Store φ) {h k : Handle} (hk : k ≠ h) (v : Variable φ) :
    (s.insert h v).find? k = s.find? k := Table.find?_insert_of_ne s.table hk v

theorem find?_alter_of_ne {α : Type} (s : Store φ) {h k : Handle} (hk : k ≠ h)
    (f : Option (Variable φ) → Option (Variable φ) × α) : (s.alter h f).1.find? k = s.find? k := by
  unfold alter
  split
  · exact find?_insert_of_ne s hk _
  · rfl

theorem find?_alter_self {α : Type} (s : Store φ) (h : Handle)
    (f : Option (Variable φ) → Option (Variable φ) × α) :
    (s.alter h f).1.find? h = (f (s.find? h)).1.or (s.find? h) := by
  unfold alter
  split <;> rename_i he <;> simp [he]

/-- A store is as it was if the one variable that was altered is. -/
theorem alter_eq_self {α : Type} {s : Store φ} {h : Handle}
    {f : Option (Variable φ) → Option (Variable φ) × α}
    (hf : (s.alter h f).1.find? h = s.find? h) : (s.alter h f).1 = s := by
  revert hf
  unfold alter
  split
  · intro hf
    rw [find?_insert_self] at hf
    exact congrArg mk (Table.insert_of_find? hf.symm)
  · exact fun _ => rfl

theorem alter_snd {α : Type} (s : Store φ) (h : Handle)
    (f : Option (Variable φ) → Option (Variable φ) × α) : (s.alter h f).2 = (f (s.find? h)).2 := by
  unfold alter
  split <;> rename_i he <;> simp [he]

end Store

/-- What came of each entry of a message: a command, an issue, or nothing. -/
abbrev Outcomes := List (Except Issue (Option Command))

namespace Outcomes

def commands (os : Outcomes) : List Command :=
  os.filterMap fun
    | .ok c => c
    | .error _ => none

def issues (os : Outcomes) : List Issue :=
  os.filterMap fun
    | .ok _ => none
    | .error e => some e

end Outcomes

namespace Store

variable {φ : Type} [FieldKind φ]

/-- Takes a descriptor: its variable is created or changed, then rendered or shown. -/
def helloEntry (c : Catalog φ) (s : Store φ) (entry : Json) :
    Store φ × Except Issue (Option Command) :=
  match Descriptor.ofJson entry with
  | .error e => (s, .error e)
  | .ok d => s.alter d.handle (d.step c)

/-- Takes a value for a variable that exists. -/
def refreshEntry (s : Store φ) (entry : Json) : Store φ × Except Issue (Option Command) :=
  match Assignment.ofJson entry with
  | .error e => (s, .error e)
  | .ok e => s.alter e.handle e.step

/-- One entry after another; each fails on its own. -/
def batch (take : Store φ → Json → Store φ × Except Issue (Option Command)) (s : Store φ) :
    List Json → Store φ × Outcomes
  | [] => (s, [])
  | e :: es =>
    let (s, o) := take s e
    let (s, os) := batch take s es
    (s, o :: os)

def hello (c : Catalog φ) (s : Store φ) (entries : List Json) : Store φ × Outcomes :=
  s.batch (helloEntry c) entries

def refresh (s : Store φ) (entries : List Json) : Store φ × Outcomes :=
  s.batch refreshEntry entries

/-- The stored handle that a window's key stands for. -/
def resolve? (s : Store φ) (key : String) : Option Handle :=
  (Handle.ofKey? key).filter s.contains

/-- Why an edit is refused, and the command that undoes it, if there is a value to go back to. -/
structure Refusal where
  issue : Issue
  restore : Option Command

/-- An edit of one variable: an update, or the last value of the server shown again. -/
def editStep (h : Handle) (text : String) : Option (Variable φ) →
    Option (Variable φ) × Except Refusal Update
  | none => (none, .error ⟨.noVariable h, none⟩)
  | some v =>
    match v.commit text with
    | (v, .ok u) => (some v, .ok u)
    | (v, .error issue) =>
      let (v, shown) := v.revert
      (some v, .error ⟨issue, shown.map (.show h)⟩)

/-- Takes an edit that a window reports under a key. A key that is none counts as a text handle. -/
def edit (s : Store φ) (key text : String) : Store φ × Except Refusal Update :=
  let h := (Handle.ofKey? key).getD (.text key)
  match s.resolve? key with
  | none => (s, .error ⟨.noVariable h, none⟩)
  | some h => s.alter h (editStep h text)

end Store
end LivePanel
