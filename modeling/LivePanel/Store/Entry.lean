import LivePanel.Store.Variable

/-!
What one entry does to the one variable it names, which may not exist yet. Everything that a message
does to a store is made of these steps.
-/
namespace LivePanel

/-- The variable afterwards, if there is one, and what comes of the entry. -/
abbrev Step (φ : Type) := Option (Variable φ) × Except Issue (Option Command)

namespace Variable

variable {φ : Type} [FieldKind φ]

/-- Takes a value from the server and says what to show. -/
def refresh (v : Variable φ) (x : Json) : Variable φ × Except Issue (Option Command) :=
  let (v', r) := v.accept x
  (v', r.map fun text => text.map (.show v.handle))

/-- Renders a variable that is not; it stays as it is when no field presents its datatype. -/
def reveal (c : Catalog φ) (v : Variable φ) : Variable φ × Except Issue (Option Command) :=
  match v.render c with
  | .ok (v, view) => (v, .ok (some (.render view)))
  | .error e => (v, .error e)

/-- A descriptor for an unrendered variable: all it carries is taken over before rendering. -/
def introduce (c : Catalog φ) (v : Variable φ) (d : Descriptor) :
    Variable φ × Except Issue (Option Command) :=
  (v.overwrite d).reveal c

/-- A descriptor for a rendered variable. Its value is held back until the rest is taken over; then
it is shown, or else the value so far. -/
def amend (v : Variable φ) (d : Descriptor) : Variable φ × Except Issue (Option Command) :=
  match v.absorb { d with value := none } with
  | .error e => (v, .error e)
  | .ok v =>
    match d.value.or v.value with
    | some x => v.refresh x
    | none => (v, .ok none)

end Variable

variable {φ : Type} [FieldKind φ]

def Descriptor.step (c : Catalog φ) (d : Descriptor) : Option (Variable φ) → Step φ
  | none =>
    match Variable.create d with
    | .error e => (none, .error e)
    | .ok v => (v.reveal c).map some id
  | some v => (if v.rendered then v.amend d else v.introduce c d).map some id

def Assignment.step (e : Assignment) : Option (Variable φ) → Step φ
  | none => (none, .error (.noVariable e.handle))
  | some v => (v.refresh e.value).map some id

end LivePanel
