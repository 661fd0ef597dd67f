import LivePanel.Command
import LivePanel.Field.Catalog

/-!
One variable: what the server said of it, the last value it sent, and the field that shows it once
there is one. A variable with a field is called rendered.
-/
namespace LivePanel

structure Variable (φ : Type) where
  handle : Handle
  name : String
  datatype : Datatype
  description : Option String
  options : Options
  value : Option Json
  field : Option (Field φ)

namespace Variable

variable {φ : Type}

def rendered (v : Variable φ) : Bool := v.field.isSome

/-- A variable as its first descriptor gives it. It needs a datatype; its name is its handle unless
it has one. -/
def create (d : Descriptor) : Except Issue (Variable φ) :=
  match d.datatype with
  | none => .error (.incomplete (.datatype d.handle))
  | some datatype =>
    .ok {
      handle := d.handle
      name := d.name.getD d.handle.display
      datatype
      description := d.description
      options := d.options.getD []
      value := d.value
      field := none }

/-- Takes over whatever a descriptor carries. -/
def overwrite (v : Variable φ) (d : Descriptor) : Variable φ :=
  { v with
    name := d.name.getD v.name
    datatype := d.datatype.getD v.datatype
    description := d.description.or v.description
    options := d.options.getD v.options
    value := d.value.or v.value }

/-- The datatype a descriptor would wrongly change: that of a rendered variable is fixed. -/
def conflict? (v : Variable φ) (d : Descriptor) : Option Datatype :=
  d.datatype.filter fun t => v.rendered && t != v.datatype

def absorb (v : Variable φ) (d : Descriptor) : Except Issue (Variable φ) :=
  match v.conflict? d with
  | some t => .error (.retyped v.handle v.datatype t)
  | none => .ok (v.overwrite d)

variable [FieldKind φ]

def showing (f : Field φ) : Option Json → Field φ
  | some x => (FieldKind.present f x).1
  | none => f

/-- What a window needs of a variable with the field `f`. -/
def view (v : Variable φ) (f : Field φ) : View where
  handle := v.handle
  name := v.name
  description := v.description
  datatype := v.datatype
  attributes := FieldKind.attributes f
  text := FieldKind.text f

/-- Gives an unrendered variable its field, which shows the value so far if it can. -/
def render (c : Catalog φ) (v : Variable φ) : Except Issue (Variable φ × View) :=
  match c.make? v.datatype v.options with
  | none => .error (.noField v.datatype)
  | some f =>
    let f := showing f v.value
    .ok ({ v with field := some f }, v.view f)

/-- Takes a value from the server. A field has to accept it first; the text it then shows is told.
Without a field the value is just kept. -/
def accept (v : Variable φ) (x : Json) : Variable φ × Except Issue (Option String) :=
  match v.field with
  | none => ({ v with value := some x }, .ok none)
  | some f =>
    match FieldKind.present f x with
    | (f, .ok ()) => ({ v with value := some x, field := some f }, .ok (some (FieldKind.text f)))
    | (f, .error e) => ({ v with field := some f }, .error (.field v.handle e))

/-- The update for what the field holds now. -/
def update? (v : Variable φ) : Except Issue Update :=
  match v.field with
  | none => .error (.noField v.datatype)
  | some f =>
    match FieldKind.value f with
    | .ok x => .ok ⟨v.handle, x⟩
    | .error e => .error (.field v.handle e)

/-- Records what a user typed and reads it. -/
def commit (v : Variable φ) (text : String) : Variable φ × Except Issue Update :=
  let v := { v with field := v.field.map (FieldKind.enter · text) }
  (v, v.update?)

/-- Shows the last value from the server again, if there is one; the text is told if the field
accepts it. -/
def revert (v : Variable φ) : Variable φ × Option String :=
  match v.value, v.field with
  | some x, some f =>
    match FieldKind.present f x with
    | (f, .ok ()) => ({ v with field := some f }, some (FieldKind.text f))
    | (f, .error _) => ({ v with field := some f }, none)
  | _, _ => (v, none)

end Variable
end LivePanel
