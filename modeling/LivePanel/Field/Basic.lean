import LivePanel.Wire.Datatype

/-!
Fields: the text that presents one variable, and the two ways to write it. `present` shows a value
that the server sent; `enter` records what a user typed, which `value` then reads. Kinds of fields
other than the built-in one are instances of `FieldKind`.
-/
namespace LivePanel

/-- Settings of a variable that its field may use. -/
abbrev Options := Members

inductive FieldFault where
  /-- The text stands for no value of the datatype. -/
  | notAValue : Datatype → (text : String) → FieldFault
  /-- The datatype has no such value. -/
  | unfit : Datatype → (found : String) → FieldFault
  deriving DecidableEq

def FieldFault.message : FieldFault → String
  | .notAValue d text => "'" ++ text ++ "' is not a valid " ++ d.name ++ " value"
  | .unfit d found => "expected " ++ d.name ++ " value but got " ++ found

class FieldKind (φ : Type) where
  datatype : φ → Datatype
  /-- The names of the options it uses. -/
  allowed : φ → List String
  /-- The options it was made with, without those it does not use. -/
  attributes : φ → Options
  text : φ → String
  value : φ → Except FieldFault Json
  /-- Shows a value. A field may change even though it refuses the value. -/
  present : φ → Json → φ × Except FieldFault Unit
  enter : φ → String → φ

/-- There may be no other kinds of fields. -/
instance : FieldKind Empty where
  datatype := nofun
  allowed := nofun
  attributes := nofun
  text := nofun
  value := nofun
  present := nofun
  enter := nofun

end LivePanel
