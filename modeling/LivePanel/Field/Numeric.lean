import LivePanel.Field.Basic
import LivePanel.Json.Printer
import LivePanel.Number.Entered

/-!
The built-in field: a number typed as text. Integers are held to signed 64-bit words; every other
datatype takes any finite double.
-/
namespace LivePanel

structure NumberField where
  datatype : Datatype
  attributes : Options
  text : String

namespace NumberField

def allowed : List String := ["min", "max", "step"]

def make (d : Datatype) (options : Options) : NumberField := ⟨d, options.keep allowed, ""⟩

/-- The number that a text stands for, blanks at its ends aside. -/
def readNumber? (d : Datatype) (cs : List Char) : Option Number :=
  match d with
  | .integer => ((readInt64? cs).bind Whole.ofInt?).map .whole
  | _ => (readReal? cs).map .real

def value (f : NumberField) : Except FieldFault Json :=
  let typed := trim f.text.toList
  match readNumber? f.datatype typed with
  | some n => .ok (.number n)
  | none => .error (.notAValue f.datatype (.ofList typed))

/-- The integer that a number is, if a signed 64-bit word holds it; else what is wrong with it. -/
def integral : Number → Except String Int
  | .whole n => if n.val < powerOfTwo 63 then .ok n.val else .error "integer beyond i64 range"
  | .real x =>
    match x.whole? with
    | some n => if n.natAbs < powerOfTwo 63 then .ok n else .error "fractional number"
    | none => .error "fractional number"

/-- The text that shows a number. -/
def numberText (d : Datatype) (n : Number) : Except String (List Char) :=
  match d with
  | .integer => (integral n).map signedDigits
  | _ => .ok n.text

/-- The text that shows a value; only numbers can be shown. -/
def valueText (d : Datatype) (v : Json) : Except FieldFault String :=
  match v with
  | .number n =>
    match numberText d n with
    | .ok cs => .ok (.ofList cs)
    | .error found => .error (.unfit d found)
  | v => .error (.unfit d v.kind)

/-- A refused value leaves the field as it was. -/
def present (f : NumberField) (v : Json) : NumberField × Except FieldFault Unit :=
  match valueText f.datatype v with
  | .ok text => ({ f with text }, .ok ())
  | .error e => (f, .error e)

end NumberField

instance : FieldKind NumberField where
  datatype := NumberField.datatype
  allowed _ := NumberField.allowed
  attributes := NumberField.attributes
  text := NumberField.text
  value := NumberField.value
  present := NumberField.present
  enter f text := { f with text }

/-- A field of the built-in kind or of another kind. -/
inductive Field (φ : Type) where
  | numeric : NumberField → Field φ
  | custom : φ → Field φ

instance {φ : Type} [FieldKind φ] : FieldKind (Field φ) where
  datatype
    | .numeric f => FieldKind.datatype f
    | .custom f => FieldKind.datatype f
  allowed
    | .numeric f => FieldKind.allowed f
    | .custom f => FieldKind.allowed f
  attributes
    | .numeric f => FieldKind.attributes f
    | .custom f => FieldKind.attributes f
  text
    | .numeric f => FieldKind.text f
    | .custom f => FieldKind.text f
  value
    | .numeric f => FieldKind.value f
    | .custom f => FieldKind.value f
  present
    | .numeric f, v => (FieldKind.present f v).map .numeric id
    | .custom f, v => (FieldKind.present f v).map .custom id
  enter
    | .numeric f, s => .numeric (FieldKind.enter f s)
    | .custom f, s => .custom (FieldKind.enter f s)

end LivePanel
