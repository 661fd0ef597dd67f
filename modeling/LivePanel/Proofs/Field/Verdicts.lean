import LivePanel.Proofs.Field.Label

/-!
# Verdicts of fields

What a field makes of a value: the text that it shows, or the reason why it refuses. Of many kinds of
fields the values shown before do not matter for that, as they do not for the built-in one. Main
statement: `Judging.field`.
-/
namespace LivePanel

variable {φ : Type} [FieldKind φ]

/-- The text that a field shows for a value, or why it refuses the value. -/
def judged (f : φ) (x : Json) : Except FieldFault String :=
  match FieldKind.present f x with
  | (g, .ok ()) => .ok (FieldKind.text g)
  | (_, .error e) => .error e

theorem judged_of_accepted {f g : φ} {x : Json} (hp : FieldKind.present f x = (g, .ok ())) :
    judged f x = .ok (FieldKind.text g) := by rw [judged, hp]

theorem judged_of_refused {f g : φ} {x : Json} {e : FieldFault}
    (hp : FieldKind.present f x = (g, .error e)) : judged f x = .error e := by rw [judged, hp]

/-- A kind of fields that judge a value alone, whatever was shown before. -/
def Judging (φ : Type) [FieldKind φ] : Prop :=
  ∀ (f : φ) (x y : Json), judged (FieldKind.present f x).1 y = judged f y

/-- The built-in field judges by its datatype. -/
theorem NumberField.judged_eq (f : NumberField) (x : Json) : judged f x = valueText f.datatype x := by
  have hp : FieldKind.present f x = f.present x := rfl
  rw [judged, hp, NumberField.present]
  cases valueText f.datatype x <;> rfl

theorem judging_numberField : Judging NumberField := by
  intro f x y
  have hdatatype : (FieldKind.present f x).1.datatype = f.datatype :=
    (lasting_numberField.present f x).datatype
  rw [NumberField.judged_eq, NumberField.judged_eq, hdatatype]

theorem judging_label : Judging Label := by
  intro f x y
  cases x <;> cases y <;> rfl

theorem judged_numeric (f : NumberField) (x : Json) :
    judged (Field.numeric f : Field φ) x = judged f x := by
  have hp : FieldKind.present (Field.numeric f : Field φ) x =
      (FieldKind.present f x).map .numeric id := rfl
  rw [judged, judged, hp]
  rcases FieldKind.present f x with ⟨g, e | _⟩ <;> rfl

theorem judged_custom (f : φ) (x : Json) : judged (Field.custom f) x = judged f x := by
  have hp : FieldKind.present (Field.custom f) x = (FieldKind.present f x).map .custom id := rfl
  rw [judged, judged, hp]
  rcases FieldKind.present f x with ⟨g, e | _⟩ <;> rfl

/-- The built-in field is judging by itself. -/
theorem Judging.field (judging : Judging φ) : Judging (Field φ) := by
  intro f x y
  cases f with
  | numeric f =>
    change judged (Field.numeric (FieldKind.present f x).1 : Field φ) y = _
    rw [judged_numeric, judged_numeric, judging_numberField]
  | custom f =>
    change judged (Field.custom (FieldKind.present f x).1) y = _
    rw [judged_custom, judged_custom, judging]

theorem Judging.judged_eq (judging : Judging φ) {f g : Field φ} {x : Json}
    {r : Except FieldFault Unit} (hp : FieldKind.present f x = (g, r)) : judged g = judged f := by
  funext y
  have hsame := judging.field f x y
  rwa [hp] at hsame

end LivePanel
