import LivePanel.Proofs.Store.Display

/-!
# The life of a field

A field is typed in and shown values. What that changes is its text; the built-in field changes in
nothing else. Main statements: `text_enter`, `survives_of_refused`, `rewords`,
`Lasting.alike_of_descends` and `Plain.shown?_of_descends`.
-/
namespace LivePanel

/-- A value changes nothing of the built-in field but its text; if it is refused not even that. -/
theorem NumberField.present_cases (f : NumberField) (x : Json) :
    (∃ text, f.present x = ({ f with text }, .ok ())) ∨ ∃ e, f.present x = (f, .error e) := by
  unfold present
  cases valueText f.datatype x with
  | ok text => exact .inl ⟨text, rfl⟩
  | error e => exact .inr ⟨e, rfl⟩

variable {φ : Type} [FieldKind φ]

/-- Fields of the same datatype, with the same attributes. -/
structure Alike (f g : φ) : Prop where
  datatype : FieldKind.datatype g = FieldKind.datatype f
  attributes : FieldKind.attributes g = FieldKind.attributes f

theorem Alike.trans {f g k : φ} (hg : Alike f g) (hk : Alike g k) : Alike f k where
  datatype := hk.datatype.trans hg.datatype
  attributes := hk.attributes.trans hg.attributes

/-- A kind of fields that keep the datatype and the attributes they are made with, whatever is shown
and typed. -/
structure Lasting (φ : Type) [FieldKind φ] : Prop where
  present : ∀ (f : φ) (x : Json), Alike f (FieldKind.present f x).1
  enter : ∀ (f : φ) (text : String), Alike f (FieldKind.enter f text)

theorem lasting_numberField : Lasting NumberField where
  present f x := by
    change Alike f (f.present x).1
    obtain ⟨text, hp⟩ | ⟨e, hp⟩ := f.present_cases x <;> rw [hp] <;> exact ⟨rfl, rfl⟩
  enter _ _ := ⟨rfl, rfl⟩

/-- The built-in field is lasting by itself. -/
theorem Lasting.field (lasting : Lasting φ) : Lasting (Field φ) := by
  constructor
  case present =>
    intro f x
    cases f with
    | numeric f =>
      have hf := lasting_numberField.present f x
      exact ⟨hf.datatype, hf.attributes⟩
    | custom f =>
      have hf := lasting.present f x
      exact ⟨hf.datatype, hf.attributes⟩
  case enter =>
    intro f text
    cases f with
    | numeric f => exact ⟨rfl, rfl⟩
    | custom f =>
      have hf := lasting.enter f text
      exact ⟨hf.datatype, hf.attributes⟩

namespace Field

/-- A field that keeps what is typed as its text. The built-in field does; of another kind it has to
be known. -/
def Literal : Field φ → Prop
  | .numeric _ => True
  | .custom f => ∀ text, FieldKind.text (FieldKind.enter f text) = text

theorem Literal.text_enter {f : Field φ} (hf : f.Literal) (text : String) :
    FieldKind.text (FieldKind.enter f text) = text := by
  cases f with
  | numeric f => rfl
  | custom f => exact hf text

/-- A field that is not changed by a value it refuses. The built-in field is one; of another kind it
has to be known. -/
def Firm : Field φ → Prop
  | .numeric _ => True
  | .custom f => ∀ x e, (FieldKind.present f x).2 = .error e → (FieldKind.present f x).1 = f

theorem Firm.present_eq {f g : Field φ} (hf : f.Firm) {x : Json} {e : FieldFault}
    (hp : FieldKind.present f x = (g, .error e)) : g = f := by
  cases f with
  | numeric n =>
    change (n.present x).map .numeric id = (g, .error e) at hp
    obtain ⟨text, hn⟩ | ⟨e', hn⟩ := n.present_cases x <;> rw [hn] at hp
    · cases hp
    · exact (congrArg Prod.fst hp).symm
  | custom f =>
    change (FieldKind.present f x).map .custom id = (g, .error e) at hp
    have herror : (FieldKind.present f x).2 = .error e := congrArg Prod.snd hp
    rw [← hf x e herror]
    exact (congrArg Prod.fst hp).symm

/-- What a refused value leaves of a field: its text, the datatype and the attributes if the field is
lasting, and all of it if the field is firm. -/
structure Survives (f g : Field φ) : Prop where
  text : FieldKind.text g = FieldKind.text f
  lasting : Lasting φ → Alike f g
  firm : f.Firm → g = f

theorem survives_of_refused (steady : Steady φ) {f g : Field φ} {x : Json} {e : FieldFault}
    (hp : FieldKind.present f x = (g, .error e)) : f.Survives g := by
  constructor
  case text =>
    have htext := steady.field f x e (by rw [hp])
    rwa [hp] at htext
  case lasting =>
    intro lasting
    have halike := lasting.field.present f x
    rwa [hp] at halike
  case firm => exact fun hf => hf.present_eq hp

/-- The same field later on, whatever values were shown in it and texts were typed. -/
inductive Descends (f : Field φ) : Field φ → Prop where
  | same : f.Descends f
  | presented {g : Field φ} (x : Json) : f.Descends g → f.Descends (FieldKind.present g x).1
  | entered {g : Field φ} (text : String) : f.Descends g → f.Descends (FieldKind.enter g text)

theorem Descends.trans {f g k : Field φ} (hg : f.Descends g) (hk : g.Descends k) :
    f.Descends k := by
  induction hk with
  | same => exact hg
  | presented x _ ih => exact ih.presented x
  | entered text _ ih => exact ih.entered text

theorem descends_present {f f' : Field φ} {x : Json} {r : Except FieldFault Unit}
    (hp : FieldKind.present f x = (f', r)) : f.Descends f' := by
  have hd : f.Descends (FieldKind.present f x).1 := Descends.same.presented x
  rwa [hp] at hd

end Field

theorem Lasting.alike_of_descends (lasting : Lasting φ) {f g : Field φ} (hd : f.Descends g) :
    Alike f g := by
  induction hd with
  | same => exact ⟨rfl, rfl⟩
  | presented x _ ih => exact ih.trans (lasting.field.present _ x)
  | entered text _ ih => exact ih.trans (lasting.field.enter _ text)

namespace Field

/-- The same field with perhaps another text. Of the built-in field all else stays; one of another
kind has only been typed in and shown values, which leaves a lasting field its datatype and its
attributes. -/
inductive Rewords : Field φ → Field φ → Prop where
  | numeric (f : NumberField) (text : String) : Rewords (.numeric f) (.numeric { f with text })
  | custom {f : φ} {g : Field φ} : (Field.custom f).Descends g →
      (Lasting φ → Alike (Field.custom f) g) → Rewords (.custom f) g

/-- Whatever is typed and shown, the built-in field changes its text alone. -/
theorem Descends.rewords {f g : Field φ} (hd : f.Descends g) : f.Rewords g := by
  cases f with
  | custom f => exact .custom hd fun lasting => lasting.alike_of_descends hd
  | numeric n =>
    -- so far the field is `n` with some text
    induction hd with
    | same => exact .numeric n n.text
    | presented x _ ih =>
      cases ih with
      | numeric _ text =>
        change (Field.numeric n).Rewords (.numeric (({ n with text } : NumberField).present x).1)
        obtain ⟨shown, hn⟩ | ⟨e, hn⟩ := ({ n with text } : NumberField).present_cases x <;> rw [hn]
        · exact .numeric n shown
        · exact .numeric n text
    | entered typed _ ih =>
      cases ih with
      | numeric _ text => exact .numeric n typed

end Field

/-- The text that a field shows for a value, if it accepts the value. -/
def shown? (f : φ) (x : Json) : Option String :=
  match FieldKind.present f x with
  | (g, .ok ()) => some (FieldKind.text g)
  | (_, .error _) => none

theorem shown?_of_accepted {f g : φ} {x : Json} (hp : FieldKind.present f x = (g, .ok ())) :
    shown? f x = some (FieldKind.text g) := by rw [shown?, hp]

theorem shown?_of_refused {f g : φ} {x : Json} {e : FieldFault}
    (hp : FieldKind.present f x = (g, .error e)) : shown? f x = none := by rw [shown?, hp]

/-- A kind of fields that show a value by the same text whatever was shown and typed before. -/
structure Plain (φ : Type) [FieldKind φ] : Prop where
  present : ∀ (f : φ) (x y : Json), shown? (FieldKind.present f x).1 y = shown? f y
  enter : ∀ (f : φ) (text : String) (y : Json), shown? (FieldKind.enter f text) y = shown? f y

/-- The built-in field goes by its datatype. -/
theorem NumberField.shown?_eq (f : NumberField) (x : Json) :
    shown? f x = (valueText f.datatype x).toOption := by
  have hp : FieldKind.present f x = f.present x := rfl
  rw [shown?, hp, NumberField.present]
  cases valueText f.datatype x <;> rfl

theorem plain_numberField : Plain NumberField where
  present f x y := by
    have hdatatype : (FieldKind.present f x).1.datatype = f.datatype :=
      (lasting_numberField.present f x).datatype
    rw [NumberField.shown?_eq, NumberField.shown?_eq, hdatatype]
  enter f text y := by rw [NumberField.shown?_eq, NumberField.shown?_eq]; rfl

theorem shown?_numeric (f : NumberField) (x : Json) :
    shown? (Field.numeric f : Field φ) x = shown? f x := by
  have hp : FieldKind.present (Field.numeric f : Field φ) x =
      (FieldKind.present f x).map .numeric id := rfl
  rw [shown?, shown?, hp]
  rcases FieldKind.present f x with ⟨g, e | _⟩ <;> rfl

theorem shown?_custom (f : φ) (x : Json) : shown? (Field.custom f) x = shown? f x := by
  have hp : FieldKind.present (Field.custom f) x = (FieldKind.present f x).map .custom id := rfl
  rw [shown?, shown?, hp]
  rcases FieldKind.present f x with ⟨g, e | _⟩ <;> rfl

/-- The built-in field is plain by itself. -/
theorem Plain.field (plain : Plain φ) : Plain (Field φ) := by
  constructor
  case present =>
    intro f x y
    cases f with
    | numeric f =>
      change shown? (Field.numeric (FieldKind.present f x).1 : Field φ) y = _
      rw [shown?_numeric, shown?_numeric, plain_numberField.present]
    | custom f =>
      change shown? (Field.custom (FieldKind.present f x).1) y = _
      rw [shown?_custom, shown?_custom, plain.present]
  case enter =>
    intro f text y
    cases f with
    | numeric f =>
      change shown? (Field.numeric (FieldKind.enter f text) : Field φ) y = _
      rw [shown?_numeric, shown?_numeric, plain_numberField.enter]
    | custom f =>
      change shown? (Field.custom (FieldKind.enter f text)) y = _
      rw [shown?_custom, shown?_custom, plain.enter]

theorem Plain.shown?_of_descends (plain : Plain φ) {f g : Field φ} (hd : f.Descends g) (x : Json) :
    shown? g x = shown? f x := by
  induction hd with
  | same => rfl
  | presented y _ ih => rw [plain.field.present, ih]
  | entered text _ ih => rw [plain.field.enter, ih]

/-- A kind of fields that accept or refuse a value whatever was shown and typed before. -/
structure Impartial (φ : Type) [FieldKind φ] : Prop where
  present : ∀ (f : φ) (x y : Json),
    (shown? (FieldKind.present f x).1 y).isSome = (shown? f y).isSome
  enter : ∀ (f : φ) (text : String) (y : Json),
    (shown? (FieldKind.enter f text) y).isSome = (shown? f y).isSome

theorem Plain.impartial (plain : Plain φ) : Impartial φ where
  present f x y := congrArg Option.isSome (plain.present f x y)
  enter f text y := congrArg Option.isSome (plain.enter f text y)

namespace Field

/-- Whether a field is of a kind that is impartial. The built-in field is; of another kind it has to
be known. -/
def Impartial : Field φ → Prop
  | .numeric _ => True
  | .custom _ => LivePanel.Impartial φ

/-- Whatever is shown and typed, a field remains of its kind. -/
theorem Descends.impartial_iff {f g : Field φ} (hd : f.Descends g) :
    g.Impartial ↔ f.Impartial := by
  induction hd with
  | same => exact Iff.rfl
  | @presented g x _ ih =>
    rw [← ih]
    cases g <;> exact Iff.rfl
  | @entered g text _ ih =>
    rw [← ih]
    cases g <;> exact Iff.rfl

theorem Impartial.present {f : Field φ} (hf : f.Impartial) (x y : Json) :
    (shown? (FieldKind.present f x).1 y).isSome = (shown? f y).isSome := by
  cases f with
  | numeric f =>
    change (shown? (Field.numeric (FieldKind.present f x).1 : Field φ) y).isSome = _
    rw [shown?_numeric, shown?_numeric, plain_numberField.present]
  | custom f =>
    have hkind : LivePanel.Impartial φ := hf
    change (shown? (Field.custom (FieldKind.present f x).1) y).isSome = _
    rw [shown?_custom, shown?_custom, hkind.present]

theorem Impartial.enter {f : Field φ} (hf : f.Impartial) (text : String) (y : Json) :
    (shown? (FieldKind.enter f text) y).isSome = (shown? f y).isSome := by
  cases f with
  | numeric f =>
    change (shown? (Field.numeric (FieldKind.enter f text) : Field φ) y).isSome = _
    rw [shown?_numeric, shown?_numeric, plain_numberField.enter]
  | custom f =>
    have hkind : LivePanel.Impartial φ := hf
    change (shown? (Field.custom (FieldKind.enter f text)) y).isSome = _
    rw [shown?_custom, shown?_custom, hkind.enter]

theorem Impartial.of_descends {f g : Field φ} (hf : f.Impartial) (hd : f.Descends g) (y : Json) :
    (shown? g y).isSome = (shown? f y).isSome := by
  induction hd with
  | same => rfl
  | presented x hd ih => rw [(hd.impartial_iff.2 hf).present, ih]
  | entered text hd ih => rw [(hd.impartial_iff.2 hf).enter, ih]

end Field

end LivePanel
