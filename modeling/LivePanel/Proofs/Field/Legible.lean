import LivePanel.Proofs.Field.Label
import LivePanel.Proofs.Number.Entered

/-!
# Fields that read what they show

The text that a field shows for a value can be typed in it, and then stands for a value. The built-in
field is of that kind. Main statements: `legible_numberField` and `Legible.field`.
-/
namespace LivePanel

/-- A kind of fields that read the texts they show. -/
def Legible (φ : Type) [FieldKind φ] : Prop :=
  ∀ (f : φ) (x : Json) (text : String), shown? f x = some text →
    ∃ y, FieldKind.value (FieldKind.enter f text) = .ok y

namespace Number

theorem trim_text (n : Number) : trim n.text = n.text := by
  cases n with
  | whole n => exact trim_signedDigits n.val
  | real x => exact x.trim_text

/-- Every number can be read as a double, the whole ones rounded. -/
theorem isSome_readReal?_text (n : Number) : (readReal? n.text).isSome = true := by
  cases n with
  | whole n =>
    have hword : powerOfTwo 64 = 18446744073709551616 := rfl
    have hlower := n.lower
    have hupper := n.upper
    exact isSome_readReal?_signedDigits (by omega)
  | real x =>
    rw [text, x.readReal?_text]
    rfl

theorem text_ne_nil (n : Number) : n.text ≠ [] := by
  intro htext
  have hread := n.isSome_readReal?_text
  rw [htext] at hread
  exact absurd hread (by decide)

end Number

namespace NumberField

/-- What counts as an integer is held by a signed 64-bit word. -/
theorem integral_bounds {n : Number} {m : Int} (h : integral n = .ok m) :
    -(powerOfTwo 63 : Int) ≤ m ∧ m < powerOfTwo 63 := by
  have hword : (powerOfTwo 63 : Int) = 9223372036854775808 := rfl
  cases n with
  | whole n =>
    rw [integral] at h
    split at h
    · obtain rfl := Except.ok.inj h
      have hlower := n.lower
      omega
    · cases h
  | real x =>
    rw [integral] at h
    split at h
    · split at h
      · obtain rfl := Except.ok.inj h
        omega
      · cases h
    · cases h

theorem isSome_readNumber?_signedDigits {m : Int} (hlow : -(powerOfTwo 63 : Int) ≤ m)
    (hhigh : m < powerOfTwo 63) : (readNumber? .integer (signedDigits m)).isSome = true := by
  have hword : (powerOfTwo 63 : Int) = 9223372036854775808 := rfl
  have hwhole : -9223372036854775808 ≤ m ∧ m < 18446744073709551616 := by omega
  rw [readNumber?, readInt64?_signedDigits hlow hhigh, Option.bind_some, Whole.ofInt?, dif_pos hwhole]
  rfl

theorem readNumber?_of_ne_integer {d : Datatype} (hd : d ≠ .integer) (cs : List Char) :
    readNumber? d cs = (readReal? cs).map .real := by
  cases d <;> first | rfl | exact absurd rfl hd

theorem numberText_of_ne_integer {d : Datatype} (hd : d ≠ .integer) (n : Number) :
    numberText d n = .ok n.text := by
  cases d <;> first | rfl | exact absurd rfl hd

/-- A number is read from the text that shows it, blanks or not. -/
theorem isSome_readNumber?_numberText {d : Datatype} {n : Number} {cs : List Char}
    (h : numberText d n = .ok cs) : (readNumber? d (trim cs)).isSome = true := by
  by_cases hd : d = .integer
  · subst hd
    rw [numberText] at h
    cases hm : integral n with
    | error found =>
      rw [hm] at h
      cases h
    | ok m =>
      rw [hm] at h
      obtain rfl := Except.ok.inj h
      obtain ⟨hlow, hhigh⟩ := integral_bounds hm
      rw [trim_signedDigits]
      exact isSome_readNumber?_signedDigits hlow hhigh
  · rw [numberText_of_ne_integer hd] at h
    obtain rfl := Except.ok.inj h
    rw [readNumber?_of_ne_integer hd, n.trim_text, Option.isSome_map]
    exact n.isSome_readReal?_text

theorem exists_numberText {d : Datatype} {x : Json} {text : String} (h : valueText d x = .ok text) :
    ∃ n cs, numberText d n = .ok cs ∧ text = .ofList cs := by
  cases x with
  | number n =>
    cases hn : numberText d n with
    | ok cs =>
      simp only [valueText, hn] at h
      exact ⟨n, cs, hn, (Except.ok.inj h).symm⟩
    | error found =>
      simp only [valueText, hn] at h
      cases h
  | _ => cases h

end NumberField

theorem legible_numberField : Legible NumberField := by
  intro f x text hshown
  rw [NumberField.shown?_eq] at hshown
  cases hx : NumberField.valueText f.datatype x with
  | error e =>
    rw [hx] at hshown
    cases hshown
  | ok shown =>
    rw [hx] at hshown
    obtain rfl : shown = text := Option.some.inj hshown
    obtain ⟨n, cs, hn, rfl⟩ := NumberField.exists_numberText hx
    have hread := NumberField.isSome_readNumber?_numberText hn
    obtain ⟨m, hm⟩ := Option.isSome_iff_exists.1 hread
    refine ⟨.number m, ?_⟩
    change NumberField.value { f with text := .ofList cs } = _
    simp only [NumberField.value, String.toList_ofList, hm]

variable {φ : Type} [FieldKind φ]

/-- The built-in field is legible by itself. -/
theorem Legible.field (legible : Legible φ) : Legible (Field φ) := by
  intro f x text hshown
  cases f with
  | numeric f =>
    rw [shown?_numeric] at hshown
    exact legible_numberField f x text hshown
  | custom f =>
    rw [shown?_custom] at hshown
    exact legible f x text hshown

theorem Json.write_ne_nil (v : Json) : v.write ≠ [] := by
  cases v with
  | null => simp [write]
  | bool b => cases b <;> simp [write, boolText]
  | number n =>
    rw [write]
    exact n.text_ne_nil
  | string s => simp [write, stringText]
  | array vs => simp [write]
  | object ms => simp [write]

theorem Json.text_ne_empty (v : Json) : v.text ≠ "" := by
  intro htext
  have hlist := congrArg String.toList htext
  rw [text, String.toList_ofList] at hlist
  exact v.write_ne_nil hlist

theorem legible_label : Legible Label := by
  intro f x text hshown
  have htext : text = x.text := by
    cases x with
    | null => cases hshown
    | _ => exact (Option.some.inj hshown).symm
  have hne : text ≠ "" := htext ▸ x.text_ne_empty
  exact ⟨.string text, if_neg hne⟩

end LivePanel
