import LivePanel.Wire.Handle

/-!
# Keys of handles

A key spells one handle, so a window that addresses its rows by keys never takes one variable for
another. More keys are read than are written, for a number may have a plus sign and leading zeros.
Main statements: `ofKey?_key`, `key_injective` and `ofKey?_eq_some_iff`.
-/
namespace LivePanel

theorem readDigits?_eq_some_iff {cs : List Char} {n : Nat} :
    readDigits? cs = some n ↔ cs ≠ [] ∧ (∀ c ∈ cs, isDigit c = true) ∧ ofDigits cs = n := by
  simp [readDigits?, List.all_eq_true, and_assoc]

theorem readDigits?_digits (n : Nat) : readDigits? (digits n) = some n :=
  readDigits?_eq_some_iff.2 ⟨digits_ne_nil n, fun _ => isDigit_of_mem_digits, ofDigits_digits n⟩

theorem readNatBelow?_of_unsigned {bound : Nat} {cs : List Char} (hcs : ∀ ds, cs ≠ '+' :: ds) :
    readNatBelow? bound cs = (readDigits? cs).filter (· < bound) := by
  unfold readNatBelow?
  split
  · exact absurd rfl (hcs _)
  · rfl

/-- A natural number is spelled by digits, with a plus sign or without. -/
theorem readNatBelow?_eq_some_iff {bound n : Nat} {cs : List Char} :
    readNatBelow? bound cs = some n ↔
      ∃ sign ds, sign ∈ [[], ['+']] ∧ cs = sign ++ ds ∧ readDigits? ds = some n ∧ n < bound := by
  -- no digits begin with a sign
  have hunsigned : ∀ ds, readDigits? ('+' :: ds) ≠ some n := by
    intro ds hd
    have hplus := (readDigits?_eq_some_iff.1 hd).2.1 '+' List.mem_cons_self
    exact absurd hplus (by decide)
  by_cases hsigned : ∃ ds, cs = '+' :: ds
  · obtain ⟨ds, rfl⟩ := hsigned
    have hread : readNatBelow? bound ('+' :: ds) = (readDigits? ds).filter (· < bound) := rfl
    rw [hread, Option.filter_eq_some_iff, decide_eq_true_iff]
    constructor
    · exact fun hn => ⟨['+'], ds, by simp, rfl, hn⟩
    · rintro ⟨sign, es, hsign, he, hn⟩
      obtain rfl | rfl : sign = [] ∨ sign = ['+'] := by simpa using hsign
      · exact absurd (he ▸ hn.1) (hunsigned ds)
      · obtain rfl : ds = es := by simpa using he
        exact hn
  · have hcs : ∀ ds, cs ≠ '+' :: ds := fun ds he => hsigned ⟨ds, he⟩
    rw [readNatBelow?_of_unsigned hcs, Option.filter_eq_some_iff, decide_eq_true_iff]
    constructor
    · exact fun hn => ⟨[], cs, by simp, rfl, hn⟩
    · rintro ⟨sign, es, hsign, he, hn⟩
      obtain rfl | rfl : sign = [] ∨ sign = ['+'] := by simpa using hsign
      · exact he ▸ hn
      · exact absurd he (hcs es)

theorem readWord?_eq_some_iff {cs : List Char} {w : UInt64} :
    readWord? cs = some w ↔
      ∃ sign ds, sign ∈ [[], ['+']] ∧ cs = sign ++ ds ∧ ds ≠ [] ∧ (∀ c ∈ ds, isDigit c = true) ∧
        ofDigits ds < UInt64.size ∧ .ofNat (ofDigits ds) = w := by
  rw [readWord?, Option.map_eq_some_iff]
  constructor
  · rintro ⟨n, hn, hw⟩
    obtain ⟨sign, ds, hsign, hcs, hread, hsize⟩ := readNatBelow?_eq_some_iff.1 hn
    obtain ⟨hne, hds, rfl⟩ := readDigits?_eq_some_iff.1 hread
    exact ⟨sign, ds, hsign, hcs, hne, hds, hsize, hw⟩
  · rintro ⟨sign, ds, hsign, hcs, hne, hds, hsize, hw⟩
    have hread := readDigits?_eq_some_iff.2 ⟨hne, hds, rfl⟩
    exact ⟨ofDigits ds, readNatBelow?_eq_some_iff.2 ⟨sign, ds, hsign, hcs, hread, hsize⟩, hw⟩

theorem isDigit_iff {c : Char} : isDigit c = true ↔ '0' ≤ c ∧ c ≤ '9' := by simp [isDigit]

theorem toList_mem_signs_iff {sign : String} : sign.toList ∈ [[], ['+']] ↔ sign ∈ ["", "+"] := by
  have hnil : sign.toList = [] ↔ sign = "" := by
    rw [← String.toList_inj]
    rfl
  have hplus : sign.toList = ['+'] ↔ sign = "+" := by
    rw [← String.toList_inj]
    rfl
  simp only [List.mem_cons, List.not_mem_nil, or_false, hnil, hplus]

/-- The texts that are read as a 64-bit word. -/
theorem readWord?_toList_eq_some_iff {text : String} {w : UInt64} :
    readWord? text.toList = some w ↔
      ∃ sign ds, sign ∈ ["", "+"] ∧ text = sign ++ .ofList ds ∧ ds ≠ [] ∧
        (∀ c ∈ ds, '0' ≤ c ∧ c ≤ '9') ∧ ofDigits ds < UInt64.size ∧ .ofNat (ofDigits ds) = w := by
  simp only [readWord?_eq_some_iff, isDigit_iff]
  constructor
  · rintro ⟨sign, ds, hsign, htext, hds⟩
    rw [← String.toList_ofList (l := sign), toList_mem_signs_iff] at hsign
    exact ⟨.ofList sign, ds, hsign, String.toList_inj.1 (by simp [htext]), hds⟩
  · rintro ⟨sign, ds, hsign, rfl, hds⟩
    exact ⟨sign.toList, ds, toList_mem_signs_iff.2 hsign, by simp, hds⟩

theorem readWord?_digits (n : UInt64) : readWord? (digits n.toNat) = some n := by
  have hvalue : UInt64.ofNat (ofDigits (digits n.toNat)) = n := by
    rw [ofDigits_digits, UInt64.ofNat_toNat]
  have hsize : ofDigits (digits n.toNat) < UInt64.size := by
    rw [ofDigits_digits]
    exact n.toNat_lt
  exact readWord?_eq_some_iff.2 ⟨[], digits n.toNat, by simp, rfl, digits_ne_nil _,
    fun _ => isDigit_of_mem_digits, hsize, hvalue⟩

namespace Handle

/-- A key stands for the handle it was made of. -/
theorem ofKey?_key (h : Handle) : ofKey? h.key = some h := by
  cases h with
  | number n => simp [ofKey?, key, readWord?_digits]
  | text t => simp [ofKey?, key]

theorem key_injective {h k : Handle} (he : h.key = k.key) : h = k := by
  have hk := ofKey?_key k
  rw [← he, ofKey?_key h] at hk
  exact Option.some.inj hk

/-- The keys that stand for a handle: a text has one, a number has as many as it has spellings in
ASCII digits, leading zeros and a plus sign included. -/
inductive Spells : String → Handle → Prop where
  | text (t : String) : Spells ("s:" ++ t) (.text t)
  | number {sign : String} {ds : List Char} : sign ∈ ["", "+"] → ds ≠ [] →
      (∀ c ∈ ds, '0' ≤ c ∧ c ≤ '9') → ofDigits ds < UInt64.size →
      Spells ("n:" ++ sign ++ .ofList ds) (.number (.ofNat (ofDigits ds)))

theorem Spells.ofKey? {key : String} {h : Handle} (hs : Spells key h) :
    Handle.ofKey? key = some h := by
  cases hs with
  | text t => simp [Handle.ofKey?]
  | @number sign ds hsign hne hds hsize =>
    have hchars : ("n:" ++ sign ++ .ofList ds).toList =
        'n' :: ':' :: (sign ++ .ofList ds).toList := by simp
    have hread := readWord?_toList_eq_some_iff.2 ⟨sign, ds, hsign, rfl, hne, hds, hsize, rfl⟩
    simp only [Handle.ofKey?, hchars, hread, Option.map_some]

theorem spells_of_ofKey? {key : String} {h : Handle} (hk : ofKey? key = some h) :
    Spells key h := by
  unfold Handle.ofKey? at hk
  split at hk
  · rename_i cs hcs
    obtain ⟨w, hw, rfl⟩ := Option.map_eq_some_iff.1 hk
    rw [← String.toList_ofList (l := cs)] at hw
    obtain ⟨sign, ds, hsign, htext, hne, hds, hsize, rfl⟩ := readWord?_toList_eq_some_iff.1 hw
    have hkey : key = "n:" ++ .ofList cs := String.toList_inj.1 (by simp [hcs])
    rw [hkey, htext, ← String.append_assoc]
    exact .number hsign hne hds hsize
  · rename_i cs hcs
    obtain rfl := Option.some.inj hk
    have hkey : key = "s:" ++ .ofList cs := String.toList_inj.1 (by simp [hcs])
    rw [hkey]
    exact .text _
  · cases hk

/-- What is read as a handle is what spells it, and nothing else. -/
theorem ofKey?_eq_some_iff {key : String} {h : Handle} : ofKey? key = some h ↔ Spells key h :=
  ⟨spells_of_ofKey?, Spells.ofKey?⟩

/-- The key that stands for a text is the one that is written for it. -/
theorem Spells.eq_key {key t : String} (hs : Spells key (.text t)) : key = (Handle.text t).key := by
  cases hs
  exact String.toList_inj.1 (by simp [Handle.key])

end Handle
end LivePanel
