import Mathlib.Algebra.Order.Field.Rat
import LivePanel.Proofs.Field.Legible
import LivePanel.Proofs.Field.Lifetime

/-!
# Fields for integers

A number has one exact value, however it is written: a whole number its own, a double a fraction.
A field for integers takes a number if that value is an integer that a signed 64-bit word holds, the
double at the lower end apart, and then shows and reads that integer. Main statements:
`integral_iff`, `integer_presented_iff` and `integer_shown_and_read`.
-/
namespace LivePanel

namespace Whole

theorem ext {v w : Whole} (h : v.val = w.val) : v = w := by
  obtain ⟨m, hm⟩ := v
  obtain rfl : m = w.val := h
  rfl

theorem ofInt?_eq_some_iff {m : Int} {w : Whole} : ofInt? m = some w ↔ m = w.val := by
  rw [ofInt?]
  split
  · rw [Option.some_inj]
    exact ⟨fun h => congrArg val h, fun h => ext h⟩
  case isFalse hm =>
    refine iff_of_false (fun h => by cases h) fun h => hm ?_
    exact h ▸ ⟨w.lower, w.upper⟩

end Whole

/-- What a double stands for, as a fraction. -/
def Binary64.exact (x : Binary64) : ℚ :=
  (if x.negative then -(x.units : Int) else x.units : Int) / powerOfTwo 1074

/-- What a number stands for, however it is written. -/
def Number.exact : Number → ℚ
  | .whole n => n.val
  | .real x => x.exact

theorem Number.whole_ne_real (w : Whole) (x : Binary64) : Number.whole w ≠ .real x := by
  intro h
  cases h

namespace Binary64

variable {x : Binary64} {m : Int}

theorem exact_eq_iff :
    x.exact = m ↔ (if x.negative then -(x.units : Int) else x.units) = m * powerOfTwo 1074 := by
  have hgrid := powerOfTwo_pos 1074
  rw [exact]
  generalize powerOfTwo 1074 = grid at hgrid ⊢
  have hne : (grid : ℚ) ≠ 0 := by exact_mod_cast hgrid.ne'
  rw [div_eq_iff hne]
  exact_mod_cast Iff.rfl

/-- A double has a whole value just if that is its exact value. -/
theorem whole?_eq_some_iff : x.whole? = some m ↔ x.exact = m := by
  have hgrid := powerOfTwo_pos 1074
  rw [exact_eq_iff, whole?]
  generalize powerOfTwo 1074 = grid at hgrid ⊢
  generalize x.units = units
  have hgrid' : (grid : Int) ≠ 0 := by omega
  split
  case isTrue hmod =>
    obtain ⟨size, rfl⟩ := Nat.dvd_of_mod_eq_zero hmod
    have hsize : ((grid * size : Nat) : Int) / grid = size := by
      rw [Nat.cast_mul, Int.mul_ediv_cancel_left _ hgrid']
    dsimp only
    rw [hsize, Option.some_inj, Nat.cast_mul, mul_comm (grid : Int)]
    cases x.negative with
    | false =>
      rw [if_neg Bool.false_ne_true, if_neg Bool.false_ne_true, mul_left_inj' hgrid']
    | true => rw [if_pos rfl, if_pos rfl, ← neg_mul, mul_left_inj' hgrid']
  case isFalse hmod =>
    refine iff_of_false (fun h => by cases h) fun h => hmod ?_
    refine Nat.mod_eq_zero_of_dvd (Int.natCast_dvd_natCast.1 ?_)
    split at h
    · exact Int.dvd_neg.1 ⟨m, by rw [h, mul_comm]⟩
    · exact ⟨m, by rw [h, mul_comm]⟩

/-- A double has one significand and one shift: its sign and its size tell which it is. -/
theorem eq_of_units {x y : Binary64} (hsign : x.negative = y.negative) (hunits : x.units = y.units) :
    x = y := by
  -- of two shifts the larger makes the larger size, as its significand has all its bits
  have hshift : ∀ {a b : Binary64}, a.units = b.units → ¬ a.shift < b.shift := by
    intro a b hab hlt
    have hbits : powerOfTwo 52 ≤ b.significand := b.canonical.2.1.resolve_right (by omega)
    have hbelow : a.units < powerOfTwo 53 * powerOfTwo a.shift :=
      Nat.mul_lt_mul_of_pos_right a.canonical.1 (powerOfTwo_pos _)
    have habove : powerOfTwo 52 * powerOfTwo (a.shift + 1) ≤ b.units :=
      Nat.mul_le_mul hbits (powerOfTwo_le hlt)
    have hsame : powerOfTwo 52 * powerOfTwo (a.shift + 1) = powerOfTwo 53 * powerOfTwo a.shift := by
      rw [← powerOfTwo_add, ← powerOfTwo_add]
      congr 1
      omega
    omega
  have hle := hshift hunits
  have hge := hshift hunits.symm
  obtain ⟨negative, s, t, hx⟩ := x
  obtain ⟨negative', s', t', hy⟩ := y
  obtain rfl : negative = negative' := hsign
  obtain rfl : t = t' := by
    dsimp only at hle hge
    omega
  obtain rfl : s = s' := Nat.eq_of_mul_eq_mul_right (powerOfTwo_pos t) hunits
  rfl

/-- The double at the lower end of the signed 64-bit words. -/
def lowest : Binary64 := ⟨true, 4503599627370496, 1085, by decide⟩

theorem units_lowest : lowest.units = 9223372036854775808 * powerOfTwo 1074 := by
  have hshift : powerOfTwo 1085 = powerOfTwo 11 * powerOfTwo 1074 := powerOfTwo_add 11 1074
  have hhead : 4503599627370496 * powerOfTwo 11 = 9223372036854775808 := rfl
  simp only [units, lowest]
  rw [hshift, ← Nat.mul_assoc, hhead]

theorem exact_lowest : lowest.exact = (-9223372036854775808 : Int) := by
  have hsign : lowest.negative = true := rfl
  rw [exact_eq_iff, if_pos hsign, units_lowest, Nat.cast_mul, ← neg_mul]
  rfl

/-- Only one double stands for the lower end of the signed 64-bit words. -/
theorem exact_eq_lowest_iff : x.exact = (-9223372036854775808 : Int) ↔ x = lowest := by
  constructor
  case mpr =>
    rintro rfl
    exact exact_lowest
  case mp =>
    intro hx
    rw [exact_eq_iff] at hx
    have hgrid := powerOfTwo_pos 1074
    have hunits := units_lowest
    generalize powerOfTwo 1074 = grid at hx hgrid hunits
    split at hx
    case isTrue hsign => exact eq_of_units hsign (by omega)
    case isFalse => omega

end Binary64

namespace NumberField

variable {n : Number} {m : Int}

/-- A number counts as an integer if its exact value is one that a signed 64-bit word holds. The
double at the lower end does not count. -/
theorem integral_iff : integral n = .ok m ↔ n.exact = m ∧ n ≠ .real .lowest ∧
    -(powerOfTwo 63 : Int) ≤ m ∧ m < powerOfTwo 63 := by
  have hword : (powerOfTwo 63 : Int) = 9223372036854775808 := rfl
  cases n with
  | whole w =>
    have hlower := w.lower
    have hexact : (Number.whole w).exact = m ↔ w.val = m := by
      rw [Number.exact, Int.cast_inj]
    rw [integral, hexact]
    split
    · rw [Except.ok.injEq]
      exact ⟨fun h => ⟨h, Number.whole_ne_real w _, by omega, by omega⟩, fun h => h.1⟩
    · refine iff_of_false (fun h => by cases h) fun h => ?_
      omega
  | real x =>
    have hlowest : (Number.real x) = .real .lowest ↔ x.exact = (-9223372036854775808 : Int) := by
      rw [Number.real.injEq, Binary64.exact_eq_lowest_iff]
    rw [integral, Ne, hlowest, Number.exact, ← Binary64.whole?_eq_some_iff,
      ← Binary64.whole?_eq_some_iff]
    cases x.whole? with
    | none => exact iff_of_false (fun h => by cases h) fun h => by cases h.1
    | some w =>
      simp only [Option.some_inj]
      split
      · rw [Except.ok.injEq]
        constructor
        · rintro rfl
          omega
        · exact fun h => h.1
      · refine iff_of_false (fun h => by cases h) fun h => ?_
        omega

end NumberField

theorem digits_eq_toDigits (n : Nat) : digits n = Nat.toDigits 10 n := by
  have hchar : ∀ d, d < 10 → digitChar d = Nat.digitChar d := by decide
  induction n using digits.induct with
  | case1 n hn => rw [digits_of_lt hn, Nat.toDigits_of_lt_base hn, hchar n hn]
  | case2 n hn ih =>
    rw [digits_of_ge (by omega), Nat.toDigits_of_base_le (by decide) (by omega), ih,
      hchar _ (Nat.mod_lt n (by decide))]

/-- An integer is written as it is everywhere else. -/
theorem ofList_signedDigits (m : Int) : String.ofList (signedDigits m) = toString m := by
  rw [signedDigits]
  cases m with
  | ofNat m =>
    have hsign : ¬ Int.ofNat m < 0 := Int.not_lt.2 (Int.natCast_nonneg m)
    rw [if_neg hsign, digits_eq_toDigits]
    rfl
  | negSucc m =>
    rw [if_pos (by omega), digits_eq_toDigits, String.ofList_cons]
    rfl

/-- What is read as an integer fits a signed 64-bit word. -/
theorem readInt64?_bounds {cs : List Char} {m : Int} (h : readInt64? cs = some m) :
    -(powerOfTwo 63 : Int) ≤ m ∧ m < powerOfTwo 63 := by
  rw [readInt64?] at h
  generalize splitSign cs = sign at h
  obtain ⟨negative, ds⟩ := sign
  obtain ⟨n, -, hn⟩ := Option.bind_eq_some_iff.1 h
  obtain ⟨hbounds, hm⟩ := Option.ite_none_right_eq_some.1 hn
  obtain rfl := Option.some.inj hm
  exact hbounds

namespace NumberField

variable (attributes : Options) (text : String)

theorem present_integral {n : Number} {m : Int} (hn : integral n = .ok m) :
    present ⟨.integer, attributes, text⟩ (.number n) =
      (⟨.integer, attributes, toString m⟩, .ok ()) := by
  simp only [present, valueText, numberText, hn, Except.map, ofList_signedDigits]

theorem present_not_integral {n : Number} {found : String} (hn : integral n = .error found) :
    present ⟨.integer, attributes, text⟩ (.number n) =
      (⟨.integer, attributes, text⟩, .error (.unfit .integer found)) := by
  simp only [present, valueText, numberText, hn, Except.map]

/-- Nothing but a number that counts as an integer is shown. -/
theorem exists_integral_of_present {x : Json} {g : NumberField}
    (h : present ⟨.integer, attributes, text⟩ x = (g, .ok ())) :
    ∃ n m, x = .number n ∧ integral n = .ok m ∧ g = ⟨.integer, attributes, toString m⟩ := by
  cases x with
  | number n =>
    cases hn : integral n with
    | ok m =>
      rw [present_integral attributes text hn] at h
      exact ⟨n, m, rfl, hn, (congrArg Prod.fst h).symm⟩
    | error found =>
      rw [present_not_integral attributes text hn] at h
      cases h
  | _ => cases h

theorem value_eq_ok_iff {v : Json} : value ⟨.integer, attributes, text⟩ = .ok v ↔
    ∃ w : Whole, v = .number (.whole w) ∧ readInt64? (trim text.toList) = some w.val := by
  have hread : ∀ n, readNumber? .integer (trim text.toList) = some n ↔
      ∃ w : Whole, n = .whole w ∧ readInt64? (trim text.toList) = some w.val := by
    intro n
    simp only [readNumber?, Option.map_eq_some_iff, Option.bind_eq_some_iff, Whole.ofInt?_eq_some_iff]
    constructor
    · rintro ⟨w, ⟨m, hm, rfl⟩, rfl⟩
      exact ⟨w, rfl, hm⟩
    · rintro ⟨w, rfl, hw⟩
      exact ⟨w, ⟨w.val, hw, rfl⟩, rfl⟩
  rw [value]
  dsimp only
  split
  case h_1 n hn =>
    obtain ⟨w, rfl, hw⟩ := (hread n).1 hn
    rw [Except.ok.injEq]
    constructor
    · rintro rfl
      exact ⟨w, rfl, hw⟩
    · rintro ⟨w', rfl, hw'⟩
      obtain rfl : w = w' := Whole.ext (Option.some.inj (hw.symm.trans hw'))
      rfl
  case h_2 hn =>
    constructor
    · intro h
      cases h
    · rintro ⟨w, -, hw⟩
      rw [(hread _).2 ⟨w, rfl, hw⟩] at hn
      cases hn

theorem value_toString (w : Whole) (hlow : -(powerOfTwo 63 : Int) ≤ w.val)
    (hhigh : w.val < powerOfTwo 63) :
    value ⟨.integer, attributes, toString w.val⟩ = .ok (.number (.whole w)) := by
  refine (value_eq_ok_iff attributes _).2 ⟨w, rfl, ?_⟩
  rw [← ofList_signedDigits, String.toList_ofList, trim_signedDigits]
  exact readInt64?_signedDigits hlow hhigh

/-- A field for integers takes the numbers whose exact value a signed 64-bit word holds, written in
any form but one: the double at the lower end. -/
theorem integer_presented_iff (n : Number) :
    (present ⟨.integer, attributes, text⟩ (.number n)).2 = .ok () ↔
      n ≠ .real .lowest ∧
        ∃ m : Int, n.exact = m ∧ -9223372036854775808 ≤ m ∧ m ≤ 9223372036854775807 := by
  have hword : (powerOfTwo 63 : Int) = 9223372036854775808 := rfl
  constructor
  · intro h
    obtain ⟨n', m, hn, hm, -⟩ := exists_integral_of_present attributes text (Prod.ext rfl h)
    obtain rfl : n = n' := by simpa using hn
    obtain ⟨hexact, hne, hlow, hhigh⟩ := integral_iff.1 hm
    exact ⟨hne, m, hexact, by omega, by omega⟩
  · rintro ⟨hne, m, hexact, hlow, hhigh⟩
    have hm : integral n = .ok m := integral_iff.2 ⟨hexact, hne, by omega, by omega⟩
    rw [present_integral attributes text hm]

/-- That double stands for the lower end of the words, which the field takes in its whole form. -/
theorem lowest_not_presented :
    (Number.real .lowest).exact = (-9223372036854775808 : Int) ∧
      (present ⟨.integer, [], ""⟩ (.number (.real .lowest))).2 =
        .error (.unfit .integer "fractional number") ∧
      (present ⟨.integer, [], ""⟩ (.int (-9223372036854775808))).2 = .ok () := by
  refine ⟨Binary64.exact_lowest, ?_, ?_⟩
  · have hlowest : integral (.real .lowest) = .error "fractional number" := by decide +kernel
    rw [present_not_integral [] "" hlowest]
  · have hwhole : integral (.whole ⟨-9223372036854775808, by decide, by decide⟩) =
        .ok (-9223372036854775808) := by decide
    rw [Json.int, present_integral [] "" hwhole]

/-- What a field for integers shows it also reads, as the same integer, and what it reads it also
shows. What it refuses changes nothing. -/
theorem integer_shown_and_read :
    (∀ x g, present ⟨.integer, attributes, text⟩ x = (g, .ok ()) → ∃ (n : Number) (w : Whole),
      x = .number n ∧ n.exact = w.val ∧ g = ⟨.integer, attributes, toString w.val⟩ ∧
        g.value = .ok (.number (.whole w))) ∧
    (∀ x g e, present ⟨.integer, attributes, text⟩ x = (g, .error e) →
      g = ⟨.integer, attributes, text⟩) ∧
    ∀ v, value ⟨.integer, attributes, text⟩ = .ok v →
      ∃ g, present ⟨.integer, attributes, text⟩ v = (g, .ok ()) ∧ g.value = .ok v := by
  have hword : (powerOfTwo 63 : Int) = 9223372036854775808 := rfl
  refine ⟨?shown, ?refused, ?read⟩
  case shown =>
    intro x g h
    obtain ⟨n, m, rfl, hm, rfl⟩ := exists_integral_of_present attributes text h
    obtain ⟨hexact, -, hlow, hhigh⟩ := integral_iff.1 hm
    have hvalue := value_toString attributes ⟨m, by omega, by omega⟩ hlow hhigh
    exact ⟨n, _, rfl, hexact, rfl, hvalue⟩
  case refused =>
    intro x g e h
    obtain ⟨shown, hok⟩ | ⟨e', herror⟩ := present_cases ⟨.integer, attributes, text⟩ x
    · rw [hok] at h
      cases h
    · rw [herror] at h
      exact (congrArg Prod.fst h).symm
  case read =>
    intro v h
    obtain ⟨w, rfl, hread⟩ := (value_eq_ok_iff attributes text).1 h
    obtain ⟨hlow, hhigh⟩ := readInt64?_bounds hread
    have hw : integral (.whole w) = .ok w.val :=
      integral_iff.2 ⟨rfl, Number.whole_ne_real w _, hlow, hhigh⟩
    exact ⟨_, present_integral attributes text hw, value_toString attributes w hlow hhigh⟩

/-- A negative zero is shown as an integer. -/
example : (present ⟨.integer, [], ""⟩ (.number (.real (.zero true)))).1.text = "0" := by
  decide +kernel

end NumberField
end LivePanel
