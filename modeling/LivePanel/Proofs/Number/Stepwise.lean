import LivePanel.Proofs.Number.Scaling
import LivePanel.Proofs.Number.Shortest

/-!
# Rounded in steps

The double of a number in JSON text is found in steps: the coefficient is rounded, then scaled. It
is the nearest double if the coefficient and the power of ten are doubles themselves. Main
statements: `stepwise?_of_brief` and `coefficient_shortest_le`.
-/
namespace LivePanel

namespace Binary64

theorem negative_of_make? {negative : Bool} {s t : Nat} {r : Binary64}
    (h : make? negative s t = some r) : r.negative = negative := by
  rw [make?] at h
  split at h
  · obtain rfl := Option.some.inj h
    rfl
  · cases h

/-- Rounding keeps the sign, that of a zero included. -/
theorem negative_of_nearest? {negative : Bool} {num den : Nat} {r : Binary64}
    (h : nearest? negative num den = some r) : r.negative = negative := by
  simp only [nearest?] at h
  split at h <;> exact negative_of_make? h

theorem nearest?_zero (negative : Bool) {den : Nat} (hden : 0 < den) :
    nearest? negative 0 den = some (zero negative) := by
  have hzero : (zero negative).Encloses 0 den := by
    constructor
    case low => simp [units, zero]
    case high => exact Nat.zero_le _
    case odd => exact fun hodd => absurd hodd Nat.zero_ne_one
  exact hzero.nearest?_eq hden

theorem roundHalfEven_mul_self (k : Nat) {den : Nat} (hden : 0 < den) :
    roundHalfEven (k * den) den = k :=
  roundHalfEven_eq hden (Nat.le_add_right _ _) (Nat.le_add_right _ _) fun _ => by omega

/-- A number of 53 bits, or of more that are followed by zeros only. -/
def Fits (n : Nat) : Prop := powerOfTwo (Nat.log2 n - 52) ∣ n

instance (n : Nat) : Decidable (Fits n) := inferInstanceAs (Decidable (_ ∣ n))

/-- The grid on which such a number is rounded is not finer than its last bit. -/
theorem grid_dvd {n : Nat} (hn : Fits n) (t : Nat) :
    powerOfTwo (Nat.log2 (n * powerOfTwo t) - 52) ∣ n * powerOfTwo t := by
  have hlog : Nat.log2 (n * powerOfTwo t) ≤ Nat.log2 n + t := by
    obtain hzero | hne := Decidable.em (n * powerOfTwo t = 0)
    · rw [hzero]
      exact Nat.zero_le _
    · have hlt : n * powerOfTwo t < powerOfTwo (Nat.log2 n + 1 + t) := by
        rw [powerOfTwo_add]
        exact Nat.mul_lt_mul_of_pos_right Nat.lt_log2_self (powerOfTwo_pos t)
      have hless := (Nat.log2_lt hne).2 hlt
      omega
  have hcoarse : powerOfTwo (Nat.log2 (n * powerOfTwo t) - 52) ∣
      powerOfTwo (Nat.log2 n - 52) * powerOfTwo t := by
    rw [← powerOfTwo_add]
    exact Nat.pow_dvd_pow 2 (by omega)
  exact Nat.dvd_trans hcoarse (Nat.mul_dvd_mul_right hn _)

/-- It is a double itself. -/
theorem units_of_nearest?_of_fits {negative : Bool} {n t : Nat} {r : Binary64} (hn : Fits n)
    (h : nearest? negative (n * powerOfTwo t) 1 = some r) : r.units = n * powerOfTwo t := by
  obtain ⟨k, hk⟩ := grid_dvd hn t
  rw [units_of_nearest? h, Nat.div_one, Nat.one_mul]
  generalize Nat.log2 (n * powerOfTwo t) - 52 = grid at hk ⊢
  rw [hk, Nat.mul_comm _ k, roundHalfEven_mul_self k (powerOfTwo_pos grid)]

theorem exists_ofRatio?_of_fits (negative : Bool) {n : Nat} (hword : n < powerOfTwo 64)
    (hn : Fits n) :
    ∃ x, ofRatio? negative n 1 = some x ∧ x.negative = negative ∧
      x.units = n * powerOfTwo 1074 := by
  obtain ⟨x, hx, -⟩ := exists_ofRatio?_word negative hword
  exact ⟨x, hx, negative_of_nearest? hx, units_of_nearest?_of_fits hn hx⟩

/-- The small powers of ten are doubles. -/
theorem exists_powerOfTen?_of_le {n : Nat} (hn : n ≤ 22) :
    ∃ y, powerOfTen? n = some y ∧ y.units = powerOfTen n * powerOfTwo 1074 := by
  have hall : ∀ n, n ≤ 22 →
      (powerOfTen? n).map units = some (powerOfTen n * powerOfTwo 1074) := by decide +kernel
  exact Option.map_eq_some_iff.1 (hall n hn)

/-- A number keeps its sign while it is scaled. -/
theorem negative_of_shrink? {blocks : Nat} {x z : Binary64} (h : x.shrink? blocks = some z) :
    z.negative = x.negative := by
  induction blocks generalizing x with
  | zero =>
    obtain rfl := Option.some.inj h
    rfl
  | succ blocks ih =>
    rw [shrink?] at h
    split at h
    · obtain rfl := Option.some.inj h
      rfl
    · obtain ⟨w, hw, hrest⟩ := Option.bind_eq_some_iff.1 h
      obtain ⟨y, -, hw⟩ := Option.bind_eq_some_iff.1 hw
      exact (ih hrest).trans (negative_of_nearest? hw)

theorem negative_of_scale? {power : Int} {x z : Binary64} (h : x.scale? power = some z) :
    z.negative = x.negative := by
  rw [scale?] at h
  dsimp only at h
  split at h
  · split at h
    · obtain ⟨y, -, hz⟩ := Option.bind_eq_some_iff.1 h
      exact negative_of_nearest? hz
    · split at h
      · obtain rfl := Option.some.inj h
        rfl
      · cases h
  · obtain ⟨w, hw, h⟩ := Option.bind_eq_some_iff.1 h
    obtain ⟨y, -, hz⟩ := Option.bind_eq_some_iff.1 h
    exact (negative_of_nearest? hz).trans (negative_of_shrink? hw)

end Binary64

namespace Decimal

open Binary64

/-- The coefficient rounded to a double, and that scaled by the power of ten. -/
def stepwise? (negative : Bool) (d : Decimal) : Option Binary64 :=
  (ofRatio? negative d.coefficient 1).bind (·.scale? d.exponent)

theorem negative_of_stepwise? {negative : Bool} {d : Decimal} {y : Binary64}
    (h : d.stepwise? negative = some y) : y.negative = negative := by
  obtain ⟨x, hx, hy⟩ := Option.bind_eq_some_iff.1 h
  exact (negative_of_scale? hy).trans (negative_of_nearest? hx)

/-- A decimal whose coefficient and whose power of ten are doubles. -/
def Brief (d : Decimal) : Prop := Fits d.coefficient ∧ d.exponent.natAbs ≤ 22

instance (d : Decimal) : Decidable d.Brief := inferInstanceAs (Decidable (_ ∧ _))

/-- The exponent of a decimal whose digits fit a word is near the power of ten of its first. -/
theorem exponent_bounds {d : Decimal} (hword : d.coefficient < powerOfTwo 64)
    (hd : 0 < d.coefficient) : d.magnitude - 19 ≤ d.exponent ∧ d.exponent ≤ d.magnitude := by
  have hfirst := powerOfTen_le_of_digits hd
  have hlength : (digits d.coefficient).length - 1 < 20 := by
    have hlt : powerOfTen ((digits d.coefficient).length - 1) < powerOfTen 20 :=
      Nat.lt_of_le_of_lt hfirst (Nat.lt_trans hword (by decide))
    exact (Nat.pow_lt_pow_iff_right (a := 10) (by decide)).1 hlt
  rw [magnitude]
  omega

/-- The nearest double of a brief decimal is that of a ratio. -/
theorem toBinary64?_of_brief (negative : Bool) {d : Decimal} (hword : d.coefficient < powerOfTwo 64)
    (hd : d.Brief) : d.toBinary64? negative = nearest? negative
      (d.coefficient * powerOfTen d.exponent.toNat * powerOfTwo 1074)
      (powerOfTen (-d.exponent).toNat) := by
  by_cases hne : d.coefficient = 0
  · rw [toBinary64?, if_pos hne, hne, Nat.zero_mul, Nat.zero_mul,
      nearest?_zero negative (powerOfTen_pos _)]
  · obtain ⟨hlow, hhigh⟩ := exponent_bounds hword (Nat.pos_of_ne_zero hne)
    have hpower := hd.2
    rw [toBinary64?, if_neg hne, if_neg (by omega), if_neg (by omega), ofRatio?]

/-- Only the scaling rounds such a decimal, and it rounds to the nearest double. -/
theorem stepwise?_of_brief (negative : Bool) {d : Decimal} (hword : d.coefficient < powerOfTwo 64)
    (hd : d.Brief) : d.stepwise? negative = d.toBinary64? negative := by
  obtain ⟨x, hx, hsign, hunits⟩ := exists_ofRatio?_of_fits negative hword hd.1
  obtain ⟨y, hy, hpower⟩ := exists_powerOfTen?_of_le hd.2
  have hsize : d.exponent.natAbs ≤ 308 := Nat.le_trans hd.2 (by decide)
  rw [stepwise?, hx, Option.bind_some, toBinary64?_of_brief negative hword hd, scale?]
  dsimp only
  by_cases hup : 0 ≤ d.exponent
  · have hexponent : d.exponent.toNat = d.exponent.natAbs := by omega
    have hnone : (-d.exponent).toNat = 0 := by omega
    have hproduct : d.coefficient * powerOfTwo 1074 *
          (powerOfTen d.exponent.natAbs * powerOfTwo 1074) =
        d.coefficient * powerOfTen d.exponent.natAbs * powerOfTwo 1074 * powerOfTwo 1074 := by ring
    rw [if_pos hup, if_pos hsize, hy, Option.bind_some, scaleUp?, hsign, hunits, hpower, hexponent,
      hnone, powerOfTen_zero, hproduct, ← nearest?_mul negative _ 1 (powerOfTwo_pos 1074),
      Nat.one_mul]
  · have hexponent : (-d.exponent).toNat = d.exponent.natAbs := by omega
    have hnone : d.exponent.toNat = 0 := by omega
    have hblocks : (d.exponent.natAbs - 1) / 308 = 0 := Nat.div_eq_of_lt (by omega)
    rw [if_neg hup, hblocks, shrink?, Option.bind_some, Nat.mul_zero, Nat.sub_zero, hy,
      Option.bind_some, scaleDown?, hsign, hunits, hpower, hexponent, hnone, powerOfTen_zero,
      Nat.mul_one, nearest?_mul negative _ _ (powerOfTwo_pos 1074)]

/-- Decimals with few digits are brief. -/
example : (⟨40075, -3⟩ : Decimal).Brief := by decide

/-- With 17 digits even a whole number may come out as another. -/
example : (⟨72057594037927960, -1⟩ : Decimal).stepwise? false ≠
    (⟨72057594037927960, -1⟩ : Decimal).toBinary64? false := by decide +kernel

end Decimal

namespace Binary64

/-- A double is smaller than the power of ten after that of its first digit. -/
theorem lt_leading (x : Binary64) : x.units * powerOfTen (-x.magnitude).toNat <
    powerOfTwo 1074 * powerOfTen x.magnitude.toNat * 10 := by
  rw [magnitude]
  generalize hguess : ((digits x.units).length : Int) - (digits (powerOfTwo 1074)).length = guess
  split
  · have hdigits := lt_powerOfTen_of_digits x.units
    have hfirst := powerOfTen_le_of_digits (powerOfTwo_pos 1074)
    have hlength := length_digits_pos (powerOfTwo 1074)
    calc x.units * powerOfTen (-guess).toNat
        < powerOfTen (digits x.units).length * powerOfTen (-guess).toNat :=
          Nat.mul_lt_mul_of_pos_right hdigits (powerOfTen_pos _)
      _ = powerOfTen ((digits (powerOfTwo 1074)).length - 1 + guess.toNat + 1) := by
          rw [← powerOfTen_add]
          congr 1
          omega
      _ = powerOfTen ((digits (powerOfTwo 1074)).length - 1) * powerOfTen guess.toNat * 10 := by
          rw [powerOfTen_succ, powerOfTen_add]
      _ ≤ powerOfTwo 1074 * powerOfTen guess.toNat * 10 :=
          Nat.mul_le_mul_right _ (Nat.mul_le_mul_right _ hfirst)
  · rename_i hless
    have hless := Nat.not_le.1 hless
    by_cases hpos : 1 ≤ guess
    · have hdown : (-(guess - 1)).toNat = (-guess).toNat := by omega
      have hup : guess.toNat = (guess - 1).toNat + 1 := by omega
      rwa [hup, powerOfTen_succ, ← Nat.mul_assoc, ← hdown] at hless
    · have hdown : (-(guess - 1)).toNat = (-guess).toNat + 1 := by omega
      have hup : (guess - 1).toNat = guess.toNat := by omega
      rw [hdown, hup, powerOfTen_succ, ← Nat.mul_assoc]
      exact Nat.mul_lt_mul_of_pos_right hless (by decide)

/-- So a decimal with `n` digits more has no more than those. -/
theorem lt_spacing (x : Binary64) {e : Int} {n : Nat} (he : e = x.magnitude - n) :
    x.units * powerOfTen (-e).toNat <
      powerOfTwo 1074 * powerOfTen e.toNat * powerOfTen (n + 1) := by
  have hmore : e.toNat + n = x.magnitude.toNat + (e.toNat + n - x.magnitude.toNat) := by omega
  have hless : (-e).toNat = (-x.magnitude).toNat + (e.toNat + n - x.magnitude.toNat) := by omega
  generalize e.toNat + n - x.magnitude.toNat = k at hmore hless
  calc x.units * powerOfTen (-e).toNat
      = x.units * powerOfTen (-x.magnitude).toNat * powerOfTen k := by
        rw [hless, powerOfTen_add, Nat.mul_assoc]
    _ < powerOfTwo 1074 * powerOfTen x.magnitude.toNat * 10 * powerOfTen k :=
        Nat.mul_lt_mul_of_pos_right x.lt_leading (powerOfTen_pos k)
    _ = powerOfTwo 1074 * (powerOfTen x.magnitude.toNat * powerOfTen k) * 10 := by ring
    _ = powerOfTwo 1074 * powerOfTen e.toNat * powerOfTen (n + 1) := by
        rw [← powerOfTen_add, ← hmore, powerOfTen_add, powerOfTen_succ]
        ring

theorem coefficient_le_of_decimalOfLength? {x : Binary64} {n : Nat} {d : Decimal} (hn : 0 < n)
    (h : x.decimalOfLength? n = some d) : d.coefficient ≤ powerOfTen n := by
  have hspacing := x.lt_spacing (e := x.magnitude - (n - 1 : Nat)) rfl
  rw [Nat.sub_add_cancel hn] at hspacing
  have hfloor := Nat.div_lt_of_lt_mul hspacing
  rw [decimalOfLength?] at h
  generalize x.units * powerOfTen (-(x.magnitude - (n - 1 : Nat))).toNat = num at hfloor h
  generalize powerOfTwo 1074 * powerOfTen (x.magnitude - (n - 1 : Nat)).toNat = den at hfloor h
  split at h
  · obtain rfl := Option.some.inj h
    obtain hbelow | habove := roundHalfEven_cases num den
    · rw [hbelow]
      exact Nat.le_of_lt hfloor
    · rw [habove]
      exact hfloor
  · obtain rfl := Option.some.inj h
    exact Nat.le_of_lt hfloor
  · obtain rfl := Option.some.inj h
    exact hfloor
  · cases h

/-- No more than seventeen digits are written. -/
theorem coefficient_shortest_le (x : Binary64) : x.shortest.coefficient ≤ powerOfTen 17 := by
  rw [shortest]
  split
  · exact Nat.zero_le _
  · cases hfind : (List.range' 1 17).findSome? x.decimalOfLength? with
    | none => exact Nat.zero_le _
    | some d =>
      obtain ⟨n, hn, hd⟩ := List.exists_of_findSome?_eq_some hfind
      obtain ⟨hlow, hhigh⟩ := List.mem_range'_1.1 hn
      exact Nat.le_trans (coefficient_le_of_decimalOfLength? (by omega) hd)
        (powerOfTen_le (by omega))

end Binary64
end LivePanel
