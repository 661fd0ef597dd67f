import Mathlib.Algebra.Order.Field.Basic
import Mathlib.Data.Rat.Cast.Order
import Mathlib.Tactic.FieldSimp
import Mathlib.Tactic.Linarith
import Mathlib.Tactic.NormNum
import Mathlib.Tactic.Positivity
import LivePanel.Proofs.Number.Stepwise

/-!
# How far rounding in steps goes

A rounding moves a number by one part in `2 ^ 53`, and below the first binade by half a unit. So
whoever rounds a decimal in steps ends up close to the nearest double. Main statement:
`near_of_stepwise?`.
-/
namespace LivePanel

/-- What a number is multiplied or divided by, at most, when it is rounded to 53 bits. -/
def slack : ℚ := 9007199254740992 / 9007199254740991

theorem one_le_slack : 1 ≤ slack := by
  rw [slack]
  norm_num

theorem slack_pos : 0 < slack := lt_of_lt_of_le one_pos one_le_slack

theorem one_le_slack_pow (k : Nat) : 1 ≤ slack ^ k := one_le_pow₀ one_le_slack

/-- What `k` roundings may make of `b`, apart from an amount `δ`. -/
structure Near (k : Nat) (δ a b : ℚ) : Prop where
  le : a ≤ b * slack ^ k + δ
  ge : b ≤ (a + δ) * slack ^ k

namespace Near

variable {j k : Nat} {δ ε a b c d : ℚ}

theorem refl (a : ℚ) : Near 0 0 a a := ⟨by simp, by simp⟩

theorem mono (h : Near j δ a b) (ha : 0 ≤ a) (hb : 0 ≤ b) (hjk : j ≤ k) (hδ : 0 ≤ δ)
    (hδε : δ ≤ ε) : Near k ε a b := by
  have hpow : slack ^ j ≤ slack ^ k := pow_le_pow_right₀ one_le_slack hjk
  have hpos : 0 ≤ slack ^ k := le_of_lt (pow_pos slack_pos k)
  constructor
  case le => exact h.le.trans (add_le_add (mul_le_mul_of_nonneg_left hpow hb) hδε)
  case ge =>
    exact h.ge.trans (mul_le_mul (by linarith) hpow (le_of_lt (pow_pos slack_pos j)) (by linarith))

/-- Roundings one after another. -/
theorem trans (h : Near j δ a b) (hc : Near k ε c a) (hδ : 0 ≤ δ) :
    Near (j + k) (δ * slack ^ k + ε) c b := by
  have hj := one_le_slack_pow j
  have hk := one_le_slack_pow k
  constructor
  case le =>
    calc c ≤ a * slack ^ k + ε := hc.le
      _ ≤ (b * slack ^ j + δ) * slack ^ k + ε := by gcongr; exact h.le
      _ = b * slack ^ (j + k) + (δ * slack ^ k + ε) := by rw [pow_add]; ring
  case ge =>
    have hmore : δ ≤ δ * slack ^ k * slack ^ k := by
      calc δ = δ * 1 * 1 := by ring
        _ ≤ δ * slack ^ k * slack ^ k := by gcongr
    calc b ≤ (a + δ) * slack ^ j := h.ge
      _ ≤ ((c + ε) * slack ^ k + δ * slack ^ k * slack ^ k) * slack ^ j := by
        gcongr
        exact hc.ge
      _ = (c + (δ * slack ^ k + ε)) * slack ^ (j + k) := by rw [pow_add]; ring

theorem mul (h : Near j δ a b) (hc : Near k 0 c d) (hδ : 0 ≤ δ) (ha : 0 ≤ a) (hb : 0 ≤ b)
    (hcpos : 0 ≤ c) (hdpos : 0 ≤ d) : Near (j + k) (δ * slack ^ k * d) (a * c) (b * d) := by
  have hj := one_le_slack_pow j
  have hk := one_le_slack_pow k
  have hle := hc.le
  have hge := hc.ge
  rw [add_zero] at hle hge
  constructor
  case le =>
    calc a * c ≤ (b * slack ^ j + δ) * (d * slack ^ k) := by gcongr; exact h.le
      _ = b * d * slack ^ (j + k) + δ * slack ^ k * d := by rw [pow_add]; ring
  case ge =>
    have hmore : δ * d ≤ δ * slack ^ k * slack ^ k * d := by
      calc δ * d = δ * 1 * 1 * d := by ring
        _ ≤ δ * slack ^ k * slack ^ k * d := by gcongr
    calc b * d ≤ (a + δ) * slack ^ j * d := by gcongr; exact h.ge
      _ = (a * d + δ * d) * slack ^ j := by ring
      _ ≤ (a * (c * slack ^ k) + δ * slack ^ k * slack ^ k * d) * slack ^ j := by gcongr
      _ = (a * c + δ * slack ^ k * d) * slack ^ (j + k) := by rw [pow_add]; ring

theorem inv (h : Near k 0 c d) (hc : 0 < c) (hd : 0 < d) : Near k 0 c⁻¹ d⁻¹ := by
  have hle := h.le
  have hge := h.ge
  rw [add_zero] at hle hge
  constructor
  case le =>
    calc c⁻¹ = d * (c⁻¹ * d⁻¹) := by field_simp
      _ ≤ c * slack ^ k * (c⁻¹ * d⁻¹) := by gcongr
      _ = d⁻¹ * slack ^ k + 0 := by field_simp; ring
  case ge =>
    calc d⁻¹ = c * (c⁻¹ * d⁻¹) := by field_simp
      _ ≤ d * slack ^ k * (c⁻¹ * d⁻¹) := by gcongr
      _ = (c⁻¹ + 0) * slack ^ k := by field_simp; ring

theorem div (h : Near j δ a b) (hc : Near k 0 c d) (hδ : 0 ≤ δ) (ha : 0 ≤ a) (hb : 0 ≤ b)
    (hcpos : 0 < c) (hdpos : 0 < d) : Near (j + k) (δ * slack ^ k / d) (a / c) (b / d) := by
  rw [div_eq_mul_inv, div_eq_mul_inv, div_eq_mul_inv]
  exact h.mul (hc.inv hcpos hdpos) hδ ha hb (inv_nonneg.2 (le_of_lt hcpos))
    (inv_nonneg.2 (le_of_lt hdpos))

variable {p q u : ℚ}

/-- A factor that is given in units, and the unit taken out of the product again. -/
theorem mul_of_units (hp : Near 1 0 p (q * u)) (ha : 0 ≤ a) (hpos : 0 < p) (hq : 0 < q)
    (hu : 0 < u) : Near 1 0 (a * p / u) (a * q) := by
  have hproduct := (refl a).mul hp (le_refl 0) ha ha (le_of_lt hpos) (le_of_lt (mul_pos hq hu))
  have hquotient := hproduct.div (refl u) (by simp) (mul_nonneg ha (le_of_lt hpos))
    (mul_nonneg ha (le_of_lt (mul_pos hq hu))) hu hu
  have hunit : a * (q * u) / u = a * q := by rw [← mul_assoc, mul_div_cancel_right₀ _ (ne_of_gt hu)]
  rw [hunit] at hquotient
  simpa using hquotient

theorem div_of_units (hp : Near 1 0 p (q * u)) (ha : 0 ≤ a) (hpos : 0 < p) (hq : 0 < q)
    (hu : 0 < u) : Near 1 0 (a * u / p) (a / q) := by
  have hquotient := (refl (a * u)).div hp (le_refl 0) (mul_nonneg ha (le_of_lt hu))
    (mul_nonneg ha (le_of_lt hu)) hpos (mul_pos hq hu)
  rw [mul_div_mul_right a q (ne_of_gt hu)] at hquotient
  simpa using hquotient

/-- One rounding and five of the same number lie close to each other. -/
theorem close {q : ℚ} (ha : Near 1 (1 / 2) a q) (hb : Near 5 (3 / 5) b q) (hapos : 0 ≤ a)
    (hbpos : 0 ≤ b) : |b - a| * 1125899906842624 ≤ a + 2251799813685248 := by
  have hslack : slack ^ 6 ≤ 1 + 1 / 1125899906842624 := by
    rw [slack]
    norm_num
  have habove : b ≤ (a + 1 / 2) * slack ^ 6 + 3 / 5 := by
    calc b ≤ q * slack ^ 5 + 3 / 5 := hb.le
      _ ≤ (a + 1 / 2) * slack ^ 1 * slack ^ 5 + 3 / 5 := by
        gcongr
        · exact le_of_lt (pow_pos slack_pos 5)
        · exact ha.ge
      _ = (a + 1 / 2) * slack ^ 6 + 3 / 5 := by ring
  have hbelow : a ≤ (b + 3 / 5) * slack ^ 6 + 1 / 2 := by
    calc a ≤ q * slack ^ 1 + 1 / 2 := ha.le
      _ ≤ (b + 3 / 5) * slack ^ 5 * slack ^ 1 + 1 / 2 := by
        gcongr
        · exact le_of_lt (pow_pos slack_pos 1)
        · exact hb.ge
      _ = (b + 3 / 5) * slack ^ 6 + 1 / 2 := by ring
  have hup := mul_le_mul_of_nonneg_left hslack (add_nonneg hapos one_half_pos.le)
  have hlost : (0 : ℚ) ≤ 3 / 5 := by norm_num
  have hdown := mul_le_mul_of_nonneg_left hslack (add_nonneg hbpos hlost)
  obtain hle | hle := le_total a b
  · rw [abs_of_nonneg (sub_nonneg.2 hle)]
    linarith
  · rw [abs_of_nonpos (sub_nonpos.2 hle)]
    linarith

end Near

namespace Binary64

/-- Rounding takes half a unit away at most. -/
theorem le_roundHalfEven (num : Nat) {den : Nat} (hden : 0 < den) :
    2 * num ≤ 2 * (roundHalfEven num den * den) + den := by
  have hsplit := Nat.div_add_mod num den
  have hmod := Nat.mod_lt num hden
  rw [roundHalfEven]
  generalize num / den = floor at hsplit ⊢
  generalize num % den = rest at hsplit hmod ⊢
  rw [Nat.mul_comm den floor] at hsplit
  have hup : (floor + 1) * den = floor * den + den := Nat.succ_mul floor den
  split
  · omega
  · split
    · omega
    · obtain heven | hodd := Nat.mod_two_eq_zero_or_one floor
      · rw [heven, Nat.add_zero]
        omega
      · rw [hodd]
        omega

variable {negative : Bool} {num den : Nat} {r : Binary64}

/-- With 53 bits or more only the slack of one rounding is lost. -/
theorem near_of_nearest?_of_le (hden : 0 < den) (hle : powerOfTwo 52 * den ≤ num)
    (h : nearest? negative num den = some r) : Near 1 0 r.units (num / den) := by
  have hbelow := le_roundHalfEven num (grid_pos num hden)
  have habove := (roundHalfEven_le num (grid_pos num hden)).1
  have hgrid := grid_le hden hle
  rw [← units_mul_of_nearest? h] at hbelow habove
  generalize den * powerOfTwo (Nat.log2 (num / den) - 52) = grid at hbelow habove hgrid
  have hbits : powerOfTwo 52 = 4503599627370496 := rfl
  rw [hbits] at hgrid
  have hpos : (0 : ℚ) < den := by exact_mod_cast hden
  have hbelow' : 2 * (num : ℚ) ≤ 2 * (r.units * den) + grid := by exact_mod_cast hbelow
  have habove' : 2 * (r.units * den : ℚ) ≤ 2 * num + grid := by exact_mod_cast habove
  have hgrid' : 4503599627370496 * (grid : ℚ) ≤ num := by exact_mod_cast hgrid
  have hnum : (0 : ℚ) ≤ num := Nat.cast_nonneg num
  constructor
  case le =>
    rw [pow_one, add_zero, div_mul_eq_mul_div, le_div_iff₀ hpos, slack]
    linarith
  case ge =>
    rw [pow_one, add_zero, div_le_iff₀ hpos, slack]
    linarith

/-- Less than that may lose half a unit besides. -/
theorem near_of_nearest? (hden : 0 < den) (h : nearest? negative num den = some r) :
    Near 1 (1 / 2) r.units (num / den) := by
  by_cases hle : powerOfTwo 52 * den ≤ num
  · exact (near_of_nearest?_of_le hden hle h).mono (Nat.cast_nonneg _) (by positivity)
      (Nat.le_refl 1) (le_refl 0) (by norm_num)
  · have hshift : Nat.log2 (num / den) - 52 = 0 :=
      log2_div_of_small hden (Nat.lt_of_lt_of_le (Nat.not_le.1 hle)
        (Nat.mul_le_mul_right den (by decide)))
    have hbelow := le_roundHalfEven num (grid_pos num hden)
    have habove := (roundHalfEven_le num (grid_pos num hden)).1
    rw [← units_mul_of_nearest? h, hshift, powerOfTwo_zero, Nat.mul_one] at hbelow habove
    have hpos : (0 : ℚ) < den := by exact_mod_cast hden
    have hbelow' : 2 * (num : ℚ) ≤ 2 * (r.units * den) + den := by exact_mod_cast hbelow
    have habove' : 2 * (r.units * den : ℚ) ≤ 2 * num + den := by exact_mod_cast habove
    have hone := one_le_slack
    have hquotient : (0 : ℚ) ≤ num / den := by positivity
    have hunits : (0 : ℚ) ≤ r.units := Nat.cast_nonneg _
    have hle' : (r.units : ℚ) ≤ num / den + 1 / 2 := by
      rw [← sub_le_iff_le_add, le_div_iff₀ hpos]
      linarith
    have hge' : (num / den : ℚ) ≤ r.units + 1 / 2 := by
      rw [div_le_iff₀ hpos]
      linarith
    constructor
    case le =>
      rw [pow_one]
      exact hle'.trans (by gcongr; exact le_mul_of_one_le_right hquotient hone)
    case ge =>
      rw [pow_one]
      exact hge'.trans (le_mul_of_one_le_right (by positivity) hone)

/-- A whole number above zero is large enough to lose nothing besides. -/
theorem near_of_nearest?_of_pos {n : Nat} (hn : 0 < n)
    (h : nearest? negative (n * powerOfTwo 1074) 1 = some r) :
    Near 1 0 r.units (n * powerOfTwo 1074) ∧ powerOfTwo 1074 ≤ 2 * r.units := by
  have hone : powerOfTwo 1074 ≤ n * powerOfTwo 1074 := Nat.le_mul_of_pos_left _ hn
  have hlarge : powerOfTwo 52 * 1 ≤ n * powerOfTwo 1074 := by
    rw [Nat.mul_one]
    exact Nat.le_trans (powerOfTwo_le (by decide)) hone
  have hnear := near_of_nearest?_of_le Nat.one_pos hlarge h
  have hhalf := le_units_of_nearest? Nat.one_pos hlarge h
  rw [Nat.mul_one] at hhalf
  rw [Nat.cast_one, div_one, Nat.cast_mul] at hnear
  exact ⟨hnear, Nat.le_trans hone hhalf⟩

theorem near_powerOfTen? {n : Nat} (hn : n ≤ 308) {y : Binary64} (hy : powerOfTen? n = some y) :
    Near 1 0 y.units (powerOfTen n * powerOfTwo 1074) ∧ powerOfTwo 1074 ≤ 2 * y.units := by
  rw [powerOfTen?_eq hn] at hy
  exact near_of_nearest?_of_pos (powerOfTen_pos n) hy

theorem cast_powerOfTen_pos (n : Nat) : (0 : ℚ) < powerOfTen n := by
  exact_mod_cast powerOfTen_pos n

theorem cast_powerOfTwo_pos (n : Nat) : (0 : ℚ) < powerOfTwo n := by
  exact_mod_cast powerOfTwo_pos n

variable {x y z : Binary64} {n : Nat}

theorem units_pos (h : powerOfTwo 1074 ≤ 2 * x.units) : 0 < x.units := by
  have hpos := powerOfTwo_pos 1074
  omega

theorem cast_units_pos (h : powerOfTwo 1074 ≤ 2 * x.units) : (0 : ℚ) < x.units := by
  exact_mod_cast units_pos h

/-- A product is rounded twice: the power, and the product itself. -/
theorem near_scaleUp? (hn : n ≤ 308) (hx : powerOfTwo 1074 ≤ 2 * x.units)
    (hy : powerOfTen? n = some y) (hz : x.scaleUp? y = some z) :
    Near 2 0 z.units (x.units * powerOfTen n) := by
  obtain ⟨hpower, hhalf⟩ := near_powerOfTen? hn hy
  have hlarge : powerOfTwo 52 * powerOfTwo 1074 ≤ x.units * y.units := by
    have hroom : powerOfTwo 52 * 4 ≤ powerOfTwo 1074 := by decide +kernel
    have hsquare := Nat.mul_le_mul hx hhalf
    have hscale := Nat.mul_le_mul_right (powerOfTwo 1074) hroom
    refine Nat.le_of_mul_le_mul_left (c := 4) ?_ (by decide)
    calc 4 * (powerOfTwo 52 * powerOfTwo 1074)
        = powerOfTwo 52 * 4 * powerOfTwo 1074 := by ring
      _ ≤ powerOfTwo 1074 * powerOfTwo 1074 := hscale
      _ ≤ 2 * x.units * (2 * y.units) := hsquare
      _ = 4 * (x.units * y.units) := by ring
  have hround := near_of_nearest?_of_le (powerOfTwo_pos 1074) hlarge hz
  have hproduct := hpower.mul_of_units (Nat.cast_nonneg x.units) (cast_units_pos hhalf)
    (cast_powerOfTen_pos n) (cast_powerOfTwo_pos 1074)
  rw [Nat.cast_mul] at hround
  have hboth := hproduct.trans hround (le_refl 0)
  rwa [zero_mul, add_zero] at hboth

/-- So is a quotient, which may be small. -/
theorem near_scaleDown? (hn : n ≤ 308) (hy : powerOfTen? n = some y)
    (hz : x.scaleDown? y = some z) : Near 2 (1 / 2) z.units (x.units / powerOfTen n) := by
  obtain ⟨hpower, hhalf⟩ := near_powerOfTen? hn hy
  have hround := near_of_nearest? (units_pos hhalf) hz
  have hquotient := hpower.div_of_units (Nat.cast_nonneg x.units) (cast_units_pos hhalf)
    (cast_powerOfTen_pos n) (cast_powerOfTwo_pos 1074)
  rw [Nat.cast_mul] at hround
  have hboth := hquotient.trans hround (le_refl 0)
  rwa [zero_mul, zero_add] at hboth

theorem near_scale?_of_nonneg {power : Int} (hx : powerOfTwo 1074 ≤ 2 * x.units)
    (hnonneg : 0 ≤ power) (hhigh : power ≤ 308) (h : x.scale? power = some z) :
    Near 2 0 z.units (x.units * powerOfTen power.natAbs) := by
  have hsize : power.natAbs ≤ 308 := by omega
  rw [scale?] at h
  dsimp only at h
  rw [if_pos hnonneg, if_pos hsize] at h
  obtain ⟨y, hy, hz⟩ := Option.bind_eq_some_iff.1 h
  exact near_scaleUp? hsize hx hy hz

/-- Divided twice, what was lost the first time is divided as well. -/
theorem near_of_scaleDown?_twice {a b c : ℚ} {k : Nat} (ha : 0 ≤ a) (hc : 0 ≤ c) (hb : 0 ≤ b)
    (hk : 0 < k) (hfirst : Near 2 (1 / 2) b a) (hlast : Near 2 (1 / 2) c (b / powerOfTen k)) :
    Near 4 (3 / 5) c (a / powerOfTen k) := by
  have hten : (10 : ℚ) ≤ powerOfTen k := by
    have hle : powerOfTen 1 ≤ powerOfTen k := powerOfTen_le hk
    exact_mod_cast hle
  have hpos := cast_powerOfTen_pos k
  have hdivided := hfirst.div (Near.refl (powerOfTen k : ℚ)) (by norm_num) hb ha hpos hpos
  have hboth := hdivided.trans hlast (by positivity)
  refine hboth.mono hc (div_nonneg ha (le_of_lt hpos)) (Nat.le_refl 4) (by positivity) ?_
  have hlost : 1 / 2 * slack ^ 0 / powerOfTen k ≤ 1 / 20 := by
    rw [pow_zero, mul_one, div_le_iff₀ hpos]
    linarith
  have hslack : slack ^ 2 ≤ 2 := by
    rw [slack]
    norm_num
  have hmore := mul_le_mul hlost hslack (by positivity) (by norm_num)
  linarith

/-- A power of ten below the reach of doubles is divided by in two parts. -/
theorem near_scale?_of_neg {power : Int} (hx : x.isZero = false) (hneg : power < 0)
    (hlow : -616 ≤ power) (h : x.scale? power = some z) :
    Near 4 (3 / 5) z.units (x.units / powerOfTen power.natAbs) := by
  have hquotient : ∀ k, (0 : ℚ) ≤ x.units / powerOfTen k := fun k =>
    div_nonneg (Nat.cast_nonneg _) (le_of_lt (cast_powerOfTen_pos k))
  rw [scale?] at h
  dsimp only at h
  rw [if_neg (Int.not_le.2 hneg)] at h
  obtain ⟨w, hw, h⟩ := Option.bind_eq_some_iff.1 h
  obtain ⟨y, hy, hz⟩ := Option.bind_eq_some_iff.1 h
  have hlast := near_scaleDown? (by omega) hy hz
  by_cases hone : power.natAbs ≤ 308
  · have hblocks : (power.natAbs - 1) / 308 = 0 := Nat.div_eq_of_lt (by omega)
    rw [hblocks, shrink?] at hw
    obtain rfl := Option.some.inj hw
    rw [hblocks, Nat.mul_zero, Nat.sub_zero] at hlast
    exact hlast.mono (Nat.cast_nonneg _) (hquotient _) (by decide) (by norm_num) (by norm_num)
  · have hblocks : (power.natAbs - 1) / 308 = 1 := by omega
    rw [hblocks, shrink?, hx, if_neg Bool.false_ne_true] at hw
    obtain ⟨v, hv, hw⟩ := Option.bind_eq_some_iff.1 hw
    obtain ⟨p, hp, hv⟩ := Option.bind_eq_some_iff.1 hv
    obtain rfl : v = w := Option.some.inj hw
    rw [hblocks, Nat.mul_one] at hlast
    have hfirst := near_scaleDown? (Nat.le_refl 308) hp hv
    have hboth := near_of_scaleDown?_twice (hquotient 308) (Nat.cast_nonneg _) (Nat.cast_nonneg _)
      (by omega) hfirst hlast
    have hsplit : power.natAbs = 308 + (power.natAbs - 308) := by omega
    rwa [div_div, ← Nat.cast_mul, ← powerOfTen_add, ← hsplit] at hboth

end Binary64

namespace Decimal

open Binary64

/-- The number that a decimal stands for, in the units of doubles. -/
def units (d : Decimal) : ℚ :=
  d.coefficient * powerOfTwo 1074 * powerOfTen d.exponent.toNat / powerOfTen (-d.exponent).toNat

variable {d : Decimal} {negative : Bool} {x y : Binary64}

theorem near_of_stepwise? (hd : 0 < d.coefficient) (hlow : -616 ≤ d.exponent)
    (hhigh : d.exponent ≤ 308) (h : d.stepwise? negative = some y) :
    Near 5 (3 / 5) y.units d.units := by
  obtain ⟨x, hx, hy⟩ := Option.bind_eq_some_iff.1 h
  obtain ⟨hround, hhalf⟩ := near_of_nearest?_of_pos hd hx
  have hunits : (0 : ℚ) ≤ x.units := Nat.cast_nonneg _
  have hexact : (0 : ℚ) ≤ d.coefficient * powerOfTwo 1074 :=
    mul_nonneg (Nat.cast_nonneg _) (Nat.cast_nonneg _)
  have hpos := cast_powerOfTen_pos d.exponent.natAbs
  by_cases hup : 0 ≤ d.exponent
  · have hexponent : d.exponent.toNat = d.exponent.natAbs := by omega
    have hnone : (-d.exponent).toNat = 0 := by omega
    have hscale := near_scale?_of_nonneg hhalf hup hhigh hy
    have hmul := hround.mul (Near.refl (powerOfTen d.exponent.natAbs : ℚ)) (le_refl 0) hunits
      hexact (le_of_lt hpos) (le_of_lt hpos)
    have hboth := hmul.trans hscale (by simp)
    rw [units, hexponent, hnone, powerOfTen_zero, Nat.cast_one, div_one]
    exact hboth.mono (Nat.cast_nonneg _) (mul_nonneg hexact (le_of_lt hpos)) (by decide)
      (by simp) (by norm_num)
  · have hexponent : (-d.exponent).toNat = d.exponent.natAbs := by omega
    have hnone : d.exponent.toNat = 0 := by omega
    have hnonzero : x.isZero = false := by
      have hne : x.significand ≠ 0 := by
        intro hzero
        have hunits := units_pos hhalf
        rw [Binary64.units, hzero, Nat.zero_mul] at hunits
        exact Nat.lt_irrefl 0 hunits
      simpa [isZero] using hne
    have hscale := near_scale?_of_neg hnonzero (Int.not_le.1 hup) hlow hy
    have hdiv := hround.div (Near.refl (powerOfTen d.exponent.natAbs : ℚ)) (le_refl 0) hunits
      hexact hpos hpos
    have hboth := hdiv.trans hscale (by simp)
    rw [units, hexponent, hnone, powerOfTen_zero, Nat.cast_one, mul_one]
    exact hboth.mono (Nat.cast_nonneg _) (div_nonneg hexact (le_of_lt hpos)) (by decide)
      (by norm_num) (by norm_num)

/-- The nearest double of a decimal is rounded once. -/
theorem near_of_toBinary64? (hx : x.significand ≠ 0) (h : d.toBinary64? negative = some x) :
    0 < d.coefficient ∧ -325 ≤ d.magnitude ∧ d.magnitude < 309 ∧
      Near 1 (1 / 2) x.units d.units := by
  have hzero : x ≠ .zero negative := by
    rintro rfl
    exact hx rfl
  rw [toBinary64?] at h
  split at h
  · exact absurd (Option.some.inj h).symm hzero
  · split at h
    · cases h
    · split at h
      · exact absurd (Option.some.inj h).symm hzero
      · have hround := near_of_nearest? (powerOfTen_pos _) h
        rw [Nat.cast_mul, Nat.cast_mul, mul_right_comm] at hround
        exact ⟨by omega, by omega, by omega, hround⟩

/-- Rounded in steps, a decimal ends up within one part in `2 ^ 50` of its nearest double, or within
two units of it. -/
theorem units_of_stepwise? (hx : x.significand ≠ 0) (hword : d.coefficient < powerOfTwo 64)
    (hnearest : d.toBinary64? negative = some x) (hsteps : d.stepwise? negative = some y) :
    (y.units - x.units : Int).natAbs * powerOfTwo 50 ≤ x.units + powerOfTwo 51 := by
  obtain ⟨hd, hlow, hhigh, hnear⟩ := near_of_toBinary64? hx hnearest
  obtain ⟨hleast, hmost⟩ := exponent_bounds hword hd
  have hfar := near_of_stepwise? hd (by omega) (by omega) hsteps
  have hclose := hnear.close hfar (Nat.cast_nonneg _) (Nat.cast_nonneg _)
  have hpart : powerOfTwo 50 = 1125899906842624 := rfl
  have hrest : powerOfTwo 51 = 2251799813685248 := rfl
  have hcast : (((y.units - x.units : Int).natAbs : Nat) : ℚ) = |(y.units : ℚ) - x.units| := by
    rw [Nat.cast_natAbs]
    push_cast
    rfl
  rw [← hcast] at hclose
  rw [hpart, hrest]
  exact_mod_cast hclose

end Decimal
end LivePanel
