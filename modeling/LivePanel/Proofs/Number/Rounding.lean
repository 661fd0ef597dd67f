import Mathlib.Tactic.Ring
import LivePanel.Proofs.Number.Digits

/-!
# Rounding to doubles

A ratio that lies between the midpoints around a double is nearest to that double, and a ratio that
is not too large has a nearest double. Main statements: `Encloses.nearest?_eq` and `isSome_nearest?`.
-/
namespace LivePanel

theorem powerOfTwo_zero : powerOfTwo 0 = 1 := rfl

theorem powerOfTwo_succ (n : Nat) : powerOfTwo (n + 1) = powerOfTwo n * 2 := rfl

theorem powerOfTwo_add (m n : Nat) : powerOfTwo (m + n) = powerOfTwo m * powerOfTwo n :=
  Nat.pow_add 2 m n

theorem powerOfTwo_pos (n : Nat) : 0 < powerOfTwo n := Nat.pow_pos (by decide)

theorem powerOfTwo_le {m n : Nat} (h : m ≤ n) : powerOfTwo m ≤ powerOfTwo n :=
  Nat.pow_le_pow_right (by decide) h

namespace Binary64

/-- What is nearest: half a unit away at most, and if just half a unit then even. -/
theorem roundHalfEven_eq {num den s : Nat} (hden : 0 < den) (hlow : 2 * (s * den) ≤ 2 * num + den)
    (hhigh : 2 * num ≤ 2 * (s * den) + den)
    (hodd : s % 2 = 1 → 2 * (s * den) < 2 * num + den ∧ 2 * num < 2 * (s * den) + den) :
    roundHalfEven num den = s := by
  have hsplit := Nat.div_add_mod num den
  have hmod := Nat.mod_lt num hden
  rw [roundHalfEven]
  generalize num / den = f at hsplit ⊢
  generalize num % den = r at hsplit hmod ⊢
  rw [Nat.mul_comm den f] at hsplit
  have hle : s ≤ f + 1 := by
    by_contra hgt
    have hstep : f + 2 ≤ s := by omega
    have hmul := Nat.mul_le_mul_right den hstep
    rw [Nat.add_mul] at hmul
    omega
  have hge : f ≤ s := by
    by_contra hlt
    have hstep : s + 1 ≤ f := by omega
    have hmul := Nat.mul_le_mul_right den hstep
    rw [Nat.add_mul, Nat.one_mul] at hmul
    omega
  obtain rfl | rfl : s = f ∨ s = f + 1 := by omega
  · split
    · rfl
    · split <;> omega
  · rw [Nat.add_mul, Nat.one_mul] at hlow hhigh hodd
    split
    · omega
    · split <;> omega

theorem roundHalfEven_cases (num den : Nat) :
    roundHalfEven num den = num / den ∨ roundHalfEven num den = num / den + 1 := by
  rw [roundHalfEven]
  split
  · exact .inl rfl
  · split
    · exact .inr rfl
    · omega

theorem roundHalfEven_mul (num den : Nat) {k : Nat} (hk : 0 < k) :
    roundHalfEven (num * k) (den * k) = roundHalfEven num den := by
  rw [roundHalfEven, roundHalfEven, Nat.mul_div_mul_right num den hk, Nat.mul_mod_mul_right,
    ← Nat.mul_assoc]
  simp only [Nat.mul_lt_mul_right hk]

theorem nearest?_mul (negative : Bool) (num den : Nat) {k : Nat} (hk : 0 < k) :
    nearest? negative (num * k) (den * k) = nearest? negative num den := by
  rw [nearest?, nearest?, Nat.mul_div_mul_right num den hk]
  simp only [Nat.mul_right_comm den k, roundHalfEven_mul _ _ hk]

/-- Equal ratios have the same nearest double. -/
theorem ofRatio?_congr (negative : Bool) {num den num' den' : Nat} (hden : 0 < den)
    (hden' : 0 < den') (h : num * den' = num' * den) :
    ofRatio? negative num den = ofRatio? negative num' den' := by
  have hnum : num * powerOfTwo 1074 * den' = num' * powerOfTwo 1074 * den := by
    rw [Nat.mul_right_comm, h, Nat.mul_right_comm]
  rw [ofRatio?, ofRatio?, ← nearest?_mul _ _ _ hden', hnum, Nat.mul_comm den den',
    nearest?_mul _ _ _ hden]

theorem make?_self (x : Binary64) : make? x.negative x.significand x.shift = some x := by
  rw [make?, dif_pos x.canonical]

/-- A ratio in a binade is cut to 53 bits. -/
theorem log2_div {num den t : Nat} (hden : 0 < den) (hlow : powerOfTwo 52 * (den * powerOfTwo t) ≤ num)
    (hhigh : num < powerOfTwo 53 * (den * powerOfTwo t)) : Nat.log2 (num / den) - 52 = t := by
  have hge : powerOfTwo (52 + t) ≤ num / den := by
    rw [Nat.le_div_iff_mul_le hden, powerOfTwo_add]
    calc powerOfTwo 52 * powerOfTwo t * den = powerOfTwo 52 * (den * powerOfTwo t) := by ring
      _ ≤ num := hlow
  have hlt : num / den < powerOfTwo (52 + t + 1) := by
    rw [Nat.div_lt_iff_lt_mul hden, Nat.add_right_comm, powerOfTwo_add]
    calc num < powerOfTwo 53 * (den * powerOfTwo t) := hhigh
      _ = powerOfTwo 53 * powerOfTwo t * den := by ring
  have hne : num / den ≠ 0 := Nat.ne_of_gt (Nat.lt_of_lt_of_le (powerOfTwo_pos _) hge)
  have hlog : Nat.log2 (num / den) = 52 + t := (Nat.log2_eq_iff hne).2 ⟨hge, hlt⟩
  omega

/-- Below the first binade all doubles lie equally close. -/
theorem log2_div_of_small {num den : Nat} (hden : 0 < den) (h : num < powerOfTwo 53 * den) :
    Nat.log2 (num / den) - 52 = 0 := by
  have hlt : num / den < powerOfTwo 53 := (Nat.div_lt_iff_lt_mul hden).2 h
  by_cases hne : num / den = 0
  · rw [hne]
    rfl
  · have hlog := (Nat.log2_lt hne).2 hlt
    omega

/-- Below the smallest significand the numbers lie twice as close, so that such a ratio is cut to one
bit more and rounds up to a power of two. -/
theorem nearest?_below (negative : Bool) {num den t : Nat} (hden : 0 < den)
    (hlow : 4 * (powerOfTwo 52 * (den * powerOfTwo (t + 1))) ≤
      4 * num + den * powerOfTwo (t + 1))
    (hhigh : num < powerOfTwo 52 * (den * powerOfTwo (t + 1))) :
    nearest? negative num den = make? negative (powerOfTwo 52) (t + 1) := by
  have hsize : den * powerOfTwo (t + 1) = 2 * (den * powerOfTwo t) := by
    rw [powerOfTwo_succ]
    ring
  have hpos : 0 < den * powerOfTwo t := Nat.mul_pos hden (powerOfTwo_pos t)
  rw [hsize] at hlow hhigh
  generalize hunit : den * powerOfTwo t = unit at hlow hhigh hpos
  have htop : powerOfTwo 53 = powerOfTwo 52 * 2 := rfl
  have hdouble : powerOfTwo 52 * (2 * unit) = powerOfTwo 53 * unit := by rw [htop, Nat.mul_assoc]
  have hhalf : powerOfTwo 53 * unit = 2 * (powerOfTwo 52 * unit) := by rw [htop]; ring
  have hunits : unit ≤ powerOfTwo 52 * unit := Nat.le_mul_of_pos_left _ (powerOfTwo_pos 52)
  rw [hdouble] at hlow hhigh
  have hshift : Nat.log2 (num / den) - 52 = t := by
    refine log2_div hden ?_ ?_ <;> rw [hunit] <;> omega
  have hround : roundHalfEven num unit = powerOfTwo 53 := by
    refine roundHalfEven_eq hpos (by omega) (by omega) (fun hodd => ?_)
    exact absurd hodd (by decide)
  simp only [nearest?, hshift, hunit, hround, if_true]

theorem units_mul (x : Binary64) (den : Nat) :
    x.units * den = x.significand * (den * powerOfTwo x.shift) := by
  rw [units]
  ring

theorem below_mul (x : Binary64) (den : Nat) : (4 * x.units - x.margins.1) * den =
    4 * (x.significand * (den * powerOfTwo x.shift)) - x.margins.1 * den := by
  rw [Nat.sub_mul, Nat.mul_assoc, units_mul]

theorem above_mul (x : Binary64) (den : Nat) : (4 * x.units + x.margins.2) * den =
    4 * (x.significand * (den * powerOfTwo x.shift)) + 2 * (den * powerOfTwo x.shift) := by
  rw [Nat.add_mul, Nat.mul_assoc, units_mul, margins, Nat.mul_assoc, Nat.mul_comm den]

/-- The midpoint below lies half as far off if the significand is the least of its binade. -/
theorem margins_mul_of_least {x : Binary64} (hx : x.significand = powerOfTwo 52 ∧ x.shift ≠ 0)
    (den : Nat) : x.margins.1 * den = den * powerOfTwo x.shift := by
  rw [margins, if_pos hx, Nat.mul_comm]

theorem margins_mul {x : Binary64} (hx : ¬ (x.significand = powerOfTwo 52 ∧ x.shift ≠ 0))
    (den : Nat) : x.margins.1 * den = 2 * (den * powerOfTwo x.shift) := by
  rw [margins, if_neg hx, Nat.mul_assoc, Nat.mul_comm den]

/-- A ratio between the midpoints around a double, or at one of them if the significand is even. -/
structure Encloses (x : Binary64) (num den : Nat) : Prop where
  low : (4 * x.units - x.margins.1) * den ≤ 4 * num
  high : 4 * num ≤ (4 * x.units + x.margins.2) * den
  odd : x.significand % 2 = 1 → (4 * x.units - x.margins.1) * den < 4 * num ∧
    4 * num < (4 * x.units + x.margins.2) * den

namespace Encloses

variable {x : Binary64} {num den : Nat}

theorem roundHalfEven_eq (hden : 0 < den) (h : x.Encloses num den) :
    roundHalfEven num (den * powerOfTwo x.shift) = x.significand := by
  obtain ⟨hlow, hhigh, hodd⟩ := h
  rw [below_mul] at hlow hodd
  rw [above_mul] at hhigh hodd
  have hpos : 0 < den * powerOfTwo x.shift := Nat.mul_pos hden (powerOfTwo_pos _)
  by_cases hleast : x.significand = powerOfTwo 52 ∧ x.shift ≠ 0
  · rw [margins_mul_of_least hleast] at hlow
    refine Binary64.roundHalfEven_eq hpos (by omega) (by omega) (fun hs => ?_)
    rw [hleast.1] at hs
    exact absurd hs (by decide)
  · rw [margins_mul hleast] at hlow hodd
    refine Binary64.roundHalfEven_eq hpos (by omega) (by omega) (fun hs => ?_)
    have hstrict := hodd hs
    omega

/-- It lies below the next binade. -/
theorem lt_binade (hden : 0 < den) (h : x.Encloses num den) :
    num < powerOfTwo 53 * (den * powerOfTwo x.shift) := by
  have hpos : 0 < den * powerOfTwo x.shift := Nat.mul_pos hden (powerOfTwo_pos _)
  have hle : (x.significand + 1) * (den * powerOfTwo x.shift) ≤
      powerOfTwo 53 * (den * powerOfTwo x.shift) := Nat.mul_le_mul_right _ x.canonical.1
  have hhigh := h.high
  rw [above_mul] at hhigh
  rw [Nat.add_mul, Nat.one_mul] at hle
  omega

/-- It lies below the double's own binade only where the significand is the least of it. -/
theorem least_of_lt (hshift : x.shift ≠ 0) (h : x.Encloses num den)
    (hlt : num < powerOfTwo 52 * (den * powerOfTwo x.shift)) : x.significand = powerOfTwo 52 := by
  by_contra hne
  have hbits := x.canonical.2.1.resolve_right hshift
  have hle : (powerOfTwo 52 + 1) * (den * powerOfTwo x.shift) ≤
      x.significand * (den * powerOfTwo x.shift) := Nat.mul_le_mul_right _ (by omega)
  have hlow := h.low
  rw [below_mul, margins_mul (fun hleast => hne hleast.1)] at hlow
  rw [Nat.add_mul, Nat.one_mul] at hle
  omega

/-- Such a ratio is nearest to that double. -/
theorem nearest?_eq (hden : 0 < den) (h : x.Encloses num den) :
    nearest? x.negative num den = some x := by
  by_cases hbinade : powerOfTwo 52 * (den * powerOfTwo x.shift) ≤ num ∨ x.shift = 0
  · have hcut : Nat.log2 (num / den) - 52 = x.shift := by
      have htop := h.lt_binade hden
      obtain hbottom | hzero := hbinade
      · exact log2_div hden hbottom htop
      · rw [hzero, powerOfTwo_zero, Nat.mul_one] at htop
        rw [hzero]
        exact log2_div_of_small hden htop
    simp only [nearest?, hcut, h.roundHalfEven_eq hden, if_neg (Nat.ne_of_lt x.canonical.1),
      make?_self]
  · obtain ⟨hbottom, hshift⟩ := not_or.1 hbinade
    have hleast := h.least_of_lt hshift (Nat.not_le.1 hbottom)
    have hlow := h.low
    rw [below_mul, margins_mul_of_least ⟨hleast, hshift⟩, hleast] at hlow
    obtain ⟨t, ht⟩ := Nat.exists_eq_succ_of_ne_zero hshift
    rw [ht] at hlow hbottom
    have hself := make?_self x
    rw [hleast, ht] at hself
    rw [← hself]
    exact nearest?_below x.negative hden (Nat.sub_le_iff_le_add.1 hlow) (Nat.not_le.1 hbottom)

end Encloses

/-- Cut so, a number has 53 bits, or fewer of which none was cut. -/
theorem cut_bounds (n : Nat) : n / powerOfTwo (Nat.log2 n - 52) < powerOfTwo 53 ∧
    (powerOfTwo 52 ≤ n / powerOfTwo (Nat.log2 n - 52) ∨ Nat.log2 n - 52 = 0) := by
  have hbelow : n < powerOfTwo (Nat.log2 n + 1) := Nat.lt_log2_self
  constructor
  · rw [Nat.div_lt_iff_lt_mul (powerOfTwo_pos _), ← powerOfTwo_add]
    exact Nat.lt_of_lt_of_le hbelow (powerOfTwo_le (by omega))
  · by_cases hsmall : Nat.log2 n ≤ 52
    · exact .inr (by omega)
    · have hne : n ≠ 0 := by
        rintro rfl
        exact hsmall (by decide)
      refine .inl ?_
      rw [Nat.le_div_iff_mul_le (powerOfTwo_pos _), ← powerOfTwo_add]
      exact Nat.le_trans (powerOfTwo_le (by omega)) (Nat.log2_self_le hne)

theorem isSome_make? (negative : Bool) {s t : Nat} (h : Canonical s t) :
    (make? negative s t).isSome = true := by
  rw [make?, dif_pos h]
  rfl

/-- Far enough below the largest double there is a nearest one. -/
theorem isSome_nearest? (negative : Bool) {num den n : Nat} (hn : n ≤ 2097)
    (h : num < powerOfTwo n * den) : (nearest? negative num den).isSome = true := by
  rw [Nat.mul_comm] at h
  have hlt : num / den < powerOfTwo n := Nat.div_lt_of_lt_mul h
  have hlog : Nat.log2 (num / den) ≤ 2096 := by
    by_cases hne : num / den = 0
    · rw [hne]
      decide
    · have hbit := (Nat.log2_lt hne).2 hlt
      omega
  obtain ⟨hbits, hnormal⟩ := cut_bounds (num / den)
  rw [Nat.div_div_eq_div_mul] at hbits hnormal
  rw [nearest?]
  split
  · exact isSome_make? negative ⟨by decide, .inl (by decide), by omega⟩
  · rename_i hne
    obtain hfloor | hceil := roundHalfEven_cases num
      (den * powerOfTwo (Nat.log2 (num / den) - 52))
    · rw [hfloor]
      exact isSome_make? negative ⟨hbits, hnormal, by omega⟩
    · rw [hceil] at hne ⊢
      exact isSome_make? negative ⟨by omega, hnormal.imp_left (by omega), by omega⟩

end Binary64
end LivePanel
