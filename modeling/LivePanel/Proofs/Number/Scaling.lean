import LivePanel.Json.Numeral
import LivePanel.Proofs.Number.Rounding

/-!
# Doubles scaled by powers of ten

A double near a ratio is not much larger or smaller than it, so a product or a quotient of two of
them is not too large if the exact one leaves room for what was rounded. Main statements:
`exists_scale?_of_lt` and `exists_scale?_of_neg`.
-/
namespace LivePanel

namespace Binary64

/-- Rounding adds half a unit at most, and no more than there was. -/
theorem roundHalfEven_le (num : Nat) {den : Nat} (hden : 0 < den) :
    2 * (roundHalfEven num den * den) ≤ 2 * num + den ∧ roundHalfEven num den * den ≤ 2 * num := by
  have hsplit := Nat.div_add_mod num den
  have hmod := Nat.mod_lt num hden
  rw [roundHalfEven]
  generalize num / den = floor at hsplit ⊢
  generalize num % den = rest at hsplit hmod ⊢
  rw [Nat.mul_comm den floor] at hsplit
  have hup : (floor + 1) * den = floor * den + den := Nat.succ_mul floor den
  split
  · omega
  · split
    · omega
    · obtain heven | hodd := Nat.mod_two_eq_zero_or_one floor
      · rw [heven, Nat.add_zero]
        omega
      · rw [hodd]
        omega

theorem div_le_roundHalfEven (num den : Nat) : num / den ≤ roundHalfEven num den := by
  obtain hfloor | hceil := roundHalfEven_cases num den <;> omega

theorem units_of_make? {negative : Bool} {s t : Nat} {r : Binary64}
    (h : make? negative s t = some r) : r.units = s * powerOfTwo t := by
  rw [make?] at h
  split at h
  · obtain rfl := Option.some.inj h
    rfl
  · cases h

/-- The size of the nearest double, as it was rounded on the grid of its binade. -/
theorem units_of_nearest? {negative : Bool} {num den : Nat} {r : Binary64}
    (h : nearest? negative num den = some r) :
    r.units = roundHalfEven num (den * powerOfTwo (Nat.log2 (num / den) - 52)) *
      powerOfTwo (Nat.log2 (num / den) - 52) := by
  simp only [nearest?] at h
  split at h
  · rename_i hcarry
    have hdouble : powerOfTwo 53 = powerOfTwo 52 * 2 := rfl
    rw [hcarry, units_of_make? h, powerOfTwo_succ (Nat.log2 (num / den) - 52), hdouble]
    ring
  · exact units_of_make? h

variable {negative : Bool} {num den : Nat} {r : Binary64}

theorem units_mul_of_nearest? (h : nearest? negative num den = some r) :
    r.units * den = roundHalfEven num (den * powerOfTwo (Nat.log2 (num / den) - 52)) *
      (den * powerOfTwo (Nat.log2 (num / den) - 52)) := by
  rw [units_of_nearest? h]
  ring

theorem grid_pos (num : Nat) (hden : 0 < den) : 0 < den * powerOfTwo (Nat.log2 (num / den) - 52) :=
  Nat.mul_pos hden (powerOfTwo_pos _)

theorem units_le_of_nearest? (hden : 0 < den) (h : nearest? negative num den = some r) :
    r.units * den ≤ 2 * num := by
  rw [units_mul_of_nearest? h]
  exact (roundHalfEven_le num (grid_pos num hden)).2

/-- The grid is finer than the number by 52 bits, unless that is smaller than the grid can be. -/
theorem grid_le (hden : 0 < den) (hle : powerOfTwo 52 * den ≤ num) :
    powerOfTwo 52 * (den * powerOfTwo (Nat.log2 (num / den) - 52)) ≤ num := by
  have hquotient : powerOfTwo 52 ≤ num / den := (Nat.le_div_iff_mul_le hden).2 hle
  have hne : num / den ≠ 0 := Nat.ne_of_gt (Nat.lt_of_lt_of_le (powerOfTwo_pos 52) hquotient)
  have hlog : 52 ≤ Nat.log2 (num / den) := (Nat.le_log2 hne).2 hquotient
  calc powerOfTwo 52 * (den * powerOfTwo (Nat.log2 (num / den) - 52))
      = powerOfTwo (52 + (Nat.log2 (num / den) - 52)) * den := by rw [powerOfTwo_add]; ring
    _ = powerOfTwo (Nat.log2 (num / den)) * den := by rw [Nat.add_sub_cancel' hlog]
    _ ≤ num / den * den := Nat.mul_le_mul_right _ (Nat.log2_self_le hne)
    _ ≤ num := Nat.div_mul_le_self num den

/-- A size of 53 bits or more is off by one part in `2 ^ 53` at most. -/
theorem units_mul_le_of_nearest? (hden : 0 < den) (hle : powerOfTwo 52 * den ≤ num)
    (h : nearest? negative num den = some r) :
    r.units * den * powerOfTwo 53 ≤ num * (powerOfTwo 53 + 1) := by
  have hround := (roundHalfEven_le num (grid_pos num hden)).1
  have hgrid := grid_le hden hle
  rw [← units_mul_of_nearest? h] at hround
  have htwice : powerOfTwo 53 = powerOfTwo 52 * 2 := rfl
  generalize den * powerOfTwo (Nat.log2 (num / den) - 52) = grid at hround hgrid
  calc r.units * den * powerOfTwo 53
      = 2 * (r.units * den) * powerOfTwo 52 := by rw [htwice]; ring
    _ ≤ (2 * num + grid) * powerOfTwo 52 := Nat.mul_le_mul_right _ hround
    _ = num * powerOfTwo 53 + powerOfTwo 52 * grid := by rw [htwice]; ring
    _ ≤ num * powerOfTwo 53 + num := Nat.add_le_add_left hgrid _
    _ = num * (powerOfTwo 53 + 1) := by ring

/-- And it is not halved. -/
theorem le_units_of_nearest? (hden : 0 < den) (hle : powerOfTwo 52 * den ≤ num)
    (h : nearest? negative num den = some r) : num ≤ 2 * (r.units * den) := by
  have hgrid := grid_le hden hle
  have hpos := grid_pos num hden
  rw [units_mul_of_nearest? h]
  generalize den * powerOfTwo (Nat.log2 (num / den) - 52) = grid at hgrid hpos ⊢
  have hfloor := div_le_roundHalfEven num grid
  have hone : grid ≤ roundHalfEven num grid * grid := by
    refine Nat.le_mul_of_pos_left _ (Nat.lt_of_lt_of_le ?_ hfloor)
    refine Nat.div_pos (Nat.le_trans ?_ hgrid) hpos
    exact Nat.le_mul_of_pos_left _ (powerOfTwo_pos 52)
  have hrest : num < num / grid * grid + grid := by
    have hmod := Nat.mod_lt num hpos
    have hsplit := Nat.div_add_mod' num grid
    omega
  have hmul := Nat.mul_le_mul_right grid hfloor
  omega

/-- What rounds to the largest double or below it has a nearest one. -/
theorem exists_nearest?_of_lt (negative : Bool) {num den : Nat} (hden : 0 < den)
    (h : 2 * num < (powerOfTwo 54 - 1) * (den * powerOfTwo 2045)) :
    ∃ r, nearest? negative num den = some r := by
  by_cases hsmall : num < powerOfTwo 2097 * den
  · exact Option.isSome_iff_exists.1 (isSome_nearest? negative (Nat.le_refl 2097) hsmall)
  · -- in the last binade the significand cannot carry
    have hbinade : powerOfTwo 52 * (den * powerOfTwo 2045) ≤ num := by
      have hsum : powerOfTwo 2097 = powerOfTwo 52 * powerOfTwo 2045 := powerOfTwo_add 52 2045
      rw [hsum, Nat.mul_assoc, Nat.mul_comm _ den] at hsmall
      exact Nat.not_lt.1 hsmall
    have hpos : 0 < den * powerOfTwo 2045 := Nat.mul_pos hden (powerOfTwo_pos _)
    have htop : num < powerOfTwo 53 * (den * powerOfTwo 2045) := by
      have hbits : powerOfTwo 54 - 1 ≤ 2 * powerOfTwo 53 := by decide
      have hmul := Nat.mul_le_mul_right (den * powerOfTwo 2045) hbits
      rw [Nat.mul_assoc] at hmul
      omega
    have hshift : Nat.log2 (num / den) - 52 = 2045 := log2_div hden hbinade htop
    have hround := (roundHalfEven_le num hpos).1
    have hfloor := div_le_roundHalfEven num (den * powerOfTwo 2045)
    have hleast : powerOfTwo 52 ≤ num / (den * powerOfTwo 2045) :=
      (Nat.le_div_iff_mul_le hpos).2 hbinade
    have hmost : roundHalfEven num (den * powerOfTwo 2045) < powerOfTwo 53 := by
      have hbits : powerOfTwo 54 - 1 + 1 = 2 * powerOfTwo 53 := by decide
      have hlt : 2 * (roundHalfEven num (den * powerOfTwo 2045) * (den * powerOfTwo 2045)) <
          2 * powerOfTwo 53 * (den * powerOfTwo 2045) := by
        rw [← hbits, Nat.add_one_mul (powerOfTwo 54 - 1)]
        omega
      rw [Nat.mul_assoc] at hlt
      exact Nat.lt_of_mul_lt_mul_right (Nat.lt_of_mul_lt_mul_left hlt)
    simp only [nearest?, hshift, if_neg (Nat.ne_of_lt hmost)]
    exact Option.isSome_iff_exists.1
      (isSome_make? negative ⟨hmost, .inl (Nat.le_trans hleast hfloor), Nat.le_refl 2045⟩)

/-- The double nearest a power of ten that is not too large. -/
theorem powerOfTen?_eq {n : Nat} (hn : n ≤ 308) :
    powerOfTen? n = nearest? false (powerOfTen n * powerOfTwo 1074) 1 := by
  have hmagnitude : (⟨1, n⟩ : Decimal).magnitude = n := by
    have hone : digits 1 = [digitChar 1] := digits_of_lt (by decide)
    simp [Decimal.magnitude, hone]
  have hhigh : ¬ (309 : Int) ≤ n := by omega
  have hlow : ¬ (n : Int) < -325 := by omega
  rw [powerOfTen?, Decimal.toBinary64?, if_neg Nat.one_ne_zero, hmagnitude, if_neg hhigh,
    if_neg hlow, ofRatio?]
  simp

/-- There is one, and it is near the power. -/
theorem exists_powerOfTen? {n : Nat} (hn : n ≤ 308) : ∃ y, powerOfTen? n = some y ∧
    y.units * powerOfTwo 53 ≤ powerOfTen n * powerOfTwo 1074 * (powerOfTwo 53 + 1) ∧
    powerOfTen n * powerOfTwo 1074 ≤ 2 * y.units := by
  have hle : powerOfTen n ≤ powerOfTen 308 := powerOfTen_le hn
  have hroom : 2 * (powerOfTen 308 * powerOfTwo 1074) <
      (powerOfTwo 54 - 1) * (1 * powerOfTwo 2045) := by decide +kernel
  have hlarge : powerOfTwo 52 * 1 ≤ powerOfTen n * powerOfTwo 1074 := by
    rw [Nat.mul_one]
    exact Nat.le_trans (powerOfTwo_le (by decide)) (Nat.le_mul_of_pos_left _ (powerOfTen_pos n))
  obtain ⟨y, hy⟩ := exists_nearest?_of_lt false Nat.one_pos
    (Nat.lt_of_le_of_lt (Nat.mul_le_mul_left 2 (Nat.mul_le_mul_right _ hle)) hroom)
  have habove := units_mul_le_of_nearest? Nat.one_pos hlarge hy
  have hbelow := le_units_of_nearest? Nat.one_pos hlarge hy
  rw [Nat.mul_one] at habove hbelow
  exact ⟨y, (powerOfTen?_eq hn).trans hy, habove, hbelow⟩

/-- A product is not too large if twice the rounding is left over. -/
theorem exists_scale?_of_lt {x : Binary64} {n : Nat} (hn : n ≤ 308)
    (h : 2 * (x.units * (powerOfTen n * (powerOfTwo 53 + 1))) <
      (powerOfTwo 54 - 1) * powerOfTwo 2045 * powerOfTwo 53) : ∃ z, x.scale? n = some z := by
  obtain ⟨y, hy, habove, -⟩ := exists_powerOfTen? hn
  have hroom : 2 * (x.units * y.units) <
      (powerOfTwo 54 - 1) * (powerOfTwo 1074 * powerOfTwo 2045) := by
    refine Nat.lt_of_mul_lt_mul_right (a := powerOfTwo 53) ?_
    calc 2 * (x.units * y.units) * powerOfTwo 53
        = 2 * x.units * (y.units * powerOfTwo 53) := by ring
      _ ≤ 2 * x.units * (powerOfTen n * powerOfTwo 1074 * (powerOfTwo 53 + 1)) :=
          Nat.mul_le_mul_left _ habove
      _ = 2 * (x.units * (powerOfTen n * (powerOfTwo 53 + 1))) * powerOfTwo 1074 := by ring
      _ < (powerOfTwo 54 - 1) * powerOfTwo 2045 * powerOfTwo 53 * powerOfTwo 1074 :=
          Nat.mul_lt_mul_of_pos_right h (powerOfTwo_pos _)
      _ = (powerOfTwo 54 - 1) * (powerOfTwo 1074 * powerOfTwo 2045) * powerOfTwo 53 := by ring
  obtain ⟨z, hz⟩ := exists_nearest?_of_lt x.negative (powerOfTwo_pos 1074) hroom
  refine ⟨z, ?_⟩
  have hsize : (n : Int).natAbs = n := rfl
  simp only [scale?, hsize, Int.natCast_nonneg, if_true, if_pos hn, hy, Option.bind_some]
  exact hz

/-- A quotient by two or more is no larger. -/
theorem exists_scaleDown? {x y : Binary64} (hx : x.units < powerOfTwo 2097)
    (hy : powerOfTwo 1075 ≤ y.units) :
    ∃ z, x.scaleDown? y = some z ∧ z.units < powerOfTwo 2097 := by
  have hpos : 0 < y.units := Nat.lt_of_lt_of_le (powerOfTwo_pos 1075) hy
  have hone : powerOfTwo 1074 ≤ y.units := Nat.le_trans (powerOfTwo_le (by decide)) hy
  have hlt : x.units * powerOfTwo 1074 < powerOfTwo 2097 * y.units :=
    Nat.mul_lt_mul_of_lt_of_le hx hone hpos
  obtain ⟨z, hz⟩ := Option.isSome_iff_exists.1
    (isSome_nearest? x.negative (Nat.le_refl 2097) hlt)
  refine ⟨z, hz, Nat.lt_of_le_of_lt ?_ hx⟩
  have hle := units_le_of_nearest? hpos hz
  refine Nat.le_of_mul_le_mul_right (c := powerOfTwo 1075) ?_ (powerOfTwo_pos 1075)
  calc z.units * powerOfTwo 1075 ≤ z.units * y.units := Nat.mul_le_mul_left _ hy
    _ ≤ 2 * (x.units * powerOfTwo 1074) := hle
    _ = x.units * powerOfTwo 1075 := by
        rw [powerOfTwo_succ 1074]
        ring

theorem exists_scaleDown?_powerOfTen {x : Binary64} (hx : x.units < powerOfTwo 2097) {n : Nat}
    (hpos : 0 < n) (hn : n ≤ 308) :
    ∃ z, (powerOfTen? n).bind x.scaleDown? = some z ∧ z.units < powerOfTwo 2097 := by
  obtain ⟨y, hy, -, hbelow⟩ := exists_powerOfTen? hn
  have hten : 10 ≤ powerOfTen n := powerOfTen_le (m := 1) hpos
  have htwice : powerOfTwo 1075 = powerOfTwo 1074 * 2 := powerOfTwo_succ 1074
  have hmul := Nat.mul_le_mul_right (powerOfTwo 1074) hten
  have hlarge : powerOfTwo 1075 ≤ y.units := by omega
  rw [hy, Option.bind_some]
  exact exists_scaleDown? hx hlarge

theorem exists_shrink? {x : Binary64} (hx : x.units < powerOfTwo 2097) (blocks : Nat) :
    ∃ z, x.shrink? blocks = some z ∧ z.units < powerOfTwo 2097 := by
  induction blocks generalizing x with
  | zero => exact ⟨x, rfl, hx⟩
  | succ blocks ih =>
    rw [shrink?]
    split
    · exact ⟨x, rfl, hx⟩
    · obtain ⟨y, hy, hless⟩ := exists_scaleDown?_powerOfTen hx (n := 308) (by decide) (by decide)
      rw [hy]
      exact ih hless

/-- Division by a power of ten makes no number too large. -/
theorem exists_scale?_of_neg {x : Binary64} (hx : x.units < powerOfTwo 2097) {power : Int}
    (hpower : power < 0) : ∃ z, x.scale? power = some z := by
  obtain ⟨y, hy, hless⟩ := exists_shrink? hx ((power.natAbs - 1) / 308)
  obtain ⟨z, hz, -⟩ := exists_scaleDown?_powerOfTen hless
    (n := power.natAbs - 308 * ((power.natAbs - 1) / 308)) (by omega) (by omega)
  refine ⟨z, ?_⟩
  rw [scale?]
  dsimp only
  rw [if_neg (Int.not_le.2 hpower), hy, Option.bind_some]
  exact hz

/-- A whole number of 64 bits has a nearest double, which is near enough to be scaled. -/
theorem exists_ofRatio?_word (negative : Bool) {n : Nat} (hn : n < powerOfTwo 64) :
    ∃ x, ofRatio? negative n 1 = some x ∧ x.units < powerOfTwo 2097 ∧
      x.units * powerOfTwo 53 ≤ n * powerOfTwo 1074 * (powerOfTwo 53 + 1) := by
  have hlt : n * powerOfTwo 1074 < powerOfTwo 1138 * 1 := by
    have hsum : powerOfTwo 1138 = powerOfTwo 64 * powerOfTwo 1074 := powerOfTwo_add 64 1074
    rw [Nat.mul_one, hsum]
    exact Nat.mul_lt_mul_of_pos_right hn (powerOfTwo_pos _)
  obtain ⟨x, hx⟩ := Option.isSome_iff_exists.1 (isSome_nearest? negative (by decide) hlt)
  have hle := units_le_of_nearest? Nat.one_pos hx
  have hless : x.units < powerOfTwo 2097 := by
    have hroom : 2 * powerOfTwo 1138 ≤ powerOfTwo 2097 := by decide +kernel
    omega
  refine ⟨x, hx, hless, ?_⟩
  obtain rfl | hpos := Nat.eq_zero_or_pos n
  · have hzero : x.units = 0 := by omega
    simp [hzero]
  · have hlarge : powerOfTwo 52 * 1 ≤ n * powerOfTwo 1074 := by
      rw [Nat.mul_one]
      exact Nat.le_trans (powerOfTwo_le (by decide)) (Nat.le_mul_of_pos_left _ hpos)
    have habove := units_mul_le_of_nearest? Nat.one_pos hlarge hx
    rwa [Nat.mul_one] at habove

end Binary64

namespace Numeral

open Binary64

variable {s : Significand} {power : Int}

/-- The digits are rounded before they are scaled. -/
theorem real_eq_elim (negative : Bool) (s : Significand) (power : Int) : real negative s power =
    ((ofRatio? negative s.value 1).bind (·.scale? (s.scale + power))).elim (.error .tooLarge)
      (.ok <| .real ·) := by
  -- opened as a function, since an applied one would be evaluated
  have hdef : real = fun negative s power =>
      ((ofRatio? negative s.value 1).bind (·.scale? (s.scale + power))).elim
        (.error .tooLarge) (.ok <| .real ·) := by
    delta real
    funext negative s power
    generalize (ofRatio? negative s.value 1).bind (·.scale? (s.scale + power)) = o
    cases o <;> rfl
  rw [hdef]

theorem real_of_scale? {negative : Bool} {x z : Binary64}
    (hx : ofRatio? negative s.value 1 = some x) (hz : x.scale? (s.scale + power) = some z) :
    real negative s power = .ok (.real z) := by
  rw [real_eq_elim, hx, Option.bind_some, hz, Option.elim_some]

theorem exists_real_of_neg (negative : Bool) (hs : s.value < powerOfTwo 64)
    (hpower : s.scale + power < 0) : ∃ x, real negative s power = .ok (.real x) := by
  obtain ⟨x, hx, hless, -⟩ := exists_ofRatio?_word negative hs
  obtain ⟨z, hz⟩ := exists_scale?_of_neg hless hpower
  exact ⟨z, real_of_scale? hx hz⟩

/-- A product is not too large if three roundings leave it below the largest double. -/
theorem exists_real_of_lt (negative : Bool) (hs : s.value < powerOfTwo 64) {n : Nat}
    (hpower : s.scale + power = n) (hn : n ≤ 308)
    (h : 2 * (s.value * powerOfTen n * powerOfTwo 1074) *
        ((powerOfTwo 53 + 1) * (powerOfTwo 53 + 1)) <
      (powerOfTwo 54 - 1) * powerOfTwo 2045 * (powerOfTwo 53 * powerOfTwo 53)) :
    ∃ x, real negative s power = .ok (.real x) := by
  obtain ⟨x, hx, -, habove⟩ := exists_ofRatio?_word negative hs
  have hroom : 2 * (x.units * (powerOfTen n * (powerOfTwo 53 + 1))) <
      (powerOfTwo 54 - 1) * powerOfTwo 2045 * powerOfTwo 53 := by
    refine Nat.lt_of_mul_lt_mul_right (a := powerOfTwo 53) ?_
    calc 2 * (x.units * (powerOfTen n * (powerOfTwo 53 + 1))) * powerOfTwo 53
        = 2 * (powerOfTen n * (powerOfTwo 53 + 1)) * (x.units * powerOfTwo 53) := by ring
      _ ≤ 2 * (powerOfTen n * (powerOfTwo 53 + 1)) *
            (s.value * powerOfTwo 1074 * (powerOfTwo 53 + 1)) := Nat.mul_le_mul_left _ habove
      _ = 2 * (s.value * powerOfTen n * powerOfTwo 1074) *
            ((powerOfTwo 53 + 1) * (powerOfTwo 53 + 1)) := by ring
      _ < (powerOfTwo 54 - 1) * powerOfTwo 2045 * (powerOfTwo 53 * powerOfTwo 53) := h
      _ = (powerOfTwo 54 - 1) * powerOfTwo 2045 * powerOfTwo 53 * powerOfTwo 53 := by ring
  obtain ⟨z, hz⟩ := exists_scale?_of_lt hn hroom
  exact ⟨z, real_of_scale? hx (hpower ▸ hz)⟩

/-- Nothing that is not multiplied is too large. -/
theorem exists_real_of_nonpos (negative : Bool) (hs : s.value < powerOfTwo 64)
    (hpower : s.scale + power ≤ 0) : ∃ x, real negative s power = .ok (.real x) := by
  obtain hneg | hzero := Int.lt_or_eq_of_le hpower
  · exact exists_real_of_neg negative hs hneg
  · refine exists_real_of_lt negative hs (n := 0) hzero (by decide) ?_
    rw [powerOfTen_zero, Nat.mul_one]
    have hroom : 2 * (powerOfTwo 64 * powerOfTwo 1074) *
        ((powerOfTwo 53 + 1) * (powerOfTwo 53 + 1)) <
      (powerOfTwo 54 - 1) * powerOfTwo 2045 * (powerOfTwo 53 * powerOfTwo 53) := by decide +kernel
    refine Nat.lt_of_le_of_lt (Nat.mul_le_mul_right _ (Nat.mul_le_mul_left 2 ?_)) hroom
    exact Nat.mul_le_mul_right _ (Nat.le_of_lt hs)

end Numeral
end LivePanel
