import LivePanel.Proofs.Number.Reading
import LivePanel.Proofs.Number.Rounding

/-!
# Doubles as they are written

A decimal that lies near enough to a double is read as that double, however many zeros it ends in.
Of seventeen digits one always lies near enough. Main statements: `toBinary64?_padded`,
`toBinary64?_of_readsBack` and `readsBack_shortest`.
-/
namespace LivePanel

namespace Decimal

/-- Zeros at the end of a coefficient make no difference. -/
theorem toBinary64?_padded (negative : Bool) {d : Decimal} (hd : d.coefficient ≠ 0) (k : Nat) :
    (d.padded k).toBinary64? negative = d.toBinary64? negative := by
  have hmagnitude : (d.padded k).magnitude = d.magnitude := by
    have hlength := length_digits_pos d.coefficient
    rw [magnitude, magnitude, padded, digits_mul_powerOfTen (Nat.pos_of_ne_zero hd),
      List.length_append, length_zeros]
    dsimp only
    omega
  have hcoefficient : (d.padded k).coefficient ≠ 0 :=
    Nat.mul_ne_zero hd (Nat.ne_of_gt (powerOfTen_pos k))
  have hpowers : powerOfTen k * powerOfTen (d.exponent - k).toNat * powerOfTen (-d.exponent).toNat =
      powerOfTen d.exponent.toNat * powerOfTen (-(d.exponent - k)).toNat := by
    rw [← powerOfTen_add, ← powerOfTen_add, ← powerOfTen_add]
    congr 1
    omega
  have hratio : d.coefficient * powerOfTen k * powerOfTen (d.exponent - k).toNat *
        powerOfTen (-d.exponent).toNat =
      d.coefficient * powerOfTen d.exponent.toNat * powerOfTen (-(d.exponent - k)).toNat := by
    rw [Nat.mul_assoc, Nat.mul_assoc, ← Nat.mul_assoc (powerOfTen k), hpowers, ← Nat.mul_assoc]
  have hsame := Binary64.ofRatio?_congr negative (powerOfTen_pos _) (powerOfTen_pos _) hratio
  rw [toBinary64?, toBinary64?, if_neg hcoefficient, if_neg hd, hmagnitude, padded, hsame]

/-- A decimal is as large as its first digit says. -/
theorem le_of_le_magnitude {d : Decimal} (hd : d.coefficient ≠ 0) {n : Nat}
    (h : (n : Int) ≤ d.magnitude) : powerOfTen n * powerOfTen (-d.exponent).toNat ≤
      d.coefficient * powerOfTen d.exponent.toNat := by
  have hfirst := powerOfTen_le_of_digits (Nat.pos_of_ne_zero hd)
  rw [magnitude] at h
  calc powerOfTen n * powerOfTen (-d.exponent).toNat
      = powerOfTen (n + (-d.exponent).toNat) := (powerOfTen_add _ _).symm
    _ ≤ powerOfTen ((digits d.coefficient).length - 1 + d.exponent.toNat) :=
        powerOfTen_le (by omega)
    _ = powerOfTen ((digits d.coefficient).length - 1) * powerOfTen d.exponent.toNat :=
        powerOfTen_add _ _
    _ ≤ d.coefficient * powerOfTen d.exponent.toNat := Nat.mul_le_mul_right _ hfirst

theorem lt_of_magnitude_lt {d : Decimal} {n : Nat} (h : d.magnitude < -n) :
    d.coefficient * powerOfTen d.exponent.toNat * powerOfTen n < powerOfTen (-d.exponent).toNat := by
  have hlength := length_digits_pos d.coefficient
  have hdigits := lt_powerOfTen_of_digits d.coefficient
  rw [magnitude] at h
  calc d.coefficient * powerOfTen d.exponent.toNat * powerOfTen n
      = d.coefficient * powerOfTen (d.exponent.toNat + n) := by rw [Nat.mul_assoc, powerOfTen_add]
    _ < powerOfTen (digits d.coefficient).length * powerOfTen (d.exponent.toNat + n) :=
        Nat.mul_lt_mul_of_pos_right hdigits (powerOfTen_pos _)
    _ = powerOfTen ((digits d.coefficient).length + (d.exponent.toNat + n)) :=
        (powerOfTen_add _ _).symm
    _ ≤ powerOfTen (-d.exponent).toNat := powerOfTen_le (by omega)

end Decimal

namespace Binary64

/-- A double above zero is not below the distance to its neighbours. -/
theorem step_le_units {x : Binary64} (hx : x.significand ≠ 0) : powerOfTwo x.shift ≤ x.units :=
  Nat.le_mul_of_pos_left _ (Nat.pos_of_ne_zero hx)

theorem units_lt (x : Binary64) : x.units < powerOfTwo 2098 := by
  obtain ⟨hbits, -, hshift⟩ := x.canonical
  have hpower : powerOfTwo 2098 = powerOfTwo 53 * powerOfTwo 2045 := powerOfTwo_add 53 2045
  rw [hpower, units]
  exact Nat.mul_lt_mul_of_lt_of_le hbits (powerOfTwo_le hshift) (powerOfTwo_pos _)

theorem margins_fst_le (x : Binary64) : x.margins.1 ≤ 2 * powerOfTwo x.shift := by
  rw [margins]
  dsimp only
  split <;> omega

theorem Encloses.den_le {x : Binary64} (hx : x.significand ≠ 0) {num den : Nat}
    (h : x.Encloses num den) : den ≤ 2 * num := by
  have hstep := step_le_units hx
  have hmargin := margins_fst_le x
  have hpos := powerOfTwo_pos x.shift
  have hscale : 2 * den ≤ (4 * x.units - x.margins.1) * den := Nat.mul_le_mul_right den (by omega)
  have hlow := h.low
  omega

theorem Encloses.num_lt {x : Binary64} (hx : x.significand ≠ 0) {num den : Nat} (hden : 0 < den)
    (h : x.Encloses num den) : num < powerOfTwo 2099 * den := by
  have hstep := step_le_units hx
  have hmargin : x.margins.2 = 2 * powerOfTwo x.shift := rfl
  have htop : powerOfTwo 2099 = powerOfTwo 2098 * 2 := powerOfTwo_succ 2098
  have hunits := units_lt x
  have hscale : (4 * x.units + x.margins.2 + 2) * den ≤ (4 * powerOfTwo 2099) * den :=
    Nat.mul_le_mul_right den (by omega)
  rw [Nat.add_mul, Nat.mul_assoc] at hscale
  have hhigh := h.high
  omega

theorem powerOfTwo_quarters : powerOfTwo 1076 = powerOfTwo 1074 * 4 := by
  have hsum : powerOfTwo 1076 = powerOfTwo 1074 * powerOfTwo 2 := powerOfTwo_add 1074 2
  have hfour : powerOfTwo 2 = 4 := rfl
  rw [hsum, hfour]

/-- A decimal that reads back as a double lies between the midpoints around it. -/
theorem encloses_of_readsBack {x : Binary64} {d : Decimal} (h : x.readsBack d = true) :
    x.Encloses (d.coefficient * powerOfTen d.exponent.toNat * powerOfTwo 1074)
      (powerOfTen (-d.exponent).toNat) := by
  have hpoint : d.coefficient * powerOfTen d.exponent.toNat * powerOfTwo 1076 =
      4 * (d.coefficient * powerOfTen d.exponent.toNat * powerOfTwo 1074) := by
    rw [powerOfTwo_quarters, ← Nat.mul_assoc, Nat.mul_comm]
  rw [readsBack, hpoint] at h
  split at h
  · rename_i heven
    simp only [Bool.and_eq_true, decide_eq_true_eq] at h
    exact ⟨h.1, h.2, fun hodd => absurd (heven.symm.trans hodd) (by decide)⟩
  · simp only [Bool.and_eq_true, decide_eq_true_eq] at h
    exact ⟨Nat.le_of_lt h.1, Nat.le_of_lt h.2, fun _ => h⟩

theorem coefficient_ne_zero_of_readsBack {x : Binary64} (hx : x.significand ≠ 0) {d : Decimal}
    (h : x.readsBack d = true) : d.coefficient ≠ 0 := by
  have hden := powerOfTen_pos (-d.exponent).toNat
  have hlow := (encloses_of_readsBack h).den_le hx
  intro hzero
  rw [hzero] at hlow
  omega

/-- Such a decimal is read as that double. -/
theorem toBinary64?_of_readsBack {x : Binary64} (hx : x.significand ≠ 0) {d : Decimal}
    (h : x.readsBack d = true) : d.toBinary64? x.negative = some x := by
  have hencloses := encloses_of_readsBack h
  have hden := powerOfTen_pos (-d.exponent).toNat
  have hlow := hencloses.den_le hx
  have hhigh := hencloses.num_lt hx hden
  have hcoefficient := coefficient_ne_zero_of_readsBack hx h
  have hlarge : ¬ 309 ≤ d.magnitude := by
    intro hm
    have hsize := Decimal.le_of_le_magnitude (n := 309) hcoefficient hm
    have hcut : powerOfTwo 2099 ≤ powerOfTen 309 * powerOfTwo 1074 := by decide +kernel
    refine absurd hhigh (Nat.not_lt.2 ?_)
    calc powerOfTwo 2099 * powerOfTen (-d.exponent).toNat
        ≤ powerOfTen 309 * powerOfTwo 1074 * powerOfTen (-d.exponent).toNat :=
          Nat.mul_le_mul_right _ hcut
      _ = powerOfTen 309 * powerOfTen (-d.exponent).toNat * powerOfTwo 1074 :=
          Nat.mul_right_comm _ _ _
      _ ≤ d.coefficient * powerOfTen d.exponent.toNat * powerOfTwo 1074 :=
          Nat.mul_le_mul_right _ hsize
  have hsmall : ¬ d.magnitude < -325 := by
    intro hm
    have hsize := Decimal.lt_of_magnitude_lt (n := 325) hm
    have hcut : 2 * powerOfTwo 1074 ≤ powerOfTen 325 := by decide +kernel
    refine absurd hlow (Nat.not_le.2 ?_)
    calc 2 * (d.coefficient * powerOfTen d.exponent.toNat * powerOfTwo 1074)
        = d.coefficient * powerOfTen d.exponent.toNat * (2 * powerOfTwo 1074) :=
          Nat.mul_left_comm _ _ _
      _ ≤ d.coefficient * powerOfTen d.exponent.toNat * powerOfTen 325 :=
          Nat.mul_le_mul_left _ hcut
      _ < powerOfTen (-d.exponent).toNat := hsize
  rw [Decimal.toBinary64?, if_neg hcoefficient, if_neg hlarge, if_neg hsmall, ofRatio?]
  exact hencloses.nearest?_eq hden

theorem readsBack_of_between {x : Binary64} {d : Decimal}
    (hlow : (4 * x.units - x.margins.1) * powerOfTen (-d.exponent).toNat <
      d.coefficient * powerOfTen d.exponent.toNat * powerOfTwo 1076)
    (hhigh : d.coefficient * powerOfTen d.exponent.toNat * powerOfTwo 1076 <
      (4 * x.units + x.margins.2) * powerOfTen (-d.exponent).toNat) : x.readsBack d = true := by
  rw [readsBack]
  split
  · simp [Nat.le_of_lt hlow, Nat.le_of_lt hhigh]
  · simp [hlow, hhigh]

/-- The power of ten of the first digit is no larger than the double. -/
theorem leading_le {x : Binary64} (hx : x.significand ≠ 0) :
    powerOfTwo 1074 * powerOfTen x.magnitude.toNat ≤ x.units * powerOfTen (-x.magnitude).toNat := by
  have hpos : 0 < x.units := Nat.lt_of_lt_of_le (powerOfTwo_pos _) (step_le_units hx)
  rw [magnitude]
  generalize hguess : ((digits x.units).length : Int) - (digits (powerOfTwo 1074)).length = guess
  split
  · assumption
  · have hunit := lt_powerOfTen_of_digits (powerOfTwo 1074)
    have hfirst := powerOfTen_le_of_digits hpos
    have hlength := length_digits_pos x.units
    calc powerOfTwo 1074 * powerOfTen (guess - 1).toNat
        ≤ powerOfTen (digits (powerOfTwo 1074)).length * powerOfTen (guess - 1).toNat :=
          Nat.mul_le_mul_right _ (Nat.le_of_lt hunit)
      _ = powerOfTen ((digits (powerOfTwo 1074)).length + (guess - 1).toNat) :=
          (powerOfTen_add _ _).symm
      _ ≤ powerOfTen ((digits x.units).length - 1 + (-(guess - 1)).toNat) :=
          powerOfTen_le (by omega)
      _ = powerOfTen ((digits x.units).length - 1) * powerOfTen (-(guess - 1)).toNat :=
          powerOfTen_add _ _
      _ ≤ x.units * powerOfTen (-(guess - 1)).toNat := Nat.mul_le_mul_right _ hfirst

/-- So a decimal with `n` digits more counts in steps that are as much smaller. -/
theorem spacing_le {x : Binary64} (hx : x.significand ≠ 0) {e : Int} {n : Nat}
    (he : e = x.magnitude - n) :
    powerOfTwo 1074 * powerOfTen e.toNat * powerOfTen n ≤ x.units * powerOfTen (-e).toNat := by
  have hmore : e.toNat + n = x.magnitude.toNat + (e.toNat + n - x.magnitude.toNat) := by omega
  have hless : (-e).toNat = (-x.magnitude).toNat + (e.toNat + n - x.magnitude.toNat) := by omega
  rw [Nat.mul_assoc, ← powerOfTen_add, hmore, hless, powerOfTen_add, powerOfTen_add,
    ← Nat.mul_assoc, ← Nat.mul_assoc]
  exact Nat.mul_le_mul_right _ (leading_le hx)

/-- With seventeen digits the steps are smaller than the distances between doubles. -/
theorem spacing_lt {x : Binary64} (hx : x.significand ≠ 0) {e : Int} (he : e = x.magnitude - 16) :
    powerOfTwo 1074 * powerOfTen e.toNat < powerOfTen (-e).toNat * powerOfTwo x.shift ∧
      (x.significand = powerOfTwo 52 → 2 * (powerOfTwo 1074 * powerOfTen e.toNat) <
        powerOfTen (-e).toNat * powerOfTwo x.shift) := by
  have hspacing := spacing_le (n := 16) hx he
  have hgap : 0 < powerOfTen (-e).toNat * powerOfTwo x.shift :=
    Nat.mul_pos (powerOfTen_pos _) (powerOfTwo_pos _)
  have hbits := x.canonical.1
  have hfine : powerOfTwo 53 < powerOfTen 16 := by decide
  rw [units_mul] at hspacing
  generalize powerOfTen (-e).toNat * powerOfTwo x.shift = gap at *
  generalize powerOfTwo 1074 * powerOfTen e.toNat = den at *
  constructor
  · by_contra hwide
    have hscale : gap * powerOfTen 16 ≤ den * powerOfTen 16 :=
      Nat.mul_le_mul_right _ (Nat.not_lt.1 hwide)
    have hmore : x.significand * gap < powerOfTen 16 * gap :=
      Nat.mul_lt_mul_of_pos_right (Nat.lt_trans hbits hfine) hgap
    rw [Nat.mul_comm gap] at hscale
    omega
  · intro hleast
    by_contra hwide
    have hscale : gap * powerOfTen 16 ≤ 2 * den * powerOfTen 16 :=
      Nat.mul_le_mul_right _ (Nat.not_lt.1 hwide)
    have hmore : powerOfTwo 53 * gap < powerOfTen 16 * gap :=
      Nat.mul_lt_mul_of_pos_right hfine hgap
    have htop : powerOfTwo 53 = powerOfTwo 52 * 2 := rfl
    rw [hleast] at hspacing
    rw [htop, Nat.mul_right_comm] at hmore
    rw [Nat.mul_comm gap, Nat.mul_assoc] at hscale
    omega

/-- Of the two decimals of seventeen digits next to a double, one reads back. -/
theorem readsBack_below_or_above {x : Binary64} (hx : x.significand ≠ 0) {e : Int}
    (he : e = x.magnitude - 16) {num den : Nat} (hnum : num = x.units * powerOfTen (-e).toNat)
    (hden : den = powerOfTwo 1074 * powerOfTen e.toNat) :
    x.readsBack ⟨num / den, e⟩ = true ∨ x.readsBack ⟨num / den + 1, e⟩ = true := by
  obtain ⟨hgap, hleast⟩ := spacing_lt hx he
  have hspacing := spacing_le (n := 16) hx he
  have hpoint : ∀ q : Nat, q * powerOfTen e.toNat * powerOfTwo 1076 = 4 * (den * q) := by
    intro q
    rw [powerOfTwo_quarters, hden]
    ring
  have hlow := x.below_mul (powerOfTen (-e).toNat)
  have hhigh := x.above_mul (powerOfTen (-e).toNat)
  rw [← units_mul, ← hnum] at hlow hhigh
  rw [← hden] at hgap hleast hspacing
  rw [← hnum] at hspacing
  have hpos : 0 < den := hden ▸ Nat.mul_pos (powerOfTwo_pos _) (powerOfTen_pos _)
  have hlarge : den ≤ den * powerOfTen 16 := Nat.le_mul_of_pos_right _ (powerOfTen_pos 16)
  have hsplit := Nat.div_add_mod num den
  have hmod := Nat.mod_lt num hpos
  by_cases hnear : 2 * (den - num % den) < powerOfTen (-e).toNat * powerOfTwo x.shift
  · refine .inr (readsBack_of_between ?_ ?_)
    · rw [hpoint (num / den + 1), hlow, Nat.mul_add, Nat.mul_one]
      omega
    · rw [hpoint (num / den + 1), hhigh, Nat.mul_add, Nat.mul_one]
      omega
  · -- the decimal above is more than half a gap off, so the one below is less
    have hwide := margins_mul (x := x)
      (fun hedge => hnear (Nat.lt_of_le_of_lt (by omega) (hleast hedge.1))) (powerOfTen (-e).toNat)
    refine .inl (readsBack_of_between ?_ ?_)
    · rw [hpoint (num / den), hlow, hwide]
      omega
    · rw [hpoint (num / den), hhigh]
      omega

theorem readsBack_of_decimalOfLength? {x : Binary64} {n : Nat} {d : Decimal}
    (h : x.decimalOfLength? n = some d) : x.readsBack d = true := by
  rw [decimalOfLength?] at h
  split at h
  · rename_i hbelow habove
    obtain rfl := Option.some.inj h
    obtain hfloor | hceil := roundHalfEven_cases
      (x.units * powerOfTen (-(x.magnitude - (n - 1 : Nat))).toNat)
      (powerOfTwo 1074 * powerOfTen (x.magnitude - (n - 1 : Nat)).toNat)
    · rw [hfloor]
      exact hbelow
    · rw [hceil]
      exact habove
  · rename_i hbelow _
    obtain rfl := Option.some.inj h
    exact hbelow
  · rename_i _ habove
    obtain rfl := Option.some.inj h
    exact habove
  · cases h

theorem decimalOfLength?_seventeen {x : Binary64} (hx : x.significand ≠ 0) :
    ∃ d, x.decimalOfLength? 17 = some d := by
  have hone := readsBack_below_or_above hx (e := x.magnitude - (17 - 1 : Nat)) rfl rfl rfl
  rw [decimalOfLength?]
  split
  · exact ⟨_, rfl⟩
  · exact ⟨_, rfl⟩
  · exact ⟨_, rfl⟩
  · rename_i hbelow habove
    rw [hbelow, habove] at hone
    obtain hread | hread := hone <;> cases hread

/-- The shortest decimal reads back as the double it was found for. -/
theorem readsBack_shortest {x : Binary64} (hx : x.significand ≠ 0) :
    x.readsBack x.shortest = true := by
  obtain ⟨d, hd⟩ := decimalOfLength?_seventeen hx
  have hzero : x.isZero = false := by simpa [isZero] using hx
  rw [shortest, hzero]
  cases hfind : (List.range' 1 17).findSome? x.decimalOfLength? with
  | none =>
    have hnone := List.findSome?_eq_none_iff.1 hfind 17 (by decide)
    rw [hd] at hnone
    cases hnone
  | some b =>
    obtain ⟨n, -, hn⟩ := List.exists_of_findSome?_eq_some hfind
    exact readsBack_of_decimalOfLength? hn

end Binary64
end LivePanel
