import LivePanel.Proofs.Json.Numerals
import LivePanel.Proofs.Number.Scaling
import LivePanel.Proofs.Number.Shortest

/-!
# Doubles in JSON text

Whoever reads a number with a point or a power of ten rounds more than once, so a double may be read
as another. But the shortest decimal of a double is never read as too large. Main statement:
`exists_readNumeral?_real`.
-/
namespace LivePanel

open Decimal (zeros plain scientific)

namespace Numeral

/-- Whether a text without a sign is that of a number. -/
def Reads (negative : Bool) (t : List Char) : Prop :=
  ∃ c cs m v, t = c :: cs ∧ isDigit c = true ∧
    cs.foldlM next? (ofDigit negative c) = some m ∧ m.value = .ok v

variable (negative : Bool) {c : Char} {ws fs : List Char}

/-- The digits before the point are kept as they are, if they fit. A zero stands alone. -/
theorem foldlM_ofDigit (hzero : c = '0' → ws = []) (hws : ∀ d ∈ ws, isDigit d = true)
    (hfits : ofDigits (c :: ws) < powerOfTwo 64) :
    (ws ++ ['.']).foldlM next? (ofDigit negative c) =
      some (.point negative ⟨ofDigits (c :: ws), 0, false⟩) := by
  by_cases hc : c = '0'
  · obtain rfl := hzero hc
    subst hc
    rfl
  · rw [ofDigits_cons] at hfits ⊢
    have hwhole := foldlM_whole negative (.ofDigit c) hws
    rw [Significand.ofDigit, Significand.foldl_pushWhole 0 hfits] at hwhole
    rw [ofDigit, if_neg hc, List.foldlM_append, Significand.ofDigit, hwhole]
    rfl

variable (ws) in
theorem foldlM_pointed (hzero : c = '0' → ws = []) (hws : ∀ d ∈ ws, isDigit d = true)
    (hfits : ofDigits (c :: ws) < powerOfTwo 64) (hfs : ∀ d ∈ fs, isDigit d = true)
    (hne : fs ≠ []) : (ws ++ '.' :: fs).foldlM next? (ofDigit negative c) =
      some (.fraction negative
        (fs.foldl Significand.pushFraction ⟨ofDigits (c :: ws), 0, false⟩)) := by
  have hsplit : ws ++ '.' :: fs = ws ++ ['.'] ++ fs := by simp
  rw [hsplit, List.foldlM_append, foldlM_ofDigit negative hzero hws hfits, Option.bind_eq_bind,
    Option.bind_some, foldlM_point negative _ hfs hne]

variable (ws fs) in
/-- A number that ends with the digits after its point is not multiplied. -/
theorem reads_pointed (hc : isDigit c = true) (hzero : c = '0' → ws = [])
    (hws : ∀ d ∈ ws, isDigit d = true) (hfits : ofDigits (c :: ws) < powerOfTwo 64)
    (hfs : ∀ d ∈ fs, isDigit d = true) (hne : fs ≠ []) :
    Reads negative (c :: (ws ++ '.' :: fs)) := by
  have hread := foldlM_pointed negative ws hzero hws hfits hfs hne
  generalize hs : fs.foldl Significand.pushFraction ⟨ofDigits (c :: ws), 0, false⟩ = s at hread
  have hlt := Significand.foldl_pushFraction_lt (s := ⟨ofDigits (c :: ws), 0, false⟩) hfits fs
  obtain ⟨kept, -, hscale, -⟩ :=
    Significand.foldl_pushFraction ⟨ofDigits (c :: ws), 0, false⟩ fs
  rw [hs] at hlt hscale
  have hdown : s.scale + 0 ≤ 0 := by
    rw [hscale]
    simp
  obtain ⟨x, hx⟩ := exists_real_of_nonpos negative hlt hdown
  exact ⟨c, _, _, .real x, rfl, hc, hread, hx⟩

/-- A text with its parts before and after the point, as numbers are written. -/
structure Pointed (c : Char) (ws fs : List Char) : Prop where
  digit : isDigit c = true
  alone : c = '0' → ws = []
  whole : ∀ d ∈ ws, isDigit d = true
  fits : ofDigits (c :: ws) < powerOfTwo 64
  fraction : ∀ d ∈ fs, isDigit d = true
  nonempty : fs ≠ []

theorem Pointed.digits {ws fs : List Char} (hp : Pointed c ws fs) :
    ∀ d ∈ c :: ws, isDigit d = true := by
  intro d hd
  obtain rfl | hrest := List.mem_cons.1 hd
  · exact hp.digit
  · exact hp.whole d hrest

/-- The point of a plain text, and the digits around it: those that were written, and zeros. -/
theorem exists_pointed_plain {ds : List Char} (hds : ∀ d ∈ ds, isDigit d = true) (hne : ds ≠ [])
    (hlead : ds.head? ≠ some '0') {m : Int} (hm : m ≤ 15) : ∃ c ws fs,
    plain ds m = c :: (ws ++ '.' :: fs) ∧ Pointed c ws fs ∧
      (ofDigits (c :: ws ++ fs) = ofDigits ds ∨ (c :: ws ++ fs).length ≤ 17) := by
  obtain ⟨d, ds, rfl⟩ := List.exists_cons_of_ne_nil hne
  obtain ⟨hd, hrest⟩ := List.forall_mem_cons.1 hds
  have hnonzero : d ≠ '0' := fun h => hlead (h ▸ rfl)
  cases m with
  | negSucc m =>
    have hfs : ∀ c ∈ zeros m ++ d :: ds, isDigit c = true := by
      intro c hc
      obtain hzero | hdigit := List.mem_append.1 hc
      · exact isDigit_of_mem_zeros hzero
      · exact hds c hdigit
    refine ⟨'0', [], _, rfl, ⟨rfl, fun _ => rfl, by simp, by decide, hfs, by simp⟩, .inl ?_⟩
    exact ofDigits_zeros_append (m + 1) (d :: ds)
  | ofNat m =>
    have hsmall : m ≤ 15 := by simpa using hm
    have hwhole : (d :: ds).take (m + 1) ++ zeros (m + 1 - (d :: ds).length) =
        d :: (ds.take m ++ zeros (m - ds.length)) := by
      rw [List.take_succ_cons, List.cons_append, List.length_cons, Nat.add_sub_add_right]
    have hws : ∀ c ∈ ds.take m ++ zeros (m - ds.length), isDigit c = true := by
      intro c hc
      obtain hdigit | hzero := List.mem_append.1 hc
      · exact hrest c (List.mem_of_mem_take hdigit)
      · exact isDigit_of_mem_zeros hzero
    have hlength : (d :: (ds.take m ++ zeros (m - ds.length))).length = m + 1 := by
      simp only [List.length_cons, List.length_append, List.length_take, length_zeros]
      omega
    have hfits : ofDigits (d :: (ds.take m ++ zeros (m - ds.length))) < powerOfTwo 64 := by
      have hlt := ofDigits_lt (List.forall_mem_cons.2 ⟨hd, hws⟩)
      rw [hlength] at hlt
      exact Nat.lt_of_lt_of_le hlt (Nat.le_trans (powerOfTen_le (n := 16) (by omega)) (by decide))
    have hpointed : ∀ fs, (∀ c ∈ fs, isDigit c = true) → fs ≠ [] →
        Pointed d (ds.take m ++ zeros (m - ds.length)) fs :=
      fun fs hfs hne => ⟨hd, (absurd · hnonzero), hws, hfits, hfs, hne⟩
    rw [plain]
    simp only [hwhole]
    split
    · refine ⟨_, _, _, rfl, hpointed ['0'] (by simp [isDigit]) (by simp), .inr ?_⟩
      rw [List.length_append, hlength, List.length_singleton]
      omega
    · -- with digits left for the fraction there are no zeros before the point
      rename_i hdrop
      have hmore : (d :: ds).drop (m + 1) ≠ [] := by simpa using hdrop
      have hnone : m - ds.length = 0 := by
        rw [List.drop_succ_cons, ne_eq, List.drop_eq_nil_iff] at hmore
        omega
      refine ⟨_, _, _, rfl, hpointed _ (fun c hc => hds c (List.mem_of_mem_drop hc)) hmore, .inl ?_⟩
      rw [hnone, zeros, List.replicate_zero, List.append_nil, List.drop_succ_cons, List.cons_append,
        List.take_append_drop]

theorem reads_plain {ds : List Char} (hds : ∀ d ∈ ds, isDigit d = true) (hne : ds ≠ [])
    (hlead : ds.head? ≠ some '0') {m : Int} (hm : m ≤ 15) : Reads negative (plain ds m) := by
  obtain ⟨c, ws, fs, htext, hp, -⟩ := exists_pointed_plain hds hne hlead hm
  rw [htext]
  exact reads_pointed negative ws fs hp.digit hp.alone hp.whole hp.fits hp.fraction hp.nonempty

/-- What is read of a number with a power of ten. -/
theorem foldlM_scientific (hc : isDigit c = true) (hlead : c ≠ '0')
    (hfs : ∀ d ∈ fs, isDigit d = true) (m : Int) : ∃ cs, scientific (c :: fs) m = c :: cs ∧
      cs.foldlM next? (ofDigit negative c) = some (.power negative
        (fs.foldl Significand.pushFraction (.ofDigit c)) (decide (m < 0)) m.natAbs) := by
  cases fs with
  | nil =>
    refine ⟨_, rfl, foldlM_mark negative _ ?_ m⟩
    rw [ofDigit, if_neg hlead]
    rfl
  | cons f fs =>
    have hone : ofDigits [c] = digitValue c := ofDigits_cons c []
    have hfits : ofDigits [c] < powerOfTwo 64 :=
      hone ▸ Nat.lt_trans (digitValue_lt hc) (by decide)
    have hpointed := foldlM_pointed negative [] (fun _ => rfl) (by simp) hfits hfs
      (List.cons_ne_nil f fs)
    refine ⟨'.' :: f :: fs ++ 'e' :: (if m < 0 then '-' else '+') :: digits m.natAbs, rfl, ?_⟩
    rw [List.foldlM_append]
    rw [List.nil_append, hone] at hpointed
    rw [hpointed, Option.bind_eq_bind, Option.bind_some]
    exact foldlM_mark negative _ rfl m

end Numeral

namespace Binary64

/-- A number that is no larger than a decimal that reads back lies half a unit above at most. -/
theorem mul_le_of_readsBack {x : Binary64} {d : Decimal} (hread : x.readsBack d = true) {n : Nat}
    (hn : n * powerOfTen (-d.exponent).toNat ≤ d.coefficient * powerOfTen d.exponent.toNat) :
    2 * (n * powerOfTwo 1074) ≤ (2 * x.significand + 1) * powerOfTwo x.shift := by
  have hhigh := (encloses_of_readsBack hread).high
  have hmargin : x.margins.2 = 2 * powerOfTwo x.shift := rfl
  have hscaled : 4 * (n * powerOfTwo 1074) * powerOfTen (-d.exponent).toNat ≤
      (4 * x.units + 2 * powerOfTwo x.shift) * powerOfTen (-d.exponent).toNat := by
    rw [hmargin] at hhigh
    refine Nat.le_trans ?_ hhigh
    calc 4 * (n * powerOfTwo 1074) * powerOfTen (-d.exponent).toNat
        = 4 * (n * powerOfTen (-d.exponent).toNat * powerOfTwo 1074) := by ring
      _ ≤ 4 * (d.coefficient * powerOfTen d.exponent.toNat * powerOfTwo 1074) :=
          Nat.mul_le_mul_left 4 (Nat.mul_le_mul_right _ hn)
  have hle := Nat.le_of_mul_le_mul_right hscaled (powerOfTen_pos _)
  have hunits : (2 * x.significand + 1) * powerOfTwo x.shift =
      2 * x.units + powerOfTwo x.shift := by
    rw [units]
    ring
  omega

/-- The two largest doubles. -/
def largest (negative : Bool) (k : Fin 2) : Binary64 :=
  ⟨negative, powerOfTwo 53 - 1 - k, 2045, by revert k; decide⟩

/-- Below these there is room for three roundings. -/
theorem room_of_ne_largest {x : Binary64} (hx : ∀ k, x ≠ largest x.negative k) :
    (2 * x.significand + 1) * powerOfTwo x.shift * ((powerOfTwo 53 + 1) * (powerOfTwo 53 + 1)) <
      (powerOfTwo 54 - 1) * powerOfTwo 2045 * (powerOfTwo 53 * powerOfTwo 53) := by
  obtain ⟨hbits, -, hshift⟩ := x.canonical
  obtain htop | hbelow := Nat.eq_or_lt_of_le hshift
  · have hsmall : 2 * x.significand + 1 ≤ powerOfTwo 54 - 5 := by
      have hne : ∀ k : Fin 2, x.significand ≠ powerOfTwo 53 - 1 - k := by
        intro k hk
        refine hx k ?_
        obtain ⟨negative, s, t, _⟩ := x
        subst hk htop
        rfl
      have hfirst : x.significand ≠ powerOfTwo 53 - 1 - 0 := hne 0
      have hsecond : x.significand ≠ powerOfTwo 53 - 1 - 1 := hne 1
      have hdouble : powerOfTwo 54 = powerOfTwo 53 * 2 := rfl
      omega
    have hroom : (powerOfTwo 54 - 5) * powerOfTwo 2045 *
        ((powerOfTwo 53 + 1) * (powerOfTwo 53 + 1)) <
      (powerOfTwo 54 - 1) * powerOfTwo 2045 * (powerOfTwo 53 * powerOfTwo 53) := by decide +kernel
    rw [htop]
    exact Nat.lt_of_le_of_lt (Nat.mul_le_mul_right _ (Nat.mul_le_mul_right _ hsmall)) hroom
  · have hodd : 2 * x.significand + 1 ≤ powerOfTwo 54 - 1 := by
      have hdouble : powerOfTwo 54 = powerOfTwo 53 * 2 := rfl
      omega
    have hpower : powerOfTwo x.shift ≤ powerOfTwo 2044 := powerOfTwo_le (by omega)
    have hroom : (powerOfTwo 54 - 1) * powerOfTwo 2044 *
        ((powerOfTwo 53 + 1) * (powerOfTwo 53 + 1)) <
      (powerOfTwo 54 - 1) * powerOfTwo 2045 * (powerOfTwo 53 * powerOfTwo 53) := by decide +kernel
    exact Nat.lt_of_le_of_lt (Nat.mul_le_mul_right _ (Nat.mul_le_mul hodd hpower)) hroom

theorem magnitude_largest (negative : Bool) (k : Fin 2) : (largest negative k).magnitude = 308 := by
  have hlead : ∀ negative k, powerOfTwo 1074 * powerOfTen (Int.toNat 308) ≤
      (largest negative k).units * powerOfTen (-308 : Int).toNat := by decide +kernel
  have hlow : ∀ negative k, powerOfTen 631 ≤ (largest negative k).units := by decide +kernel
  have hhigh : ∀ negative k, (largest negative k).units < powerOfTen 632 := by decide +kernel
  have hunits := length_digits_eq (hlow negative k) (hhigh negative k)
  have hone : (digits (powerOfTwo 1074)).length = 324 :=
    length_digits_eq (by decide +kernel) (by decide +kernel)
  have hguess : ((631 + 1 : Nat) : Int) - (324 : Nat) = 308 := by decide
  rw [magnitude, hunits, hone, hguess]
  exact if_pos (hlead negative k)

theorem shortest_largest (negative : Bool) (k : Fin 2) :
    (largest negative k).shortest = ⟨17976931348623157 - 2 * k, 292⟩ := by
  rw [shortest]
  unfold decimalOfLength?
  simp only [magnitude_largest]
  revert negative k
  decide +kernel

theorem magnitude_lt_of_readsBack {x : Binary64} (hx : x.significand ≠ 0) {d : Decimal}
    (hd : d.coefficient ≠ 0) (hread : x.readsBack d = true) : d.magnitude < 309 := by
  by_contra hlarge
  have hnear := toBinary64?_of_readsBack hx hread
  rw [Decimal.toBinary64?, if_neg hd, if_pos (Int.not_lt.1 hlarge)] at hnear
  cases hnear

end Binary64

namespace Numeral

open Binary64

/-- The power of ten does not make such a number too large. -/
theorem reads_scientific (negative : Bool) {x : Binary64} (hx : ∀ k, x ≠ largest x.negative k)
    {d : Decimal} (hread : x.readsBack d = true) (hlarge : d.magnitude < 309) {ds : List Char}
    {n : Nat} (hne : ds ≠ []) (hdigits : digits d.coefficient = ds ++ zeros n)
    (hcoefficient : d.coefficient = ofDigits ds * powerOfTen n) (hlead : ds.head? ≠ some '0') :
    Reads negative (scientific ds d.magnitude) := by
  have hds := Decimal.isDigit_of_written hdigits
  have hmagnitude := Decimal.magnitude_of_written hne hdigits
  obtain ⟨c, fs, rfl⟩ := List.exists_cons_of_ne_nil hne
  obtain ⟨hc, hfs⟩ := List.forall_mem_cons.1 hds
  have hnonzero : c ≠ '0' := fun h => hlead (h ▸ rfl)
  obtain ⟨cs, htext, hcs⟩ := foldlM_scientific negative hc hnonzero hfs d.magnitude
  have hlt : digitValue c < powerOfTwo 64 := Nat.lt_trans (digitValue_lt hc) (by decide)
  have hword := Significand.foldl_pushFraction_lt (s := .ofDigit c) hlt fs
  obtain ⟨kept, hkept, hscale, hvalue⟩ := Significand.foldl_pushFraction (.ofDigit c) fs
  generalize fs.foldl Significand.pushFraction (.ofDigit c) = s at hcs hword hscale hvalue
  have hwritten : s.value * powerOfTen (fs.length - kept) ≤ ofDigits (c :: fs) :=
    ofDigits_cons c fs ▸ hvalue
  have hzero : s.scale = -(kept : Int) := by
    have hstart : (Significand.ofDigit c).scale = 0 := rfl
    omega
  obtain ⟨y, hy⟩ : ∃ y, real negative s d.magnitude = .ok (.real y) := by
    by_cases hdown : s.scale + d.magnitude ≤ 0
    · exact exists_real_of_nonpos negative hword hdown
    · rw [List.length_cons] at hmagnitude
      refine exists_real_of_lt negative hword (n := (s.scale + d.magnitude).toNat) (by omega)
        (by omega) ?_
      refine Nat.lt_of_le_of_lt (Nat.mul_le_mul_right _ (mul_le_of_readsBack hread ?_))
        (room_of_ne_largest hx)
      -- what was left out of the digits and of the power comes to the same places
      have hplaces : (s.scale + d.magnitude).toNat + (-d.exponent).toNat =
          fs.length - kept + (n + d.exponent.toNat) := by omega
      calc s.value * powerOfTen (s.scale + d.magnitude).toNat * powerOfTen (-d.exponent).toNat
          = s.value * powerOfTen (fs.length - kept) *
              (powerOfTen n * powerOfTen d.exponent.toNat) := by
            rw [Nat.mul_assoc, ← powerOfTen_add, hplaces, powerOfTen_add, powerOfTen_add,
              Nat.mul_assoc]
        _ ≤ ofDigits (c :: fs) * (powerOfTen n * powerOfTen d.exponent.toNat) :=
            Nat.mul_le_mul_right _ hwritten
        _ = d.coefficient * powerOfTen d.exponent.toNat := by rw [hcoefficient, Nat.mul_assoc]
  exact ⟨c, cs, _, .real y, htext, hc, hcs, (value_power negative s d.magnitude).trans hy⟩

theorem Reads.exists_readNumeral? {negative : Bool} {t : List Char} (h : Reads negative t) :
    ∃ v, readNumeral? (if negative then '-' :: t else t) = some v := by
  obtain ⟨c, cs, m, v, rfl, hc, hcs, hv⟩ := h
  exact ⟨v, readNumeral?_signed hc hcs hv⟩

end Numeral

/-- Whatever double is written, a number is read. -/
theorem exists_readNumeral?_real (x : Binary64) :
    ∃ v, readNumeral? (Number.text (.real x)) = some v := by
  by_cases hlargest : ∃ k, x = .largest x.negative k
  · obtain ⟨k, hk⟩ := hlargest
    have hread : ∀ negative k,
        (readNumeral? (Number.text (.real (.largest negative k)))).isSome = true := by
      simp only [Number.text, Binary64.text, Binary64.shortest_largest]
      decide +kernel
    rw [hk]
    exact Option.isSome_iff_exists.1 (hread x.negative k)
  · have hx := not_exists.1 hlargest
    rw [Number.text, Binary64.text]
    refine Numeral.Reads.exists_readNumeral? ?_
    by_cases hzero : x.significand = 0
    · have hshortest : x.shortest = ⟨0, 0⟩ := by
        rw [Binary64.shortest, if_pos]
        simpa [Binary64.isZero] using hzero
      have htext : (⟨0, 0⟩ : Decimal).text = ['0', '.', '0'] := rfl
      rw [hshortest, htext]
      exact Numeral.reads_pointed _ [] ['0'] rfl (fun _ => rfl) (by simp)
        (by decide) (by simp [isDigit]) (by simp)
    · have hread := Binary64.readsBack_shortest hzero
      have hcoefficient := Binary64.coefficient_ne_zero_of_readsBack hzero hread
      have hlarge := Binary64.magnitude_lt_of_readsBack hzero hcoefficient hread
      generalize x.shortest = d at hread hcoefficient hlarge
      obtain ⟨ds, n, htext, hne, hdigits, hvalue⟩ := Decimal.exists_written hcoefficient
      have hlead : ds.head? ≠ some '0' := by
        intro hfirst
        obtain ⟨rest, rfl⟩ := List.head?_eq_some_iff.1 hfirst
        exact hcoefficient (eq_zero_of_digits hdigits)
      rw [htext]
      split
      · rename_i hplain
        exact Numeral.reads_plain _ (Decimal.isDigit_of_written hdigits) hne hlead hplain.2
      · exact Numeral.reads_scientific _ hx hread hlarge hne hdigits hvalue hlead

end LivePanel
