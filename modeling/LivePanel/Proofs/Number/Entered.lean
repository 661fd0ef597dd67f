import LivePanel.Proofs.Number.Shortest

/-!
# Written numbers, entered again

The text of a number can be typed, blanks aside, and then stands for a number; that of a double for
the same double. Main statements: `Binary64.readReal?_text`, `Binary64.trim_text`,
`isSome_readReal?_signedDigits` and `readInt64?_signedDigits`.
-/
namespace LivePanel

open Decimal (zeros plain scientific)

/-- What can be read without its sign has none. -/
theorem splitSign_of_readDecimal? {cs : List Char} {d : Decimal} (h : readDecimal? cs = some d) :
    splitSign cs = (false, cs) := by
  unfold splitSign
  split
  · cases h
  · cases h
  · rfl

theorem readDecimal?_digits (n : Nat) : readDecimal? (digits n) = some ⟨n, 0⟩ := by
  have hall : ∀ c ∈ digits n, isDigit c = true := fun _ hc => isDigit_of_mem_digits hc
  have htake := takeWhile_digits hall breaks_nil
  have hdrop := dropWhile_digits hall breaks_nil
  rw [List.append_nil] at htake hdrop
  simp [readDecimal?, htake, hdrop, digits_ne_nil, readExponent?]

theorem splitSign_signedDigits (n : Int) :
    splitSign (signedDigits n) = (decide (n < 0), digits n.natAbs) := by
  rw [signedDigits]
  split
  · simp [splitSign, *]
  · rw [splitSign_of_readDecimal? (readDecimal?_digits n.natAbs)]
    simp [*]

namespace Binary64

theorem eq_zero {x : Binary64} (hx : x.significand = 0) : x = zero x.negative := by
  obtain ⟨negative, s, t, hcanonical⟩ := x
  obtain rfl : s = 0 := hx
  obtain rfl : t = 0 := hcanonical.2.1.resolve_left (by decide)
  rfl

/-- The text of a double's size is read as the double. -/
theorem readDecimal?_shortest (x : Binary64) : ∃ d, readDecimal? x.shortest.text = some d ∧
    d.toBinary64? x.negative = some x := by
  by_cases hx : x.significand = 0
  · have hshortest : x.shortest = ⟨0, 0⟩ := by
      have hzero : x.isZero = true := by rw [isZero, hx]; rfl
      rw [shortest, if_pos hzero]
    refine ⟨⟨0, -1⟩, by rw [hshortest]; decide, ?_⟩
    rw [eq_zero hx]
    rfl
  · have hread := toBinary64?_of_readsBack hx (readsBack_shortest hx)
    have hcoefficient : x.shortest.coefficient ≠ 0 := by
      intro hzero
      have hlow := (encloses_of_readsBack (readsBack_shortest hx)).den_le hx
      have hden := powerOfTen_pos (-x.shortest.exponent).toNat
      rw [hzero] at hlow
      omega
    obtain ⟨b, j, k, hb, hsame, htext⟩ := Decimal.readDecimal?_text hcoefficient
    rw [hsame, Decimal.toBinary64?_padded _ hb] at hread
    exact ⟨b.padded k, htext, (Decimal.toBinary64?_padded _ hb k).trans hread⟩

end Binary64

/-- The text of a double is read as that double, the sign of a zero included. -/
theorem Binary64.readReal?_text (x : Binary64) : readReal? x.text = some x := by
  obtain ⟨d, hd, hread⟩ := x.readDecimal?_shortest
  rw [readReal?, Binary64.text]
  cases hsign : x.negative with
  | true =>
    rw [hsign] at hread
    simpa [splitSign, hd] using hread
  | false =>
    rw [hsign] at hread
    simpa [splitSign_of_readDecimal? hd, hd] using hread

/-- A number that a 64-bit word holds is not too large for a double. -/
theorem isSome_toBinary64?_whole (negative : Bool) {n : Nat} (hn : n < powerOfTwo 64) :
    ((⟨n, 0⟩ : Decimal).toBinary64? negative).isSome = true := by
  by_cases hzero : n = 0
  · rw [hzero]
    rfl
  · have hlarge : ¬ 309 ≤ (⟨n, 0⟩ : Decimal).magnitude := by
      intro hm
      have hsize := Decimal.le_of_le_magnitude (n := 309) hzero hm
      have hcut : powerOfTwo 64 ≤ powerOfTen 309 := by decide +kernel
      simp only [Int.neg_zero, Int.toNat_zero, powerOfTen_zero, Nat.mul_one] at hsize
      omega
    have hsmall : ¬ (⟨n, 0⟩ : Decimal).magnitude < -325 := by
      rw [Decimal.magnitude]
      dsimp only
      omega
    have hratio : n * 1 * powerOfTwo 1074 < powerOfTwo (64 + 1074) * 1 := by
      rw [Nat.mul_one, Nat.mul_one, powerOfTwo_add]
      exact Nat.mul_lt_mul_of_pos_right hn (powerOfTwo_pos _)
    rw [Decimal.toBinary64?, if_neg hzero, if_neg hlarge, if_neg hsmall]
    exact Binary64.isSome_nearest? negative (by decide) hratio

theorem isSome_readReal?_signedDigits {n : Int} (hn : n.natAbs < powerOfTwo 64) :
    (readReal? (signedDigits n)).isSome = true := by
  rw [readReal?, splitSign_signedDigits]
  dsimp only
  rw [readDecimal?_digits]
  exact isSome_toBinary64?_whole _ hn

theorem readInt64?_signedDigits {n : Int} (hlow : -(powerOfTwo 63 : Int) ≤ n)
    (hhigh : n < powerOfTwo 63) : readInt64? (signedDigits n) = some n := by
  have hvalue : (if n < 0 then -(n.natAbs : Int) else n.natAbs) = n := by
    split <;> omega
  rw [readInt64?, splitSign_signedDigits]
  dsimp only
  rw [readDigits?_digits]
  simp only [Option.bind_some, decide_eq_true_eq, hvalue, hlow, hhigh, and_self, if_true]

theorem isBlank_of_isDigit {c : Char} (hc : isDigit c = true) : isBlank c = false := by
  have hblanks : ∀ b ∈ blanks, b ≤ 32 ∨ 133 ≤ b := by decide
  have hrange : '0' ≤ c ∧ c ≤ '9' := by simpa [isDigit] using hc
  have hlow : 48 ≤ c.toNat := UInt32.le_iff_toNat_le.1 hrange.1
  have hhigh : c.toNat ≤ 57 := UInt32.le_iff_toNat_le.1 hrange.2
  by_contra hblank
  have hmem : c.toNat ∈ blanks := by simpa [isBlank] using hblank
  obtain hbelow | habove := hblanks _ hmem <;> omega

/-- A text without blanks is not trimmed. -/
theorem trim_of_no_blanks {cs : List Char} (h : ∀ c ∈ cs, isBlank c = false) : trim cs = cs :=
  trim_eq_self cs (fun _ hc => h _ (List.mem_of_head? hc)) fun _ hc => h _ (List.mem_of_getLast? hc)

theorem isBlank_of_mem_plain {ds : List Char} (hds : ∀ c ∈ ds, isDigit c = true) (m : Int) :
    ∀ c ∈ plain ds m, isBlank c = false := by
  intro c hc
  cases m with
  | ofNat m =>
    simp only [plain, List.mem_append, List.mem_cons] at hc
    obtain (htake | hzero) | rfl | hfraction := hc
    · exact isBlank_of_isDigit (hds c (List.mem_of_mem_take htake))
    · exact isBlank_of_isDigit (isDigit_of_mem_zeros hzero)
    · rfl
    · split at hfraction
      · obtain rfl := List.mem_singleton.1 hfraction
        rfl
      · exact isBlank_of_isDigit (hds c (List.mem_of_mem_drop hfraction))
  | negSucc m =>
    simp only [plain, List.mem_append, List.mem_cons] at hc
    obtain (rfl | rfl | hzero) | hdigit := hc
    · rfl
    · rfl
    · exact isBlank_of_isDigit (isDigit_of_mem_zeros hzero)
    · exact isBlank_of_isDigit (hds c hdigit)

theorem isBlank_of_mem_scientific {ds : List Char} (hds : ∀ c ∈ ds, isDigit c = true) (m : Int) :
    ∀ c ∈ scientific ds m, isBlank c = false := by
  intro c hc
  simp only [scientific, List.mem_append, List.mem_cons] at hc
  obtain (htake | hfraction) | rfl | hsign | hdigit := hc
  · exact isBlank_of_isDigit (hds c (List.mem_of_mem_take htake))
  · split at hfraction
    · cases hfraction
    · obtain rfl | hdrop := List.mem_cons.1 hfraction
      · rfl
      · exact isBlank_of_isDigit (hds c (List.mem_of_mem_drop hdrop))
  · rfl
  · rw [hsign]
    split <;> rfl
  · exact isBlank_of_isDigit (isDigit_of_mem_digits hdigit)

theorem Decimal.isBlank_of_mem_text (d : Decimal) : ∀ c ∈ d.text, isBlank c = false := by
  have hds : ∀ c ∈ ((digits d.coefficient).reverse.dropWhile (· == '0')).reverse,
      isDigit c = true := by
    intro c hc
    have hmem := (List.dropWhile_sublist _).mem (List.mem_reverse.1 hc)
    exact isDigit_of_mem_digits (List.mem_reverse.1 hmem)
  rw [text]
  split
  · intro c hc
    simp only [List.mem_cons, List.not_mem_nil, or_false] at hc
    obtain rfl | rfl | rfl := hc <;> rfl
  · split
    · exact isBlank_of_mem_plain hds d.magnitude
    · exact isBlank_of_mem_scientific hds d.magnitude

theorem Binary64.trim_text (x : Binary64) : trim x.text = x.text := by
  refine trim_of_no_blanks fun c hc => ?_
  rw [Binary64.text] at hc
  split at hc
  · obtain rfl | hsize := List.mem_cons.1 hc
    · rfl
    · exact x.shortest.isBlank_of_mem_text c hsize
  · exact x.shortest.isBlank_of_mem_text c hc

theorem trim_signedDigits (n : Int) : trim (signedDigits n) = signedDigits n := by
  refine trim_of_no_blanks fun c hc => ?_
  rw [signedDigits] at hc
  split at hc
  · obtain rfl | hdigit := List.mem_cons.1 hc
    · rfl
    · exact isBlank_of_isDigit (isDigit_of_mem_digits hdigit)
  · exact isBlank_of_isDigit (isDigit_of_mem_digits hc)

end LivePanel
