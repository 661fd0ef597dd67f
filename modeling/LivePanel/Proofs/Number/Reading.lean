import LivePanel.Proofs.Number.Digits
import LivePanel.Proofs.Wire.HandleKey

/-!
# Written decimals

A decimal that was written reads as the same number, perhaps with other zeros at its end. Main
statement: `readDecimal?_text`.
-/
namespace LivePanel

open Decimal (zeros plain scientific)

/-- A text that does not go on with a digit. -/
def Breaks (cs : List Char) : Prop := ∀ c, cs.head? = some c → isDigit c = false

theorem breaks_nil : Breaks [] := by
  intro c hc
  cases hc

theorem breaks_cons {c : Char} (hc : isDigit c = false) (cs : List Char) : Breaks (c :: cs) := by
  intro d hd
  obtain rfl : c = d := Option.some.inj hd
  exact hc

theorem takeWhile_digits {ds rest : List Char} (hds : ∀ c ∈ ds, isDigit c = true)
    (hrest : Breaks rest) : (ds ++ rest).takeWhile isDigit = ds := by
  rw [List.takeWhile_append_of_pos hds]
  cases rest with
  | nil => simp
  | cons c rest => simp [hrest c rfl]

theorem dropWhile_digits {ds rest : List Char} (hds : ∀ c ∈ ds, isDigit c = true)
    (hrest : Breaks rest) : (ds ++ rest).dropWhile isDigit = rest := by
  rw [List.dropWhile_append_of_pos hds]
  cases rest with
  | nil => rfl
  | cons c rest => simp [hrest c rfl]

/-- Digits on both sides of a point. -/
theorem readDecimal?_point {ds fs rest : List Char} {e : Int} (hds : ∀ c ∈ ds, isDigit c = true)
    (hne : ds ≠ []) (hfs : ∀ c ∈ fs, isDigit c = true) (hrest : Breaks rest)
    (he : readExponent? rest = some e) :
    readDecimal? (ds ++ '.' :: (fs ++ rest)) = some ⟨ofDigits (ds ++ fs), e - fs.length⟩ := by
  have hpoint : Breaks ('.' :: (fs ++ rest)) := breaks_cons rfl _
  have hwhole : ds.isEmpty = false := by simpa using hne
  simp only [readDecimal?, takeWhile_digits hds hpoint, dropWhile_digits hds hpoint,
    takeWhile_digits hfs hrest, dropWhile_digits hfs hrest, hwhole, he, Bool.false_and]
  rfl

/-- The power of ten that is written after a mantissa. -/
theorem readExponent?_written (m : Int) :
    readExponent? ('e' :: (if m < 0 then '-' else '+') :: digits m.natAbs) = some m := by
  by_cases hm : m < 0
  · have hvalue : -(m.natAbs : Int) = m := by omega
    rw [if_pos hm, readExponent?, if_pos (.inl rfl), splitSign]
    dsimp only
    rw [readDigits?_digits]
    exact congrArg some hvalue
  · have hvalue : (m.natAbs : Int) = m := by omega
    rw [if_neg hm, readExponent?, if_pos (.inl rfl), splitSign]
    dsimp only
    rw [readDigits?_digits]
    exact congrArg some hvalue

/-- A single digit before the power of ten. -/
theorem readDecimal?_whole {ds rest : List Char} {e : Int} (hds : ∀ c ∈ ds, isDigit c = true)
    (hne : ds ≠ []) (he : readExponent? ('e' :: rest) = some e) :
    readDecimal? (ds ++ 'e' :: rest) = some ⟨ofDigits ds, e⟩ := by
  have hmark : Breaks ('e' :: rest) := breaks_cons rfl _
  have hwhole : ds.isEmpty = false := by simpa using hne
  simp only [readDecimal?, takeWhile_digits hds hmark, dropWhile_digits hds hmark, hwhole,
    Bool.false_and]
  simp [he]

theorem readDecimal?_scientific {ds : List Char} (hds : ∀ c ∈ ds, isDigit c = true)
    (hne : ds ≠ []) (m : Int) :
    readDecimal? (scientific ds m) = some ⟨ofDigits ds, m + 1 - ds.length⟩ := by
  have hmark := readExponent?_written m
  obtain ⟨c, fs, rfl⟩ := List.exists_cons_of_ne_nil hne
  have hc : ∀ x ∈ [c], isDigit x = true := by simpa using hds c List.mem_cons_self
  have hfs : ∀ x ∈ fs, isDigit x = true := fun x hx => hds x (List.mem_cons_of_mem c hx)
  cases fs with
  | nil =>
    have htext : scientific [c] m =
        [c] ++ 'e' :: (if m < 0 then '-' else '+') :: digits m.natAbs := rfl
    rw [htext, readDecimal?_whole hc (List.cons_ne_nil c []) hmark, List.length_singleton]
    congr 2
    omega
  | cons f fs =>
    have htext : scientific (c :: f :: fs) m =
        [c] ++ '.' :: ((f :: fs) ++ 'e' :: (if m < 0 then '-' else '+') :: digits m.natAbs) := rfl
    have hbreak : Breaks ('e' :: (if m < 0 then '-' else '+') :: digits m.natAbs) :=
      breaks_cons rfl _
    rw [htext, readDecimal?_point hc (List.cons_ne_nil c []) hfs hbreak hmark]
    congr 2
    simp only [List.length_cons]
    omega

theorem readDecimal?_plain {ds : List Char} (hds : ∀ c ∈ ds, isDigit c = true) (hne : ds ≠ [])
    (m : Int) : ∃ j, readDecimal? (plain ds m) =
      some ⟨ofDigits ds * powerOfTen j, m + 1 - ds.length - j⟩ := by
  have hlength : 0 < ds.length := List.length_pos_iff.2 hne
  cases m with
  | negSucc m =>
    -- zeros between the point and the digits
    refine ⟨0, ?_⟩
    have hfs : ∀ c ∈ zeros m ++ ds, isDigit c = true := by
      intro c hc
      obtain hzero | hdigit := List.mem_append.1 hc
      · exact isDigit_of_mem_zeros hzero
      · exact hds c hdigit
    have htext : plain ds (.negSucc m) = ['0'] ++ '.' :: ((zeros m ++ ds) ++ []) := by
      simp [plain]
    have hvalue : ofDigits (['0'] ++ (zeros m ++ ds)) = ofDigits ds := by
      have hzeros : ['0'] ++ (zeros m ++ ds) = zeros (m + 1) ++ ds := rfl
      rw [hzeros, ofDigits_zeros_append]
    rw [htext, readDecimal?_point (by simp [isDigit]) (by simp) hfs breaks_nil rfl, hvalue]
    congr 2
    · simp
    · simp only [List.length_append, length_zeros]
      omega
  | ofNat m =>
    by_cases hm : ds.length ≤ m + 1
    · -- zeros before the point, and one after it
      refine ⟨m + 1 - ds.length + 1, ?_⟩
      have htext : plain ds (.ofNat m) =
          (ds ++ zeros (m + 1 - ds.length)) ++ '.' :: (['0'] ++ []) := by
        simp only [plain, List.take_of_length_le hm, List.drop_eq_nil_of_le hm, List.isEmpty_nil,
          if_true, List.append_nil]
      have hwhole : ∀ c ∈ ds ++ zeros (m + 1 - ds.length), isDigit c = true := by
        intro c hc
        obtain hdigit | hzero := List.mem_append.1 hc
        · exact hds c hdigit
        · exact isDigit_of_mem_zeros hzero
      have hzeros : ds ++ zeros (m + 1 - ds.length) ++ ['0'] =
          ds ++ zeros (m + 1 - ds.length + 1) := by
        rw [List.append_assoc, zeros, zeros, List.replicate_succ']
      rw [htext, readDecimal?_point hwhole (by simp [hne]) (by simp [isDigit]) breaks_nil rfl,
        hzeros, ofDigits_append_zeros]
      congr 2
      simp only [List.length_singleton, Int.ofNat_eq_natCast]
      omega
    · -- the point stands among the digits
      refine ⟨0, ?_⟩
      have htext : plain ds (.ofNat m) = ds.take (m + 1) ++ '.' :: (ds.drop (m + 1) ++ []) := by
        have hdrop : (ds.drop (m + 1)).isEmpty = false := by
          simp only [List.isEmpty_eq_false_iff, ne_eq, List.drop_eq_nil_iff]
          exact hm
        have hzeros : m + 1 - ds.length = 0 := by omega
        simp only [plain, hdrop, hzeros, zeros, List.replicate_zero, List.append_nil,
          Bool.false_eq_true, if_false]
      have hwhole : ds.take (m + 1) ≠ [] := by simp [hne]
      rw [htext, readDecimal?_point (fun c hc => hds c (List.mem_of_mem_take hc)) hwhole
        (fun c hc => hds c (List.mem_of_mem_drop hc)) breaks_nil rfl, List.take_append_drop,
        powerOfTen_zero, Nat.mul_one]
      congr 2
      simp only [List.length_drop, Int.ofNat_eq_natCast]
      omega

namespace Decimal

/-- The same number with more zeros at the end of its coefficient. -/
def padded (d : Decimal) (n : Nat) : Decimal := ⟨d.coefficient * powerOfTen n, d.exponent - n⟩

/-- The digits that are written of a decimal: its own, but for zeros at their end. -/
theorem exists_written {d : Decimal} (hd : d.coefficient ≠ 0) : ∃ (ds : List Char) (n : Nat),
    (d.text = if -5 ≤ d.magnitude ∧ d.magnitude ≤ 15 then plain ds d.magnitude
      else scientific ds d.magnitude) ∧
    ds ≠ [] ∧ digits d.coefficient = ds ++ zeros n ∧
    d.coefficient = ofDigits ds * powerOfTen n := by
  obtain ⟨n, hdigits⟩ := exists_digits_zeros d.coefficient
  generalize hds : ((digits d.coefficient).reverse.dropWhile (· == '0')).reverse = ds at hdigits
  have hcoefficient : d.coefficient = ofDigits ds * powerOfTen n := by
    rw [← ofDigits_append_zeros, ← hdigits, ofDigits_digits]
  have hne : ds ≠ [] := by
    rintro rfl
    rw [ofDigits_nil, Nat.zero_mul] at hcoefficient
    exact hd hcoefficient
  refine ⟨ds, n, ?_, hne, hdigits, hcoefficient⟩
  rw [text, if_neg hd, hds]

theorem isDigit_of_written {d : Decimal} {ds : List Char} {n : Nat}
    (h : digits d.coefficient = ds ++ zeros n) : ∀ c ∈ ds, isDigit c = true := by
  intro c hc
  have hmem : c ∈ digits d.coefficient := by
    rw [h]
    exact List.mem_append_left _ hc
  exact isDigit_of_mem_digits hmem

theorem magnitude_of_written {d : Decimal} {ds : List Char} {n : Nat} (hne : ds ≠ [])
    (h : digits d.coefficient = ds ++ zeros n) : d.magnitude + 1 - ds.length = d.exponent + n := by
  have hpos : 0 < ds.length := List.length_pos_iff.2 hne
  rw [magnitude, h, List.length_append, length_zeros]
  omega

/-- What is written of a decimal is the decimal but for zeros at its end. -/
theorem readDecimal?_text {d : Decimal} (hd : d.coefficient ≠ 0) :
    ∃ (b : Decimal) (j k : Nat), b.coefficient ≠ 0 ∧ d = b.padded j ∧
      readDecimal? d.text = some (b.padded k) := by
  obtain ⟨ds, n, htext, hne, hdigits, hcoefficient⟩ := exists_written hd
  have hvalue : ofDigits ds ≠ 0 := by
    intro hzero
    rw [hzero, Nat.zero_mul] at hcoefficient
    exact hd hcoefficient
  have hall := isDigit_of_written hdigits
  have hmagnitude := magnitude_of_written hne hdigits
  have hsame : d = (⟨ofDigits ds, d.exponent + n⟩ : Decimal).padded n := by
    rw [padded, ← hcoefficient, Int.add_sub_cancel]
  rw [htext]
  split
  · obtain ⟨j, hread⟩ := readDecimal?_plain hall hne d.magnitude
    rw [hmagnitude] at hread
    exact ⟨⟨ofDigits ds, d.exponent + n⟩, n, j, hvalue, hsame, hread⟩
  · have hread := readDecimal?_scientific hall hne d.magnitude
    rw [hmagnitude] at hread
    refine ⟨⟨ofDigits ds, d.exponent + n⟩, n, 0, hvalue, hsame, ?_⟩
    rw [hread, padded, powerOfTen_zero, Nat.mul_one]
    simp

end Decimal
end LivePanel
