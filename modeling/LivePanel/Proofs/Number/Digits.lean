import Mathlib.Data.List.TakeWhile
import LivePanel.Number.Decimal

/-!
# Written digits

How many digits a number has, and what zeros before and after them do. Main statements:
`powerOfTen_le_of_digits`, `lt_powerOfTen_of_digits` and `digits_mul_powerOfTen`.
-/
namespace LivePanel

open Decimal (zeros)

@[simp] theorem powerOfTen_zero : powerOfTen 0 = 1 := rfl

theorem powerOfTen_succ (n : Nat) : powerOfTen (n + 1) = powerOfTen n * 10 := rfl

theorem powerOfTen_add (m n : Nat) : powerOfTen (m + n) = powerOfTen m * powerOfTen n :=
  Nat.pow_add 10 m n

theorem powerOfTen_pos (n : Nat) : 0 < powerOfTen n := Nat.pow_pos (by decide)

theorem powerOfTen_le {m n : Nat} (h : m ≤ n) : powerOfTen m ≤ powerOfTen n :=
  Nat.pow_le_pow_right (by decide) h

theorem length_digits_pos (n : Nat) : 0 < (digits n).length :=
  List.length_pos_iff.2 (digits_ne_nil n)

/-- A number has no more digits than it needs. -/
theorem powerOfTen_le_of_digits {n : Nat} (h : 0 < n) :
    powerOfTen ((digits n).length - 1) ≤ n := by
  induction n using digits.induct with
  | case1 n hn =>
    rw [digits_of_lt hn]
    exact h
  | case2 n hn ih =>
    have hpos := length_digits_pos (n / 10)
    have hle := ih (by omega)
    have hlength : (digits (n / 10) ++ [digitChar (n % 10)]).length - 1 =
        (digits (n / 10)).length - 1 + 1 := by
      simp only [List.length_append, List.length_singleton]
      omega
    rw [digits_of_ge (by omega), hlength, powerOfTen_succ]
    omega

theorem lt_powerOfTen_of_digits (n : Nat) : n < powerOfTen (digits n).length := by
  induction n using digits.induct with
  | case1 n hn =>
    rw [digits_of_lt hn]
    exact hn
  | case2 n hn ih =>
    rw [digits_of_ge (by omega), List.length_append, List.length_singleton, powerOfTen_succ]
    omega

theorem length_digits_eq {n k : Nat} (hlow : powerOfTen k ≤ n) (hhigh : n < powerOfTen (k + 1)) :
    (digits n).length = k + 1 := by
  have hpos := length_digits_pos n
  have hmost := powerOfTen_le_of_digits (Nat.lt_of_lt_of_le (powerOfTen_pos k) hlow)
  have hleast := lt_powerOfTen_of_digits n
  have hle : k < (digits n).length :=
    (Nat.pow_lt_pow_iff_right (a := 10) (by decide)).1 (Nat.lt_of_le_of_lt hlow hleast)
  have hge : (digits n).length - 1 < k + 1 :=
    (Nat.pow_lt_pow_iff_right (a := 10) (by decide)).1 (Nat.lt_of_le_of_lt hmost hhigh)
  omega

@[simp] theorem length_zeros (n : Nat) : (zeros n).length = n := List.length_replicate

theorem isDigit_of_mem_zeros {n : Nat} {c : Char} (h : c ∈ zeros n) : isDigit c = true := by
  rw [List.eq_of_mem_replicate h]
  rfl

theorem foldl_pushDigit (n : Nat) (cs : List Char) :
    cs.foldl pushDigit n = n * powerOfTen cs.length + ofDigits cs := by
  induction cs generalizing n with
  | nil => simp
  | cons c cs ih =>
    have hhead : ofDigits (c :: cs) = cs.foldl pushDigit (pushDigit 0 c) := rfl
    rw [List.foldl_cons, hhead, ih, ih (pushDigit 0 c), List.length_cons, powerOfTen_succ, pushDigit,
      pushDigit, Nat.add_mul, Nat.zero_mul, Nat.zero_add, Nat.add_assoc, Nat.mul_assoc,
      Nat.mul_comm 10]

theorem ofDigits_cons (c : Char) (cs : List Char) :
    ofDigits (c :: cs) = cs.foldl pushDigit (digitValue c) := by
  rw [ofDigits, List.foldl_cons, pushDigit, Nat.zero_mul, Nat.zero_add]

theorem digitValue_lt {c : Char} (hc : isDigit c = true) : digitValue c < 10 := by
  simp only [isDigit, Bool.and_eq_true, decide_eq_true_eq, Char.le_def,
    UInt32.le_iff_toNat_le] at hc
  have hnine : ('9' : Char).toNat = 57 := rfl
  have hzero : ('0' : Char).toNat = 48 := rfl
  have hle : c.toNat ≤ ('9' : Char).toNat := hc.2
  rw [digitValue]
  omega

/-- Digits are worth less than a one with as many zeros. -/
theorem ofDigits_lt {ds : List Char} (hds : ∀ c ∈ ds, isDigit c = true) :
    ofDigits ds < powerOfTen ds.length := by
  induction ds with
  | nil => decide
  | cons d ds ih =>
    obtain ⟨hd, hds⟩ := List.forall_mem_cons.1 hds
    have hvalue :=
      Nat.mul_le_mul_right (powerOfTen ds.length) (Nat.le_of_lt_succ (digitValue_lt hd))
    have hrest := ih hds
    rw [ofDigits_cons, foldl_pushDigit, List.length_cons, powerOfTen_succ]
    omega

theorem ofDigits_append (cs ds : List Char) :
    ofDigits (cs ++ ds) = ofDigits cs * powerOfTen ds.length + ofDigits ds := by
  rw [ofDigits, List.foldl_append, foldl_pushDigit]
  rfl

@[simp] theorem ofDigits_zeros (n : Nat) : ofDigits (zeros n) = 0 := by
  induction n with
  | zero => rfl
  | succ n ih =>
    have hlast : zeros (n + 1) = zeros n ++ ['0'] := List.replicate_succ'
    rw [hlast, ofDigits_append_singleton, ih]
    rfl

theorem ofDigits_append_zeros (cs : List Char) (n : Nat) :
    ofDigits (cs ++ zeros n) = ofDigits cs * powerOfTen n := by
  rw [ofDigits_append, ofDigits_zeros, length_zeros, Nat.add_zero]

theorem ofDigits_zeros_append (n : Nat) (cs : List Char) :
    ofDigits (zeros n ++ cs) = ofDigits cs := by
  rw [ofDigits_append, ofDigits_zeros, Nat.zero_mul, Nat.zero_add]

/-- A power of ten only puts zeros behind the digits. -/
theorem digits_mul_powerOfTen {n : Nat} (h : 0 < n) (k : Nat) :
    digits (n * powerOfTen k) = digits n ++ zeros k := by
  induction k with
  | zero => simp [zeros]
  | succ k ih =>
    have hpos : 0 < n * powerOfTen k := Nat.mul_pos h (powerOfTen_pos k)
    have hlast : zeros (k + 1) = zeros k ++ ['0'] := List.replicate_succ'
    rw [powerOfTen_succ, ← Nat.mul_assoc, digits_of_ge (by omega),
      Nat.mul_div_cancel _ (by decide), Nat.mul_mod_left, ih, hlast, List.append_assoc]
    rfl

/-- The digits of a number without the zeros at their end. -/
theorem exists_digits_zeros (n : Nat) :
    ∃ k, digits n = ((digits n).reverse.dropWhile (· == '0')).reverse ++ zeros k := by
  have hzeros : (digits n).reverse.takeWhile (· == '0') =
      zeros ((digits n).reverse.takeWhile (· == '0')).length := by
    refine List.eq_replicate_iff.2 ⟨rfl, fun c hc => ?_⟩
    have hzero := List.mem_takeWhile_imp hc
    simpa using hzero
  have hsplit := List.takeWhile_append_dropWhile (p := (· == '0')) (l := (digits n).reverse)
  refine ⟨((digits n).reverse.takeWhile (· == '0')).length, ?_⟩
  have hreverse := congrArg List.reverse hsplit
  rw [List.reverse_append, List.reverse_reverse, hzeros, zeros, List.reverse_replicate] at hreverse
  exact hreverse.symm

end LivePanel
