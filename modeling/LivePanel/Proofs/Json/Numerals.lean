import LivePanel.Json.Printer
import LivePanel.Json.Reader
import LivePanel.Proofs.Number.Digits

/-!
# Numbers in JSON text

What the reader makes of digits, of a point and of a power of ten, one part after another. A whole
number reads as it was before it was written. Main statements: `run_number` and
`readNumeral?_whole`.
-/
namespace LivePanel

/-- The number that a text is read as, from its first character on. -/
def readNumeral? : List Char → Option Number
  | [] => none
  | c :: cs => (Numeral.ofChar? c).bind fun n =>
      (cs.foldlM Numeral.next? n).bind fun m => m.value.toOption

/-- Whether a character goes after a value inside of an array or an object. -/
def Closes (c : Char) : Prop := c = ',' ∨ c = ']' ∨ c = '\x7d'

theorem foldl_pushDigit_digits {n : Nat} {d : Char} {ds : List Char} (h : digits n = d :: ds) :
    ds.foldl pushDigit (digitValue d) = n := by
  rw [← ofDigits_cons, ← h, ofDigits_digits]

/-- A sign and a size are read as they were taken apart. -/
theorem signed_natAbs (m : Int) :
    (if decide (m < 0) = true then -(m.natAbs : Int) else m.natAbs) = m := by
  split <;> rename_i hm <;> simp only [decide_eq_true_eq] at hm <;> omega

namespace Numeral

theorem next?_closes {d : Char} (hd : Closes d) (n : Numeral) : n.next? d = none := by
  obtain rfl | rfl | rfl := hd <;> cases n <;> rfl

/-- A number that has begun with a digit, after its sign. -/
def ofDigit (negative : Bool) (c : Char) : Numeral :=
  if c = '0' then .zero negative else .whole negative (.ofDigit c)

theorem ne_of_ofChar? {c d : Char} {n : Numeral} (hc : ofChar? c = some n)
    (hd : ofChar? d = none) : c ≠ d := by
  rintro rfl
  rw [hc] at hd
  cases hd

theorem ne_minus_of_isDigit {c : Char} (hc : isDigit c = true) : c ≠ '-' := by
  rintro rfl
  cases hc

theorem ofChar?_of_isDigit {c : Char} (hc : isDigit c = true) :
    ofChar? c = some (ofDigit false c) := by
  rw [ofChar?, if_neg (ne_minus_of_isDigit hc), ofDigit, if_pos hc]
  split <;> rfl

theorem next?_sign {c : Char} (hc : isDigit c = true) : next? .sign c = some (ofDigit true c) := by
  simp only [next?, if_pos hc, ofDigit]
  split <;> rfl

/-- A part of a number that takes digits takes them all, one after another. -/
theorem foldlM_next? {α : Type} (part : α → Numeral) {push : α → Char → α}
    (hnext : ∀ a c, isDigit c = true → (part a).next? c = some (part (push a c))) (a : α)
    {ds : List Char} (hds : ∀ c ∈ ds, isDigit c = true) :
    ds.foldlM next? (part a) = some (part (ds.foldl push a)) := by
  induction ds generalizing a with
  | nil => rfl
  | cons d ds ih =>
    obtain ⟨hd, hds⟩ := List.forall_mem_cons.1 hds
    rw [List.foldlM_cons, hnext a d hd]
    exact ih (push a d) hds

variable (negative : Bool) (s : Significand) {ds : List Char} (hds : ∀ c ∈ ds, isDigit c = true)

include hds in
theorem foldlM_whole : ds.foldlM next? (.whole negative s) =
    some (.whole negative (ds.foldl Significand.pushWhole s)) :=
  foldlM_next? (Numeral.whole negative) (fun _ _ hc => if_pos hc) s hds

include hds in
theorem foldlM_fraction : ds.foldlM next? (.fraction negative s) =
    some (.fraction negative (ds.foldl Significand.pushFraction s)) :=
  foldlM_next? (Numeral.fraction negative) (fun _ _ hc => if_pos hc) s hds

include hds in
theorem foldlM_power (down : Bool) (p : Nat) : ds.foldlM next? (.power negative s down p) =
    some (.power negative s down (ds.foldl pushDigit p)) :=
  foldlM_next? (Numeral.power negative s down) (fun _ _ hc => if_pos hc) p hds

include hds in
/-- At least one digit has to go after the point. -/
theorem foldlM_point (hne : ds ≠ []) : ds.foldlM next? (.point negative s) =
    some (.fraction negative (ds.foldl Significand.pushFraction s)) := by
  obtain ⟨d, ds, rfl⟩ := List.exists_cons_of_ne_nil hne
  obtain ⟨hd, hds⟩ := List.forall_mem_cons.1 hds
  have hfirst : next? (.point negative s) d = some (.fraction negative (s.pushFraction d)) :=
    if_pos hd
  rw [List.foldlM_cons, hfirst]
  exact foldlM_fraction negative _ hds

/-- A written power of ten, from its letter on. -/
theorem foldlM_mark {n : Numeral} (hmark : n.next? 'e' = some (.mark negative s)) (m : Int) :
    ('e' :: (if m < 0 then '-' else '+') :: digits m.natAbs).foldlM next? n =
      some (.power negative s (decide (m < 0)) m.natAbs) := by
  have hsign : next? (.mark negative s) (if m < 0 then '-' else '+') =
      some (.markSign negative s (decide (m < 0))) := by
    by_cases hm : m < 0
    · rw [if_pos hm, decide_eq_true hm]
      rfl
    · rw [if_neg hm, decide_eq_false hm]
      rfl
  obtain ⟨d, ds, hds⟩ := List.exists_cons_of_ne_nil (digits_ne_nil m.natAbs)
  have hall : ∀ c ∈ d :: ds, isDigit c = true := fun c hc => isDigit_of_mem_digits (hds ▸ hc)
  obtain ⟨hd, hrest⟩ := List.forall_mem_cons.1 hall
  have hfirst : next? (.markSign negative s (decide (m < 0))) d =
      some (.power negative s (decide (m < 0)) (digitValue d)) := if_pos hd
  rw [hds, List.foldlM_cons, hmark, Option.bind_eq_bind, Option.bind_some, List.foldlM_cons, hsign,
    Option.bind_eq_bind, Option.bind_some, List.foldlM_cons, hfirst, Option.bind_eq_bind,
    Option.bind_some, foldlM_power negative s hrest, foldl_pushDigit_digits hds]

/-- The value is that of the digits times the power of ten. -/
theorem value_power (m : Int) :
    value (.power negative s (decide (m < 0)) m.natAbs) = real negative s m := by
  simp only [value, signed_natAbs]

end Numeral

namespace Significand

/-- Digits before the point are all kept while their number has 64 bits. -/
theorem foldl_pushWhole {ds : List Char} {n : Nat} (scale : Int)
    (hfits : ds.foldl pushDigit n < powerOfTwo 64) :
    ds.foldl pushWhole ⟨n, scale, false⟩ = ⟨ds.foldl pushDigit n, scale, false⟩ := by
  induction ds generalizing n with
  | nil => rfl
  | cons d ds ih =>
    rw [List.foldl_cons] at hfits
    have hle : pushDigit n d ≤ ds.foldl pushDigit (pushDigit n d) := by
      rw [foldl_pushDigit]
      exact Nat.le_trans (Nat.le_mul_of_pos_right _ (powerOfTen_pos _)) (Nat.le_add_right _ _)
    have hfirst : pushWhole ⟨n, scale, false⟩ d = ⟨pushDigit n d, scale, false⟩ := by
      simp [pushWhole, fits, Nat.lt_of_le_of_lt hle hfits]
    rw [List.foldl_cons, hfirst, ih hfits]
    rfl

theorem foldl_pushFraction_of_full {s : Significand} (hs : s.full = true) (ds : List Char) :
    ds.foldl pushFraction s = s := by
  induction ds with
  | nil => rfl
  | cons d ds ih =>
    have hkept : s.pushFraction d = s := by
      cases s
      simp_all [pushFraction, fits]
    rw [List.foldl_cons, hkept, ih]

/-- Of the digits after the point those that fit are kept, and none counts that does not. -/
theorem foldl_pushFraction (s : Significand) (ds : List Char) :
    ∃ kept ≤ ds.length, (ds.foldl pushFraction s).scale = s.scale - kept ∧
      (ds.foldl pushFraction s).value * powerOfTen (ds.length - kept) ≤
        ds.foldl pushDigit s.value := by
  induction ds generalizing s with
  | nil => exact ⟨0, Nat.le_refl 0, by simp, by simp⟩
  | cons d ds ih =>
    by_cases hfits : s.fits d = true
    · have hpush : s.pushFraction d = ⟨pushDigit s.value d, s.scale - 1, false⟩ := if_pos hfits
      obtain ⟨kept, hle, hscale, hvalue⟩ := ih (s.pushFraction d)
      rw [hpush] at hscale hvalue
      rw [List.foldl_cons, List.foldl_cons, List.length_cons, hpush]
      refine ⟨kept + 1, Nat.succ_le_succ hle, ?_, ?_⟩
      · rw [hscale]
        push_cast
        omega
      · rw [Nat.add_sub_add_right]
        exact hvalue
    · have hpush : s.pushFraction d = { s with full := true } := if_neg hfits
      rw [List.foldl_cons, hpush, foldl_pushFraction_of_full rfl]
      refine ⟨0, Nat.zero_le _, by simp, ?_⟩
      rw [foldl_pushDigit]
      exact Nat.le_add_right _ _

theorem foldl_pushFraction_lt {s : Significand} (hs : s.value < powerOfTwo 64) (ds : List Char) :
    (ds.foldl pushFraction s).value < powerOfTwo 64 := by
  induction ds generalizing s with
  | nil => exact hs
  | cons d ds ih =>
    refine ih ?_
    rw [pushFraction]
    split
    · rename_i hfits
      simp only [fits, Bool.and_eq_true, decide_eq_true_eq] at hfits
      exact hfits.2
    · exact hs

end Significand

/-- What is read of a number is what its digits come to, whatever its sign. -/
theorem readNumeral?_eq_toOption {negative : Bool} {c : Char} {cs : List Char} {m : Numeral}
    (hc : isDigit c = true) (hcs : cs.foldlM Numeral.next? (.ofDigit negative c) = some m) :
    readNumeral? (if negative then '-' :: c :: cs else c :: cs) = m.value.toOption := by
  cases negative with
  | false =>
    simp only [Bool.false_eq_true, if_false, readNumeral?, Numeral.ofChar?_of_isDigit hc,
      Option.bind_some, hcs]
  | true =>
    have hsign : Numeral.ofChar? '-' = some .sign := rfl
    simp only [if_true, readNumeral?, hsign, Option.bind_some, List.foldlM_cons,
      Numeral.next?_sign hc, Option.bind_eq_bind, hcs]

theorem readNumeral?_signed {negative : Bool} {c : Char} {cs : List Char} {m : Numeral} {v : Number}
    (hc : isDigit c = true) (hcs : cs.foldlM Numeral.next? (.ofDigit negative c) = some m)
    (hv : m.value = .ok v) :
    readNumeral? (if negative then '-' :: c :: cs else c :: cs) = some v := by
  rw [readNumeral?_eq_toOption hc hcs, hv]
  rfl

/-- No number that is written begins with a zero but zero. -/
theorem eq_zero_of_digits {n : Nat} {ds : List Char} (h : digits n = '0' :: ds) : n = 0 := by
  induction n using digits.induct generalizing ds with
  | case1 n hn =>
    rw [digits_of_lt hn] at h
    obtain ⟨hd, -⟩ := List.cons.inj h
    have hvalue := digitValue_digitChar n hn
    rw [hd] at hvalue
    exact hvalue.symm
  | case2 n hn ih =>
    rw [digits_of_ge (by omega)] at h
    obtain ⟨d, ds', hds⟩ := List.exists_cons_of_ne_nil (digits_ne_nil (n / 10))
    rw [hds, List.cons_append] at h
    obtain ⟨rfl, -⟩ := List.cons.inj h
    have hzero := ih hds
    omega

/-- A whole number reads as it was. -/
theorem readNumeral?_whole (n : Whole) :
    readNumeral? (Number.text (.whole n)) = some (.whole n) := by
  obtain ⟨d, ds, hds⟩ := List.exists_cons_of_ne_nil (digits_ne_nil n.val.natAbs)
  have hall : ∀ c ∈ d :: ds, isDigit c = true := fun c hc => isDigit_of_mem_digits (hds ▸ hc)
  obtain ⟨hd, hrest⟩ := List.forall_mem_cons.1 hall
  have htext : Number.text (.whole n) =
      if decide (n.val < 0) then '-' :: d :: ds else d :: ds := by
    rw [Number.text, signedDigits, hds]
    simp
  have hlower := n.lower
  have hupper := n.upper
  have hword : n.val.natAbs < powerOfTwo 64 := by
    have hbound : powerOfTwo 64 = 18446744073709551616 := rfl
    omega
  have hvalue := foldl_pushDigit_digits hds
  rw [htext]
  by_cases hzero : d = '0'
  · -- a zero stands alone, without a sign
    subst hzero
    have hnone := eq_zero_of_digits hds
    have hval : n.val = 0 := by omega
    have hdigits : digits 0 = ['0'] := digits_of_lt (by decide)
    rw [hnone, hdigits] at hds
    obtain ⟨-, rfl⟩ := List.cons.inj hds
    obtain ⟨v, _, _⟩ := n
    obtain rfl : v = 0 := hval
    rfl
  · refine readNumeral?_signed hd
      (m := .whole (decide (n.val < 0)) ⟨n.val.natAbs, 0, false⟩) ?_ ?_
    · have hfits := Significand.foldl_pushWhole 0 (hvalue.symm ▸ hword)
      rw [Numeral.ofDigit, if_neg hzero, Numeral.foldlM_whole _ _ hrest, Significand.ofDigit, hfits,
        hvalue]
    · have hof : Whole.ofInt? n.val = some n := dif_pos ⟨hlower, hupper⟩
      simp only [Numeral.value, signed_natAbs, hof]
      rfl

namespace Json

theorem step_number {c : Char} {n : Numeral} (h : Numeral.ofChar? c = some n) (fs : List Frame) :
    step (.reading fs .value) c = .reading fs (.number n) := by
  have hne : ∀ d, Numeral.ofChar? d = none → c ≠ d := fun d => Numeral.ne_of_ofChar? h
  simp [step, begin, isSpace, h, hne ' ' rfl, hne '\t' rfl, hne '\n' rfl, hne '\r' rfl, hne '"' rfl,
    hne '[' rfl, hne '\x7b' rfl, hne 'n' rfl, hne 't' rfl, hne 'f' rfl]

theorem run_numeral {n m : Numeral} {cs : List Char} (h : cs.foldlM Numeral.next? n = some m)
    (fs : List Frame) : run (.reading fs (.number n)) cs = .reading fs (.number m) := by
  induction cs generalizing n with
  | nil =>
    obtain rfl := Option.some.inj h
    rfl
  | cons c cs ih =>
    rw [List.foldlM_cons] at h
    obtain ⟨n', hn, hrest⟩ := Option.bind_eq_some_iff.1 h
    rw [run_cons, step]
    simp only [hn]
    exact ih hrest

/-- No number begins with a blank or with the end of an array. -/
theorem exists_cons_of_readNumeral? {cs : List Char} {v : Number} (h : readNumeral? cs = some v) :
    ∃ c ds, cs = c :: ds ∧ isSpace c = false ∧ c ≠ ']' := by
  cases cs with
  | nil => cases h
  | cons c cs =>
    obtain ⟨m, hm, -⟩ := Option.bind_eq_some_iff.1 h
    have hne : ∀ d, Numeral.ofChar? d = none → c ≠ d := fun d => Numeral.ne_of_ofChar? hm
    refine ⟨c, cs, rfl, ?_, hne ']' rfl⟩
    simp [isSpace, hne ' ' rfl, hne '\t' rfl, hne '\n' rfl, hne '\r' rfl]

/-- What has been read of a number when its text is over. -/
theorem exists_numeral {cs : List Char} {v : Number} (h : readNumeral? cs = some v)
    (fs : List Frame) :
    ∃ m : Numeral, m.value = .ok v ∧ run (.reading fs .value) cs = .reading fs (.number m) := by
  cases cs with
  | nil => cases h
  | cons c cs =>
    obtain ⟨n, hn, h⟩ := Option.bind_eq_some_iff.1 h
    obtain ⟨m, hm, hv⟩ := Option.bind_eq_some_iff.1 h
    refine ⟨m, ?_, by rw [run_cons, step_number hn, run_numeral hm]⟩
    cases hr : m.value with
    | error e => simp [hr, Except.toOption] at hv
    | ok w => simpa [hr, Except.toOption] using hv

/-- A number goes as far as the character that closes it, which counts as well. -/
theorem run_number {cs : List Char} {v : Number} (h : readNumeral? cs = some v) (fs : List Frame)
    {d : Char} (hd : Closes d) :
    run (.reading fs .value) (cs ++ [d]) = between (deliver fs (.number v)) d := by
  obtain ⟨m, hv, hrun⟩ := exists_numeral h fs
  rw [run_append, hrun, run_cons, step]
  simp only [Numeral.next?_closes hd, hv]
  rfl

/-- A number may end with the text. -/
theorem finish_number {cs : List Char} {v : Number} (h : readNumeral? cs = some v) :
    finish (run (.reading [] .value) cs) = .ok (.number v) := by
  obtain ⟨m, hv, hrun⟩ := exists_numeral h []
  rw [hrun, finish, hv]
  rfl

end Json

end LivePanel
