/-!
Natural numbers written in decimal digits, and the value of a run of digits.
Main statements: `ofDigits_digits`, a written number has its own value, and
`isDigit_of_mem_digits`, only ASCII digits are written.
-/
namespace LivePanel

def isDigit (c : Char) : Bool := '0' ≤ c && c ≤ '9'

def digitValue (c : Char) : Nat := c.toNat - '0'.toNat

def digitChar (d : Nat) : Char := Char.ofNat ('0'.toNat + d)

def digits (n : Nat) : List Char :=
  if n < 10 then [digitChar n] else digits (n / 10) ++ [digitChar (n % 10)]

/-- Carries on reading `n` with the next digit. -/
def pushDigit (n : Nat) (c : Char) : Nat := n * 10 + digitValue c

def ofDigits (cs : List Char) : Nat := cs.foldl pushDigit 0

theorem digitValue_digitChar : ∀ d, d < 10 → digitValue (digitChar d) = d := by decide

theorem isDigit_digitChar : ∀ d, d < 10 → isDigit (digitChar d) = true := by decide

theorem digits_of_lt {n : Nat} (h : n < 10) : digits n = [digitChar n] := by
  rw [digits, if_pos h]

theorem digits_of_ge {n : Nat} (h : 10 ≤ n) :
    digits n = digits (n / 10) ++ [digitChar (n % 10)] := by
  rw [digits, if_neg (by omega)]

@[simp] theorem ofDigits_nil : ofDigits [] = 0 := rfl

@[simp] theorem ofDigits_append_singleton (cs : List Char) (c : Char) :
    ofDigits (cs ++ [c]) = pushDigit (ofDigits cs) c := by simp [ofDigits]

@[simp] theorem ofDigits_digits (n : Nat) : ofDigits (digits n) = n := by
  induction n using digits.induct with
  | case1 n h => simp [digits_of_lt h, ofDigits, pushDigit, digitValue_digitChar n h]
  | case2 n h ih =>
    rw [digits_of_ge (by omega), ofDigits_append_singleton, ih, pushDigit,
      digitValue_digitChar _ (Nat.mod_lt n (by decide))]
    omega

theorem digits_ne_nil (n : Nat) : digits n ≠ [] := by
  rw [digits]; split <;> simp

theorem isDigit_of_mem_digits {n : Nat} {c : Char} (h : c ∈ digits n) : isDigit c = true := by
  induction n using digits.induct with
  | case1 n hn =>
    rw [digits_of_lt hn, List.mem_singleton] at h
    exact h ▸ isDigit_digitChar n hn
  | case2 n hn ih =>
    rw [digits_of_ge (by omega), List.mem_append, List.mem_singleton] at h
    rcases h with h | h
    · exact ih h
    · exact h ▸ isDigit_digitChar _ (Nat.mod_lt n (by decide))

/-- A minus sign goes before the digits of a negative number. -/
def signedDigits (n : Int) : List Char :=
  if n < 0 then '-' :: digits n.natAbs else digits n.natAbs

end LivePanel
