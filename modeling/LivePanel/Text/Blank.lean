/-!
Blank characters, those with the Unicode property White_Space, and text without them at its ends.
Main statement: `trim_eq_self`, a text whose ends are not blank is left alone.
-/
namespace LivePanel

def blanks : List Nat :=
  [0x09, 0x0a, 0x0b, 0x0c, 0x0d, 0x20, 0x85, 0xa0, 0x1680, 0x2000, 0x2001, 0x2002, 0x2003, 0x2004,
    0x2005, 0x2006, 0x2007, 0x2008, 0x2009, 0x200a, 0x2028, 0x2029, 0x202f, 0x205f, 0x3000]

def isBlank (c : Char) : Bool := blanks.contains c.toNat

def trim (cs : List Char) : List Char := ((cs.dropWhile isBlank).reverse.dropWhile isBlank).reverse

theorem dropWhile_eq_self_iff {α : Type} (p : α → Bool) (xs : List α) :
    xs.dropWhile p = xs ↔ ∀ x, xs.head? = some x → p x = false := by
  cases xs with
  | nil => simp
  | cons x xs =>
    by_cases h : p x = true
    · have : (xs.dropWhile p).length ≤ xs.length := (List.dropWhile_sublist p).length_le
      simp only [List.dropWhile_cons, h, if_true, List.head?_cons, Option.some.injEq]
      constructor
      · intro he; have := congrArg List.length he; simp at this; omega
      · intro hx; simp [hx x rfl] at h
    · simp [h]

theorem trim_eq_self (cs : List Char) (first : ∀ c, cs.head? = some c → isBlank c = false)
    (last : ∀ c, cs.getLast? = some c → isBlank c = false) : trim cs = cs := by
  have h₁ : cs.dropWhile isBlank = cs := (dropWhile_eq_self_iff _ _).2 first
  have h₂ : cs.reverse.dropWhile isBlank = cs.reverse :=
    (dropWhile_eq_self_iff _ _).2 (by simpa using last)
  rw [trim, h₁, h₂, List.reverse_reverse]

end LivePanel
