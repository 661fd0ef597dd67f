import LivePanel.Number.Binary64

/-!
JSON values. A number is whole, if a signed or an unsigned 64-bit word can hold it, or a double. The
members of an object are kept in the order of their names, one for each name.
-/
namespace LivePanel

/-- A whole number that a signed or an unsigned 64-bit word can hold. -/
structure Whole where
  val : Int
  lower : -9223372036854775808 ≤ val
  upper : val < 18446744073709551616
  deriving DecidableEq

def Whole.ofInt? (n : Int) : Option Whole :=
  if h : -9223372036854775808 ≤ n ∧ n < 18446744073709551616 then some ⟨n, h.1, h.2⟩ else none

def Whole.ofWord (n : UInt64) : Whole := ⟨n.toNat, by omega, by have := n.toNat_lt; omega⟩

inductive Number where
  | whole : Whole → Number
  | real : Binary64 → Number
  deriving DecidableEq

inductive Json where
  | null : Json
  | bool : Bool → Json
  | number : Number → Json
  | string : String → Json
  | array : List Json → Json
  | object : List (String × Json) → Json

/-- Named values in ascending order of their names. -/
abbrev Members := List (String × Json)

namespace Members

/-- Puts a member in its place; a member of that name is replaced. -/
def insert (name : String) (value : Json) : Members → Members
  | [] => [(name, value)]
  | (n, v) :: ms =>
    if name = n then (name, value) :: ms
    else if name < n then (name, value) :: (n, v) :: ms
    else (n, v) :: insert name value ms

def get? (name : String) : Members → Option Json
  | [] => none
  | (n, v) :: ms => if name = n then some v else get? name ms

/-- The members whose names are allowed. -/
def keep (allowed : List String) (ms : Members) : Members := ms.filter (allowed.contains ·.1)

@[simp] theorem get?_nil (name : String) : get? name [] = none := rfl

theorem get?_cons (name n : String) (v : Json) (ms : Members) :
    get? name ((n, v) :: ms) = if name = n then some v else get? name ms := rfl

theorem get?_insert_self (name : String) (value : Json) (ms : Members) :
    get? name (insert name value ms) = some value := by
  induction ms with
  | nil => simp [insert, get?]
  | cons m ms ih =>
    simp only [insert]
    split
    · simp [get?]
    · split <;> simp_all [get?]

theorem get?_insert_of_ne {name other : String} (h : other ≠ name) (value : Json) (ms : Members) :
    get? other (insert name value ms) = get? other ms := by
  induction ms with
  | nil => simp [insert, get?, h]
  | cons m ms ih =>
    simp only [insert]
    split
    · simp_all [get?]
    · split <;> simp_all [get?]

end Members

namespace Json

/-- The word for a value's kind. -/
def kind : Json → String
  | .null => "null"
  | .bool _ => "boolean"
  | .number _ => "number"
  | .string _ => "string"
  | .array _ => "array"
  | .object _ => "object"

def int (n : Int) (lower : -9223372036854775808 ≤ n := by decide)
    (upper : n < 18446744073709551616 := by decide) : Json :=
  .number (.whole ⟨n, lower, upper⟩)

end Json
end LivePanel
