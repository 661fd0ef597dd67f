import LivePanel.Proofs.Json.Figures
import LivePanel.Proofs.Json.Values

/-!
# The grammar of JSON text

What a JSON text is and which value it holds, without any reader: `Spells`, and for a whole text
`Holds`. The members of an object are listed as they stand in the text, so there may be two with one
name; `tidy` is what is kept of such a value.
-/
namespace LivePanel.Json

/-- Carries on reading `n` with the next hexadecimal digit. -/
def pushHex? (n : Nat) (c : Char) : Option Nat := (hexValue? c).map (n * 16 + ·)

/-- Four hexadecimal digits, which name a UTF-16 unit. -/
def IsUnit (u : List Char) (n : Nat) : Prop := u.length = 4 ∧ u.foldlM pushHex? 0 = some n

/-- The ways to write one character of a string. Halves of a pair go together, the high one first. -/
inductive Glyph : List Char → Char → Prop where
  | plain {c : Char} : c ≠ '"' → c ≠ '\\' → ¬ c.toNat < 0x20 → Glyph [c] c
  | letter {c d : Char} : shortEscape? c = some d → Glyph ['\\', c] d
  | unit {u : List Char} {n : Nat} : IsUnit u n → isHighHalf n = false → isLowHalf n = false →
      Glyph ('\\' :: 'u' :: u) (.ofNat n)
  | pair {u w : List Char} {high low : Nat} : IsUnit u high → isHighHalf high = true →
      IsUnit w low → isLowHalf low = true →
      Glyph ('\\' :: 'u' :: u ++ '\\' :: 'u' :: w) (joinHalves high low)

/-- What stands between the quotes of a string. -/
inductive Quoted : List Char → List Char → Prop where
  | nil : Quoted [] []
  | snoc {cs ds t : List Char} {d : Char} : Quoted cs ds → Glyph t d →
      Quoted (cs ++ t) (ds ++ [d])

/-- Nothing but blanks, as they may stand around values and names. -/
def Spaces (cs : List Char) : Prop := ∀ c ∈ cs, isSpace c = true

/-- The name of a member, the blanks around it included. -/
inductive Named : List Char → String → Prop where
  | mk {a b q ds : List Char} : Spaces a → Quoted q ds → Spaces b →
      Named (a ++ '"' :: q ++ '"' :: b) (.ofList ds)

mutual

/-- The text of a value, from its first character to its last. -/
inductive Spells : List Char → Json → Prop where
  | null : Spells ['n', 'u', 'l', 'l'] .null
  | yes : Spells ['t', 'r', 'u', 'e'] (.bool true)
  | no : Spells ['f', 'a', 'l', 's', 'e'] (.bool false)
  | number {f : Figures} {n : Number} : f.value = some n → Spells f.text (.number n)
  | string {q ds : List Char} : Quoted q ds → Spells ('"' :: q ++ ['"']) (.string (.ofList ds))
  | emptyArray {a : List Char} : Spaces a → Spells ('[' :: a ++ [']']) (.array [])
  | array {cs ds : List Char} {vs : List Json} {v : Json} : Items cs vs → Padded ds v →
      Spells ('[' :: cs ++ ds ++ [']']) (.array (vs ++ [v]))
  | emptyObject {a : List Char} : Spaces a → Spells ('\x7b' :: a ++ ['\x7d']) (.object [])
  | object {cs ns ds : List Char} {ms : List (String × Json)} {name : String} {v : Json} :
      Entries cs ms → Named ns name → Padded ds v →
      Spells ('\x7b' :: cs ++ ns ++ ':' :: ds ++ ['\x7d']) (.object (ms ++ [(name, v)]))

/-- A value with blanks around it. -/
inductive Padded : List Char → Json → Prop where
  | mk {a b cs : List Char} {v : Json} : Spaces a → Spells cs v → Spaces b →
      Padded (a ++ cs ++ b) v

/-- The items of an array that a comma follows. -/
inductive Items : List Char → List Json → Prop where
  | nil : Items [] []
  | snoc {cs ds : List Char} {vs : List Json} {v : Json} : Items cs vs → Padded ds v →
      Items (cs ++ ds ++ [',']) (vs ++ [v])

/-- The members of an object that a comma follows. -/
inductive Entries : List Char → List (String × Json) → Prop where
  | nil : Entries [] []
  | snoc {cs ns ds : List Char} {ms : List (String × Json)} {name : String} {v : Json} :
      Entries cs ms → Named ns name → Padded ds v →
      Entries (cs ++ ns ++ ':' :: ds ++ [',']) (ms ++ [(name, v)])

end

/-- A JSON text: one value that is not nested too deep, and blanks. -/
structure Holds (text : String) (v : Json) : Prop where
  padded : Padded text.toList v
  depth : v.depth ≤ maxDepth

mutual

/-- The members of each object in the order of their names, the last one of each name. -/
def tidy : Json → Json
  | .null => .null
  | .bool b => .bool b
  | .number n => .number n
  | .string s => .string s
  | .array vs => .array (tidyItems vs)
  | .object ms => .object (tidyMembers [] ms)

def tidyItems : List Json → List Json
  | [] => []
  | v :: vs => tidy v :: tidyItems vs

/-- The members join those before them. -/
def tidyMembers (before : Members) : List (String × Json) → Members
  | [] => before
  | (name, v) :: ms => tidyMembers (before.insert name (tidy v)) ms

end

theorem tidyItems_eq_map (vs : List Json) : tidyItems vs = vs.map tidy := by
  induction vs with
  | nil => rfl
  | cons v vs ih => rw [tidyItems, ih, List.map_cons]

theorem tidyItems_append (vs : List Json) (v : Json) :
    tidyItems (vs ++ [v]) = tidyItems vs ++ [tidy v] := by
  simp [tidyItems_eq_map]

theorem tidyMembers_append (before : Members) (ms : List (String × Json)) (name : String)
    (v : Json) : tidyMembers before (ms ++ [(name, v)]) =
      (tidyMembers before ms).insert name (tidy v) := by
  induction ms generalizing before with
  | nil => rfl
  | cons m ms ih => exact ih _

theorem depthItems_append (vs : List Json) (v : Json) :
    depthItems (vs ++ [v]) = max (depthItems vs) (depth v) := by
  induction vs with
  | nil => simp [depthItems]
  | cons w ws ih => simp only [List.cons_append, depthItems, ih, Nat.max_assoc]

theorem depthMembers_append (ms : List (String × Json)) (name : String) (v : Json) :
    depthMembers (ms ++ [(name, v)]) = max (depthMembers ms) (depth v) := by
  induction ms with
  | nil => simp [depthMembers]
  | cons m ms ih => simp only [List.cons_append, depthMembers, ih, Nat.max_assoc]

end LivePanel.Json
