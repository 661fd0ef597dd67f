import LivePanel.Field.Numeric
import LivePanel.Table
import LivePanel.Text.Quoted

/-!
Which field presents which datatype. Of several registrations for one datatype the last counts, and
the built-in field only takes numeric datatypes that nobody has claimed.
-/
namespace LivePanel

/-- Makes a field of the datatype it is given. -/
abbrev Maker (φ : Type) := Datatype → Options → Field φ

structure Catalog (φ : Type) where
  /-- One maker for each claimed datatype. -/
  makers : Table Datatype (Maker φ) := .empty

namespace Catalog

variable {φ : Type}

def empty : Catalog φ := {}

def contains (c : Catalog φ) (d : Datatype) : Bool := c.makers.contains d

/-- Claims each of the datatypes for one maker. -/
def register (c : Catalog φ) (ds : List Datatype) (m : Maker φ) : Catalog φ :=
  ⟨ds.foldl (fun makers d => makers.insert d m) c.makers⟩

def numericMaker : Maker φ := fun d options => .numeric (.make d options)

def installNumeric (c : Catalog φ) : Catalog φ :=
  c.register (Datatype.numeric.filter fun d => !c.contains d) numericMaker

def withNumeric : Catalog φ := empty.installNumeric

def make? (c : Catalog φ) (d : Datatype) (options : Options) : Option (Field φ) :=
  (c.makers.find? d).map fun m => m d options

def size (c : Catalog φ) : Nat := c.makers.size

/-- Names of the claimed datatypes in ascending order. -/
def names (c : Catalog φ) : List String :=
  (c.makers.keys.map Datatype.name).mergeSort fun a b => decide (a ≤ b)

/-- The claimed datatypes as a log line shows them. -/
def describe (c : Catalog φ) : String :=
  "FieldRegistry \x7b datatypes: [" ++ ", ".intercalate (c.names.map quoted) ++ "] \x7d"

end Catalog
end LivePanel
