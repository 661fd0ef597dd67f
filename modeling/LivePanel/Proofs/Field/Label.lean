import LivePanel.Proofs.Field.Catalog
import LivePanel.Proofs.Field.Lifetime

/-!
# Labels

A field for any datatype: it shows each value as JSON text and sends its text as a string. There is
nothing to show for a null.
-/
namespace LivePanel

structure Label where
  datatype : Datatype
  attributes : Options
  text : String

instance : FieldKind Label where
  datatype := Label.datatype
  allowed _ := []
  attributes := Label.attributes
  text := Label.text
  value f := if f.text = "" then .error (.notAValue f.datatype "") else .ok (.string f.text)
  present f
    | .null => (f, .error (.unfit f.datatype "null"))
    | v => ({ f with text := v.text }, .ok ())
  enter f text := { f with text }

def Label.maker : Maker Label := fun d options => .custom ⟨d, options.keep ["unit"], ""⟩

theorem steady_label : Steady Label := by
  intro f x e he
  cases x <;> first | rfl | cases he

theorem lasting_label : Lasting Label where
  present f x := by cases x <;> exact ⟨rfl, rfl⟩
  enter _ _ := ⟨rfl, rfl⟩

theorem plain_label : Plain Label where
  present f x y := by cases x <;> cases y <;> rfl
  enter f text y := by cases y <;> rfl

/-- A label can be made for whatever it is asked for. -/
theorem Label.apt_maker (ds : List Datatype) : Label.maker.Apt ds := fun _ _ _ => rfl

end LivePanel
