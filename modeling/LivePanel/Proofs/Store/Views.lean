import LivePanel.Proofs.Field.Label
import LivePanel.Proofs.Store.Failures
import LivePanel.Proofs.Store.Record

/-!
# What a view shows

A view shows a variable as the descriptor leaves it that gets it rendered: its record, with all that
was merged into it before, and the attributes and the text of the field that was made for it. Which
attributes and which text these are is up to the field. Main statement: `renders_merged`.
-/
namespace LivePanel

variable {φ : Type} [FieldKind φ]

/-- What a field shows it has as its text afterwards. -/
theorem text_present_of_shown? {f : φ} {x : Json} {text : String} (h : shown? f x = some text) :
    FieldKind.text (FieldKind.present f x).1 = text := by
  rcases hp : FieldKind.present f x with ⟨g, e | _⟩
  · rw [shown?_of_refused hp] at h
    cases h
  · rw [shown?_of_accepted hp] at h
    exact Option.some.inj h

namespace Field

/-- A field with those of some options that it allows, whatever value it is shown. -/
structure Filters (options : Options) (f : Field φ) : Prop where
  made : FieldKind.attributes f = options.filter fun m => m.1 ∈ FieldKind.allowed f
  kept : ∀ x, FieldKind.attributes (FieldKind.present f x).1 = FieldKind.attributes f

theorem Filters.attributes_showing {options : Options} {f : Field φ} (hf : f.Filters options)
    (value : Option Json) :
    FieldKind.attributes (Variable.showing f value) =
      options.filter fun m => m.1 ∈ FieldKind.allowed f := by
  cases value with
  | none => exact hf.made
  | some x => exact (hf.kept x).trans hf.made

/-- A field that has no text until it accepts a value. -/
structure Blank (f : Field φ) : Prop where
  made : FieldKind.text f = ""
  refused : ∀ x, shown? f x = none → FieldKind.text (FieldKind.present f x).1 = ""

theorem Blank.text_showing {f : Field φ} (hf : f.Blank) (value : Option Json) :
    FieldKind.text (Variable.showing f value) = (value.bind (shown? f)).getD "" := by
  cases value with
  | none => exact hf.made
  | some x =>
    cases hx : shown? f x with
    | none =>
      rw [Option.bind_some, hx]
      exact hf.refused x hx
    | some text =>
      rw [Option.bind_some, hx]
      exact text_present_of_shown? hx

theorem Firm.blank {f : Field φ} (hf : f.Firm) (hmade : FieldKind.text f = "") : f.Blank where
  made := hmade
  refused := by
    intro x hx
    rcases hp : FieldKind.present f x with ⟨g, e | _⟩
    · rw [hf.present_eq hp]
      exact hmade
    · rw [shown?_of_accepted hp] at hx
      cases hx

end Field

namespace Catalog

theorem filters_numericMaker (d : Datatype) (options : Options) :
    (numericMaker d options : Field φ).Filters options where
  made := List.filter_congr fun m _ => List.contains_eq_mem m.1 NumberField.allowed
  kept x := (lasting_numberField.present (.make d options) x).attributes

theorem blank_numericMaker (d : Datatype) (options : Options) :
    (numericMaker d options : Field φ).Blank :=
  Field.Firm.blank trivial rfl

end Catalog

/-- How a view shows a record, and what that leaves. The field that was made is `f`; `g` is what
became of it when it was shown the value, if there was one. -/
structure View.Shows (view : View) (c : Catalog φ) (r : Record) (f g : Field φ) (w : Variable φ) :
    Prop where
  made : c.make? r.datatype r.options = some f
  valued : g = r.value.elim f fun x => (FieldKind.present f x).1
  handle : view.handle = w.handle
  name : view.name = r.name
  description : view.description = r.description
  datatype : view.datatype = r.datatype
  attributes : view.attributes = FieldKind.attributes g
  filtered : f.Filters r.options →
    view.attributes = r.options.filter fun m => m.1 ∈ FieldKind.allowed f
  text : view.text = FieldKind.text g
  accepted : ∀ x ∈ r.value, ∀ text, shown? f x = some text → view.text = text
  blank : f.Blank → view.text = (r.value.bind (shown? f)).getD ""
  /-- The built-in field filters its options and is blank. -/
  numeric : c.makers.find? r.datatype = some Catalog.numericMaker → f.Filters r.options ∧ f.Blank
  stored : w.record = r
  rendered : w.field = some g

theorem Variable.shows_view {c : Catalog φ} {w : Variable φ} {f : Field φ}
    (hm : c.make? w.datatype w.options = some f) :
    (w.view (showing f w.value)).Shows c w.record f (showing f w.value)
      { w with field := some (showing f w.value) } where
  made := hm
  valued := by
    change showing f w.value = w.value.elim f _
    cases w.value <;> rfl
  handle := rfl
  name := rfl
  description := rfl
  datatype := rfl
  attributes := rfl
  filtered hf := hf.attributes_showing w.value
  text := rfl
  accepted := by
    intro x hx text hshown
    have hvalue : w.value = some x := hx
    change FieldKind.text (showing f w.value) = text
    rw [hvalue]
    exact text_present_of_shown? hshown
  blank hf := hf.text_showing w.value
  numeric := by
    intro hfind
    have hfield : f = Catalog.numericMaker w.datatype w.options := by
      rw [Catalog.make?, show c.makers.find? w.datatype = _ from hfind] at hm
      exact (Option.some.inj hm).symm
    rw [hfield]
    exact ⟨Catalog.filters_numericMaker _ _, Catalog.blank_numericMaker _ _⟩
  stored := rfl
  rendered := rfl

namespace Descriptor

variable {c : Catalog φ} {d : Descriptor} {o o' : Option (Variable φ)}

/-- Only what was not rendered is, and the view shows it as it is left. -/
theorem Ends.shows {view : View} (he : d.Ends c o (o', .ok (some (.render view)))) :
    rendered? o = false ∧ ∃ w f g, o' = some w ∧ view.Shows c w.record f g w := by
  generalize hr : (.ok (some (.render view)) : Except Issue (Option Command)) = r at he
  cases he with
  | incomplete | unclaimed | retyped | silent => cases hr
  | rendered hw hm =>
    cases hr
    exact ⟨hw.unrendered.1, _, _, _, rfl, Variable.shows_view hm⟩
  | valued _ _ _ ht =>
    -- a value is at most shown
    cases ht <;> cases hr

/-- What is not rendered is rendered now, or there is an issue. -/
theorem Ends.rendered_or_error {r : Except Issue (Option Command)} (he : d.Ends c o (o', r))
    (ho : rendered? o = false) : (∃ view, r = .ok (some (.render view))) ∨ ∃ e, r = .error e := by
  cases he with
  | incomplete | unclaimed => exact .inr ⟨_, rfl⟩
  | rendered => exact .inl ⟨_, rfl⟩
  | retyped hr | silent hr | valued hr => simp [rendered?, hr] at ho

end Descriptor

omit [FieldKind φ] in
theorem field_of_unrendered {o : Option (Variable φ)} (ho : rendered? o = false) :
    o.bind (·.field) = none := by
  cases o with
  | none => rfl
  | some v => simpa [rendered?, Variable.rendered] using ho

namespace Store

/-- What a descriptor for a variable comes to that is absent or not rendered. -/
structure RendersMerged (s : Store φ) (c : Catalog φ) (entry : Json) : Prop where
  /-- A view shows the variable that the entry names, with the record that the entry makes of it. -/
  shown : ∀ view, (s.helloEntry c entry).2 = .ok (some (.render view)) →
    ∃ d r f g w, Descriptor.ofJson entry = .ok d ∧ s.renders d.handle = false ∧
      Record.follow d.handle ((s.find? d.handle).map Variable.record) (none, .hello c entry) =
        some r ∧
      (s.helloEntry c entry).1.find? d.handle = some w ∧ view.Shows c r f g w ∧
      (s.Keyed → view.handle = d.handle)
  answered : ∀ d, Descriptor.ofJson entry = .ok d → s.renders d.handle = false →
    (∃ view, (s.helloEntry c entry).2 = .ok (some (.render view))) ∨
      ∃ e, (s.helloEntry c entry).2 = .error e

end Store

/-- What is rendered is the merged variable. Whatever a store and a catalog hold, an entry that gets
a variable rendered found it absent or unrendered, the view shows what the entry made of it, and the
variable is left with just that record and that text. -/
theorem renders_merged (s : Store φ) (c : Catalog φ) (entry : Json) : s.RendersMerged c entry := by
  constructor
  case shown =>
    intro view hview
    cases hd : Descriptor.ofJson entry with
    | error e =>
      simp only [Store.helloEntry, hd] at hview
      cases hview
    | ok d =>
      have he := s.ends_hello c hd
      rw [hview] at he
      obtain ⟨hunrendered, w, f, g, hw, hshows⟩ := he.shows
      have hrecord : Record.follow d.handle ((s.find? d.handle).map Variable.record)
          (none, .hello c entry) = some w.record := by
        rw [← field_of_unrendered hunrendered, ← Arrival.record_act, ← Store.find?_arrive, hw]
        rfl
      refine ⟨d, w.record, f, g, w, rfl, hunrendered, hrecord, hw, hshows, fun hs => ?_⟩
      exact hshows.handle.trans (hs.arrive (.hello c entry) d.handle w hw)
  case answered =>
    intro d hd hunrendered
    exact (s.ends_hello c hd).rendered_or_error hunrendered

/-- A descriptor that no field was there for, a value that the later field refuses, and a descriptor
that changes datatype and options. -/
example :
    let s := [Delivery.hello .withNumeric [.array [(Handle.number 1).json, .string "gain",
          .string "color", .null, .object [("unit", .string "dB")]]],
        .refresh [.array [(Handle.number 1).json, .string "loud"]]].foldl Store.deliver
      (Store.empty : Store Empty)
    ∃ view, (s.helloEntry .withNumeric (.array [(Handle.number 1).json, .null, .string "int", .null,
        .object [("max", (Handle.number 9).json), ("unit", .string "dB")]])).2 =
        .ok (some (.render view)) ∧
      view.name = "gain" ∧ view.attributes = [("max", (Handle.number 9).json)] ∧ view.text = "" :=
  ⟨_, rfl, rfl, rfl, rfl⟩

/-- A label has the unit among its attributes although it allows none; another one starts with a
dash. -/
def Catalog.outspoken : Catalog Label :=
  (empty.register [.other "color"] Label.maker).register [.time] fun d _ => .custom ⟨d, [], "-"⟩

theorem unlisted_unit_shown :
    (∃ view f, (Store.empty.helloEntry .outspoken (.array [(Handle.number 1).json, .null,
        .string "color", .null, .object [("unit", .string "dB")]])).2 = .ok (some (.render view)) ∧
      Catalog.outspoken.make? (.other "color") [("unit", .string "dB")] = some f ∧
      ("unit", .string "dB") ∈ view.attributes ∧ "unit" ∉ FieldKind.allowed f) ∧
    ∃ view, (Store.empty.helloEntry .outspoken (.array [(Handle.number 1).json, .null,
        .string "time"])).2 = .ok (some (.render view)) ∧ view.text ≠ "" :=
  ⟨⟨_, _, rfl, rfl, List.mem_singleton_self _, by decide⟩, _, rfl, by decide⟩

end LivePanel
