import LivePanel.Store.Basic

/-!
# Endings

Everything that an entry or an edit can do to the variable it is for, listed once, with what has to
hold for it. Whatever is said of steps later goes through these lists. Main statements:
`Descriptor.ends_step`, `Assignment.ends_step` and `ends_editStep`.
-/
namespace LivePanel

variable {φ : Type} [FieldKind φ]

namespace Variable

/-- How a variable takes a value from the server. -/
inductive Takes (v : Variable φ) (x : Json) :
    Variable φ × Except Issue (Option Command) → Prop where
  /-- Without a field the value is just kept. -/
  | kept : v.field = none → v.Takes x ({ v with value := some x }, .ok none)
  | shown {f f' : Field φ} : v.field = some f → FieldKind.present f x = (f', .ok ()) →
      v.Takes x
        ({ v with value := some x, field := some f' },
          .ok (some (.show v.handle (FieldKind.text f'))))
  | refused {f f' : Field φ} {e : FieldFault} : v.field = some f →
      FieldKind.present f x = (f', .error e) →
      v.Takes x ({ v with field := some f' }, .error (.field v.handle e))

theorem takes_refresh (v : Variable φ) (x : Json) : v.Takes x (v.refresh x) := by
  cases hf : v.field with
  | none =>
    have hr : v.refresh x = ({ v with value := some x }, .ok none) := by
      simp only [refresh, accept, hf]
      rfl
    rw [hr]
    exact .kept hf
  | some f =>
    rcases hp : FieldKind.present f x with ⟨f', e | _⟩
    · have hr : v.refresh x = ({ v with field := some f' }, .error (.field v.handle e)) := by
        simp only [refresh, accept, hf, hp]
        rfl
      rw [hr]
      exact .refused hf hp
    · have hr : v.refresh x = ({ v with value := some x, field := some f' },
          .ok (some (.show v.handle (FieldKind.text f')))) := by
        simp only [refresh, accept, hf, hp]
        rfl
      rw [hr]
      exact .shown hf hp

end Variable

namespace Assignment

/-- How a value entry ends. -/
inductive Ends (e : Assignment) : Option (Variable φ) → Step φ → Prop where
  | unknown : e.Ends none (none, .error (.noVariable e.handle))
  | valued {v w : Variable φ} {r : Except Issue (Option Command)} : v.Takes e.value (w, r) →
      e.Ends (some v) (some w, r)

/-- A value entry ends in one of the ways listed. -/
theorem ends_step (e : Assignment) (o : Option (Variable φ)) : e.Ends o (e.step o) := by
  cases o with
  | none => exact .unknown
  | some v => exact .valued (v.takes_refresh e.value)

end Assignment

/-- Takes over all that a descriptor carries but its value. -/
def Variable.amended (v : Variable φ) (d : Descriptor) : Variable φ :=
  v.overwrite { d with value := none }

namespace Descriptor

/-- The unrendered variable that is to be rendered on a descriptor: a new one, or the one there is
with all that the descriptor carries. -/
inductive Readies (d : Descriptor) : Option (Variable φ) → Variable φ → Prop where
  | created {w : Variable φ} : Variable.create d = .ok w → d.Readies none w
  | overwritten {v : Variable φ} : v.field = none → d.Readies (some v) (v.overwrite d)

/-- How a descriptor ends. -/
inductive Ends (c : Catalog φ) (d : Descriptor) : Option (Variable φ) → Step φ → Prop where
  | incomplete : d.datatype = none → d.Ends c none (none, .error (.incomplete (.datatype d.handle)))
  /-- No field presents the datatype. -/
  | unclaimed {o : Option (Variable φ)} {w : Variable φ} : d.Readies o w →
      c.make? w.datatype w.options = none → d.Ends c o (some w, .error (.noField w.datatype))
  | rendered {o : Option (Variable φ)} {w : Variable φ} {f : Field φ} : d.Readies o w →
      c.make? w.datatype w.options = some f →
      d.Ends c o
        (some { w with field := some (Variable.showing f w.value) },
          .ok (some (.render (w.view (Variable.showing f w.value)))))
  | retyped {v : Variable φ} {t : Datatype} : v.rendered = true → v.conflict? d = some t →
      d.Ends c (some v) (some v, .error (.retyped v.handle v.datatype t))
  /-- There is no value to show, neither a new one nor an old one. -/
  | silent {v : Variable φ} : v.rendered = true → v.conflict? d = none → d.value.or v.value = none →
      d.Ends c (some v) (some (v.amended d), .ok none)
  | valued {v w : Variable φ} {x : Json} {r : Except Issue (Option Command)} : v.rendered = true →
      v.conflict? d = none → d.value.or v.value = some x → (v.amended d).Takes x (w, r) →
      d.Ends c (some v) (some w, r)

/-- A first rendering succeeds if a field presents the datatype. -/
theorem Readies.ends_reveal {c : Catalog φ} {d : Descriptor} {o : Option (Variable φ)}
    {w : Variable φ} (hw : d.Readies o w) : d.Ends c o ((w.reveal c).map some id) := by
  cases hm : c.make? w.datatype w.options with
  | none =>
    have hr : w.reveal c = (w, .error (.noField w.datatype)) := by
      simp only [Variable.reveal, Variable.render, hm]
    rw [hr]
    exact .unclaimed hw hm
  | some f =>
    have hr : w.reveal c = ({ w with field := some (Variable.showing f w.value) },
        .ok (some (.render (w.view (Variable.showing f w.value))))) := by
      simp only [Variable.reveal, Variable.render, hm]
    rw [hr]
    exact .rendered hw hm

theorem ends_amend (c : Catalog φ) (d : Descriptor) {v : Variable φ} (hv : v.rendered = true) :
    d.Ends c (some v) ((v.amend d).map some id) := by
  cases hc : v.conflict? d with
  | some t =>
    have ha : v.amend d = (v, .error (.retyped v.handle v.datatype t)) := by
      simp only [Variable.amend, Variable.absorb,
        show v.conflict? { d with value := none } = some t from hc]
    rw [ha]
    exact .retyped hv hc
  | none =>
    have habsorb : v.absorb { d with value := none } = .ok (v.amended d) := by
      simp only [Variable.absorb, show v.conflict? { d with value := none } = none from hc]
      rfl
    -- what is held back leaves the value that is stored
    have hvalue : (v.amended d).value = v.value := rfl
    cases hx : d.value.or v.value with
    | none =>
      have ha : v.amend d = (v.amended d, .ok none) := by
        simp only [Variable.amend, habsorb, hvalue, hx]
      rw [ha]
      exact .silent hv hc hx
    | some x =>
      have ha : v.amend d = (v.amended d).refresh x := by
        simp only [Variable.amend, habsorb, hvalue, hx]
      rw [ha]
      exact .valued hv hc hx ((v.amended d).takes_refresh x)

/-- A descriptor ends in one of the ways listed. -/
theorem ends_step (c : Catalog φ) (d : Descriptor) (o : Option (Variable φ)) :
    d.Ends c o (d.step c o) := by
  cases o with
  | none =>
    cases hc : Variable.create (φ := φ) d with
    | error e =>
      cases hd : d.datatype with
      | some t => simp [Variable.create, hd] at hc
      | none =>
        have hstep : d.step c (none : Option (Variable φ)) =
            (none, .error (.incomplete (.datatype d.handle))) := by
          simp only [step, Variable.create, hd]
        rw [hstep]
        exact .incomplete hd
    | ok w =>
      have hstep : d.step c none = (w.reveal c).map some id := by simp only [step, hc]
      rw [hstep]
      exact (Readies.created hc).ends_reveal
  | some v =>
    cases hv : v.rendered with
    | true =>
      have hstep : d.step c (some v) = (v.amend d).map some id := by simp only [step, hv, if_true]
      rw [hstep]
      exact d.ends_amend c hv
    | false =>
      have hfield : v.field = none := by simpa [Variable.rendered] using hv
      have hstep : d.step c (some v) = ((v.overwrite d).reveal c).map some id := by
        simp only [step, hv, Bool.false_eq_true, if_false]
        rfl
      rw [hstep]
      exact (Readies.overwritten hfield).ends_reveal

end Descriptor

namespace Store

/-- What is left of a field, and told, when the value from the server is shown again. -/
inductive Restores (f : Field φ) : Option Json → Field φ → Option String → Prop where
  | nothing : Restores f none f none
  | shown {f' : Field φ} {x : Json} : FieldKind.present f x = (f', .ok ()) →
      Restores f (some x) f' (some (FieldKind.text f'))
  | refused {f' : Field φ} {x : Json} {e : FieldFault} : FieldKind.present f x = (f', .error e) →
      Restores f (some x) f' none

/-- How an edit of the variable of one handle ends. -/
inductive EditEnds (h : Handle) (text : String) :
    Option (Variable φ) → Option (Variable φ) × Except Refusal Update → Prop where
  | unknown : EditEnds h text none (none, .error ⟨.noVariable h, none⟩)
  | unrendered {v : Variable φ} : v.field = none →
      EditEnds h text (some v) (some v, .error ⟨.noField v.datatype, none⟩)
  | accepted {v : Variable φ} {f : Field φ} {x : Json} : v.field = some f →
      FieldKind.value (FieldKind.enter f text) = .ok x →
      EditEnds h text (some v)
        (some { v with field := some (FieldKind.enter f text) }, .ok ⟨v.handle, x⟩)
  | refused {v : Variable φ} {f g : Field φ} {e : FieldFault} {told : Option String} :
      v.field = some f → FieldKind.value (FieldKind.enter f text) = .error e →
      Restores (FieldKind.enter f text) v.value g told →
      EditEnds h text (some v)
        (some { v with field := some g }, .error ⟨.field v.handle e, told.map (.show h)⟩)

theorem restores_revert {v : Variable φ} {f : Field φ} (hf : v.field = some f) :
    ∃ g told, Restores f v.value g told ∧ v.revert = ({ v with field := some g }, told) := by
  obtain ⟨handle, name, datatype, description, options, value, field⟩ := v
  change field = some f at hf
  subst hf
  cases value with
  | none => exact ⟨f, none, .nothing, rfl⟩
  | some x =>
    rcases hp : FieldKind.present f x with ⟨g, e | _⟩
    · exact ⟨g, none, .refused hp, by simp only [Variable.revert, hp]⟩
    · exact ⟨g, some (FieldKind.text g), .shown hp, by simp only [Variable.revert, hp]⟩

/-- An edit of a variable without a field does nothing. -/
theorem editStep_unrendered (h : Handle) (text : String) {v : Variable φ} (hf : v.field = none) :
    editStep h text (some v) = (some v, .error ⟨.noField v.datatype, none⟩) := by
  obtain ⟨handle, name, datatype, description, options, value, field⟩ := v
  change field = none at hf
  subst hf
  cases value <;> rfl

theorem ends_editStep (h : Handle) (text : String) (o : Option (Variable φ)) :
    EditEnds h text o (editStep h text o) := by
  cases o with
  | none => exact .unknown
  | some v =>
    cases hf : v.field with
    | none =>
      rw [editStep_unrendered h text hf]
      exact .unrendered hf
    | some f =>
      cases hx : FieldKind.value (FieldKind.enter f text) with
      | ok x =>
        have hstep : editStep h text (some v) =
            (some { v with field := some (FieldKind.enter f text) }, .ok ⟨v.handle, x⟩) := by
          simp only [editStep, Variable.commit, Variable.update?, hf, Option.map_some, hx]
        rw [hstep]
        exact .accepted hf hx
      | error e =>
        obtain ⟨g, told, hg, hrevert⟩ :=
          restores_revert (v := { v with field := some (FieldKind.enter f text) }) rfl
        have hstep : editStep h text (some v) =
            (some { v with field := some g }, .error ⟨.field v.handle e, told.map (.show h)⟩) := by
          simp only [editStep, Variable.commit, Variable.update?, hf, Option.map_some, hx, hrevert]
        rw [hstep]
        exact .refused hf hx hg

end Store
end LivePanel
