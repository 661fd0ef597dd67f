import LivePanel.Proofs.Screen.Basic
import LivePanel.Proofs.Store.Arrivals

/-!
# What a store shows

The screen of a store holds the text of every field in it. An entry moves the screen exactly as its
command tells, and one without a command leaves it alone, as long as a field that refuses a value
keeps its text. Main statements: `run_batch` and `run_edit`.
-/
namespace LivePanel

open Screen (Run)

variable {φ : Type} [FieldKind φ]

/-- A field that refuses a value keeps its text. -/
def Steady (φ : Type) [FieldKind φ] : Prop :=
  ∀ (f : φ) (x : Json) (e : FieldFault), (FieldKind.present f x).2 = .error e →
    FieldKind.text (FieldKind.present f x).1 = FieldKind.text f

/-- The built-in field is steady by itself. -/
theorem Steady.field (steady : Steady φ) : Steady (Field φ) := by
  intro f x e he
  cases f with
  | numeric f =>
    change (f.present x).2 = .error e at he
    change (f.present x).1.text = f.text
    unfold NumberField.present at he ⊢
    cases hv : NumberField.valueText f.datatype x with
    | ok text => rw [hv] at he; cases he
    | error e => rfl
  | custom f => exact steady f x e he

def Variable.text? (v : Variable φ) : Option String := v.field.map FieldKind.text

/-- The text of each variable's field. -/
def Store.screen (s : Store φ) : Screen := fun h => (s.find? h).bind Variable.text?

/-- A variable has a text if and only if it is rendered. -/
theorem Store.isSome_screen (s : Store φ) (h : Handle) :
    (s.screen h).isSome = true ↔ ∃ v, s.find? h = some v ∧ v.rendered = true := by
  cases hv : s.find? h <;> simp [screen, hv, Variable.text?, Variable.rendered]

theorem Store.field_of_screen (s : Store φ) {h : Handle} {text : String}
    (ht : s.screen h = some text) :
    ∃ v f, s.find? h = some v ∧ v.field = some f ∧ text = FieldKind.text f := by
  obtain ⟨v, hv, hvtext⟩ := Option.bind_eq_some_iff.1 ht
  obtain ⟨f, hf, htext⟩ := Option.map_eq_some_iff.1 hvtext
  exact ⟨v, f, hv, hf, htext.symm⟩

/-- The commands of one outcome. -/
def Outcomes.told : Except Issue (Option Command) → List Command
  | .ok c => c.toList
  | .error _ => []

theorem Outcomes.commands_cons (o : Except Issue (Option Command)) (os : Outcomes) :
    Outcomes.commands (o :: os) = told o ++ Outcomes.commands os := by
  rcases o with _ | _ | c <;> rfl

/-- How the text of one variable goes with the commands given for it. -/
inductive Tells (h : Handle) : Option String → List Command → Option String → Prop where
  | rendering (view : View) : view.handle = h → Tells h none [.render view] (some view.text)
  | showing (old text : String) : Tells h (some old) [.show h text] (some text)
  | silent (t : Option String) : Tells h t [] t

theorem Tells.run {t : Screen} {h : Handle} {cs : List Command} {u : Option String}
    (ht : Tells h (t h) cs u) : Run t (cs.map .command) (t.put h u) := by
  generalize hx : t h = x at ht
  cases ht with
  | rendering view hv =>
    subst hv
    exact .single (.rendering view hx)
  | showing old text => exact .single (.showing h text (by rw [hx]; rfl))
  | silent =>
    rw [← hx, Screen.put_self]
    exact .nil

namespace Variable

/-- A value shows a new text if the field accepts it; else the old text stays. -/
theorem tells_refresh (steady : Steady φ) (v : Variable φ) (x : Json) :
    Tells v.handle v.text? (Outcomes.told (v.refresh x).2) (v.refresh x).1.text? := by
  cases hf : v.field with
  | none =>
    simp only [refresh, accept, hf, text?, Option.map_none]
    exact .silent none
  | some f =>
    rcases hp : FieldKind.present f x with ⟨f', e | _⟩
    · have hkept := steady.field f x e (by rw [hp])
      rw [hp] at hkept
      simp only [refresh, accept, hf, hp, text?, Option.map_some, hkept]
      exact .silent _
    · simp only [refresh, accept, hf, hp, text?, Option.map_some]
      exact .showing (FieldKind.text f) (FieldKind.text f')

/-- A first rendering tells the text the field begins with. -/
theorem tells_reveal (c : Catalog φ) (v : Variable φ) (hv : v.field = none) :
    Tells v.handle none (Outcomes.told (v.reveal c).2) (v.reveal c).1.text? := by
  unfold reveal render
  cases c.make? v.datatype v.options with
  | none =>
    simp only [text?, hv, Option.map_none]
    exact .silent none
  | some f =>
    simp only [text?, Option.map_some]
    exact .rendering (v.view (showing f v.value)) rfl

theorem tells_amend (steady : Steady φ) (v : Variable φ) (d : Descriptor) :
    Tells v.handle v.text? (Outcomes.told (v.amend d).2) (v.amend d).1.text? := by
  simp only [amend, absorb]
  cases v.conflict? { d with value := none } with
  | some t => exact .silent _
  | none =>
    simp only
    split
    · exact tells_refresh steady (v.overwrite { d with value := none }) _
    · exact .silent _

end Variable

/-- A descriptor changes the text of its variable as its command tells. -/
theorem Descriptor.tells_step (steady : Steady φ) (d : Descriptor) (c : Catalog φ)
    {o : Option (Variable φ)} (ho : ∀ v ∈ o, v.handle = d.handle) :
    Tells d.handle (o.bind Variable.text?) (Outcomes.told (d.step c o).2)
      ((d.step c o).1.bind Variable.text?) := by
  cases o with
  | none =>
    simp only [step]
    cases hc : Variable.create (φ := φ) d with
    | error e => exact .silent none
    | ok v =>
      have hfield : v.field = none := by
        unfold Variable.create at hc
        split at hc <;> cases hc
        rfl
      rw [← Variable.handle_create hc]
      exact v.tells_reveal c hfield
  | some v =>
    simp only [step, Option.bind_some, Prod.map_fst, Prod.map_snd, id, ← ho v rfl]
    cases hv : v.rendered with
    | true => exact v.tells_amend steady d
    | false =>
      have hfield : v.field = none := by simpa [Variable.rendered] using hv
      have htext : v.text? = none := by rw [Variable.text?, hfield]; rfl
      rw [htext]
      exact (v.overwrite d).tells_reveal c hfield

theorem Assignment.tells_step (steady : Steady φ) (e : Assignment) {o : Option (Variable φ)}
    (ho : ∀ v ∈ o, v.handle = e.handle) :
    Tells e.handle (o.bind Variable.text?) (Outcomes.told (e.step o).2)
      ((e.step o).1.bind Variable.text?) := by
  cases o with
  | none => exact .silent none
  | some v =>
    simp only [step, Option.bind_some, Prod.map_fst, Prod.map_snd, id, ← ho v rfl]
    exact v.tells_refresh steady e.value

namespace Store

theorem screen_alter {α : Type} (s : Store φ) (h : Handle)
    (f : Option (Variable φ) → Option (Variable φ) × α) :
    (s.alter h f).1.screen =
      s.screen.put h (((f (s.find? h)).1.or (s.find? h)).bind Variable.text?) := by
  funext k
  by_cases hk : k = h
  · subst hk
    rw [Screen.put_same, screen, find?_alter_self]
  · rw [Screen.put_other _ hk, screen, find?_alter_of_ne s hk, screen]

/-- A `hello` entry moves the screen as its command tells. -/
theorem run_helloEntry (steady : Steady φ) (c : Catalog φ) {s : Store φ} (hs : s.Keyed)
    (entry : Json) :
    Run s.screen ((Outcomes.told (s.helloEntry c entry).2).map .command)
      (s.helloEntry c entry).1.screen := by
  unfold helloEntry
  cases Descriptor.ofJson entry with
  | error e => exact .nil
  | ok d =>
    simp only [screen_alter, alter_snd, Descriptor.step_or]
    exact Tells.run (d.tells_step steady c (hs d.handle))

theorem run_refreshEntry (steady : Steady φ) {s : Store φ} (hs : s.Keyed) (entry : Json) :
    Run s.screen ((Outcomes.told (s.refreshEntry entry).2).map .command)
      (s.refreshEntry entry).1.screen := by
  unfold refreshEntry
  cases Assignment.ofJson entry with
  | error e => exact .nil
  | ok e =>
    simp only [screen_alter, alter_snd, Assignment.step_or]
    exact Tells.run (e.tells_step steady (hs e.handle))

/-- A whole batch moves the screen as its commands tell, one entry after another. -/
theorem run_batch {take : Store φ → Json → Store φ × Except Issue (Option Command)}
    (keyed : ∀ s : Store φ, s.Keyed → ∀ entry, (take s entry).1.Keyed)
    (run : ∀ s : Store φ, s.Keyed → ∀ entry,
      Run s.screen ((Outcomes.told (take s entry).2).map .command) (take s entry).1.screen)
    (s : Store φ) (hs : s.Keyed) (entries : List Json) :
    Run s.screen ((Outcomes.commands (s.batch take entries).2).map .command)
      (s.batch take entries).1.screen := by
  induction entries generalizing s with
  | nil => exact .nil
  | cons e es ih =>
    simp only [batch, Outcomes.commands_cons, List.map_append]
    exact (run s hs e).trans (ih (take s e).1 (keyed s hs e))

theorem run_hello (steady : Steady φ) (c : Catalog φ) {s : Store φ} (hs : s.Keyed)
    (entries : List Json) :
    Run s.screen ((s.hello c entries).2.commands.map .command) (s.hello c entries).1.screen :=
  run_batch (fun _ hs e => hs.arrive (.hello c e)) (fun _ hs e => run_helloEntry steady c hs e) s hs
    entries

theorem run_refresh (steady : Steady φ) {s : Store φ} (hs : s.Keyed) (entries : List Json) :
    Run s.screen ((s.refresh entries).2.commands.map .command) (s.refresh entries).1.screen :=
  run_batch (fun _ hs e => hs.arrive (.refresh e)) (fun _ hs e => run_refreshEntry steady hs e) s hs
    entries

end Store

/-- The command that takes a refused edit back, if there is one. -/
def Store.undone : Except Store.Refusal Update → List Command
  | .ok _ => []
  | .error refusal => refusal.restore.toList

/-- The text shown when an edit is taken back, or else the text there was. -/
theorem Variable.tells_revert (steady : Steady φ) (h : Handle) (v : Variable φ) :
    Tells h v.text? (v.revert.2.map (.show h)).toList v.revert.1.text? := by
  unfold revert
  split
  · rename_i x f _ hf
    have htext : v.text? = some (FieldKind.text f) := by rw [text?, hf]; rfl
    rcases hp : FieldKind.present f x with ⟨f', e | _⟩
    · have hkept := steady.field f x e (by rw [hp])
      rw [hp] at hkept
      rw [htext, text?, Option.map_some, hkept]
      exact .silent _
    · rw [htext]
      exact .showing (FieldKind.text f) (FieldKind.text f')
  · exact .silent _

/-- An edit leaves some text, which a refusal may replace by the last value. -/
theorem Store.tells_editStep (steady : Steady φ) (h : Handle) (text : String) (v : Variable φ) :
    ∃ typed : Option String, typed.isSome = v.text?.isSome ∧
      Tells h typed (undone (editStep h text (some v)).2)
        ((editStep h text (some v)).1.bind Variable.text?) := by
  have htyped : (v.commit text).1.text?.isSome = v.text?.isSome := by
    simp [Variable.commit, Variable.text?]
  refine ⟨(v.commit text).1.text?, htyped, ?_⟩
  rcases hc : v.commit text with ⟨w, issue | u⟩
  · simp only [editStep, hc, undone, Option.bind_some]
    exact w.tells_revert steady h
  · simp only [editStep, hc, undone, Option.bind_some]
    exact .silent w.text?

/-- An edit that finds its variable marks it; the screen then moves as the restoring command tells. -/
theorem Store.run_edit (steady : Steady φ) (s : Store φ) (key text : String) :
    Run s.screen
      ((s.resolve? key).toList.map .edited ++ (undone (s.edit key text).2).map .command)
      (s.edit key text).1.screen := by
  cases hr : s.resolve? key with
  | none =>
    simp only [edit, hr]
    exact .nil
  | some h =>
    obtain ⟨v, hv⟩ := Option.isSome_iff_exists.1 ((s.resolve?_eq_some_iff key h).1 hr).2
    obtain ⟨typed, hsome, htells⟩ := tells_editStep steady h text v
    have hv' : s.find? h = some v := hv
    have hscreen : s.screen h = v.text? := by rw [screen, hv']; rfl
    have hedit : Run s.screen [.edited h] (s.screen.put h typed) :=
      .single (.editing h typed (by rw [hsome, hscreen]))
    have hback := Tells.run (t := s.screen.put h typed) (by rw [Screen.put_same]; exact htells)
    rw [Screen.put_put] at hback
    simp only [edit, hr, screen_alter, alter_snd, editStep_or, hv']
    exact hedit.trans hback

end LivePanel
