import LivePanel.Proofs.Session.Rendering
import LivePanel.Proofs.Wire.HandleKey
import LivePanel.Window.Basic

/-!
# Variables by their keys

A window knows a variable by the key of its row, and an edit comes with that key. Whatever a store was
sent, a key finds the variable whose handle it spells, if there is one, and the key of a row finds the
variable that was rendered in it. Main statements: `resolves_foldl_arrive` and `keys_identify`.
-/
namespace LivePanel

/-- How handles are written as keys, and read from keys. -/
structure Handle.WellKeyed : Prop where
  read : ∀ h : Handle, ofKey? h.key = some h
  injective : Function.Injective key
  /-- No number has the key of a text. -/
  apart : ∀ n t, (number n).key ≠ (text t).key
  spelled : ∀ k h, ofKey? k = some h ↔ Spells k h
  refused : ∀ k, ofKey? k = none ↔ ∀ h, ¬ Spells k h
  /-- A text has no key but its own. -/
  verbatim : ∀ k t, ofKey? k = some (text t) → (text t).key = k

theorem Handle.wellKeyed : WellKeyed where
  read := ofKey?_key
  injective _ _ := key_injective
  apart n t he := by cases key_injective he
  spelled _ _ := ofKey?_eq_some_iff
  refused k := by simp only [Option.eq_none_iff_forall_ne_some, ne_eq, ofKey?_eq_some_iff]
  verbatim k t hk := (ofKey?_eq_some_iff.1 hk).eq_key.symm

namespace Store

variable {φ : Type}

/-- How a store finds its variables by keys, some of which it has told of. -/
structure Resolves (s : Store φ) (told : List Command) : Prop where
  /-- A key finds the handle that it spells, and only if that is stored. -/
  stored : ∀ k h, s.resolve? k = some h ↔ Handle.Spells k h ∧ s.contains h = true
  /-- A variable is found by its own key. -/
  own : ∀ h v, s.find? h = some v → v.handle = h ∧ s.resolve? v.handle.key = some h
  /-- The key of a row that was made for a variable finds this variable, which is rendered. -/
  attached : ∀ view, .render view ∈ told →
    s.resolve? (Row.ofView view).key = some view.handle ∧
      ∃ v, s.find? view.handle = some v ∧ v.rendered = true ∧ v.handle = view.handle

theorem resolve?_key {s : Store φ} {h : Handle} (hc : s.contains h = true) :
    s.resolve? h.key = some h :=
  (s.resolve?_eq_some_iff h.key h).2 ⟨h.ofKey?_key, hc⟩

variable [FieldKind φ]

/-- Whatever arrives at an empty store, its variables can be found. -/
theorem resolves_foldl_arrive (as : List (Arrival φ)) :
    (as.foldl arrive empty).Resolves (empty.replies as) := by
  have hkeyed : (as.foldl arrive (empty : Store φ)).Keyed := keyed_empty.foldl_arrive as
  constructor
  case stored =>
    intro k h
    rw [resolve?_eq_some_iff, Handle.ofKey?_eq_some_iff]
  case own =>
    intro h v hv
    have hhandle : v.handle = h := hkeyed h v hv
    have hstored : (as.foldl arrive empty).contains h = true := by rw [contains_eq, hv]; rfl
    exact ⟨hhandle, hhandle ▸ resolve?_key (hhandle ▸ hstored)⟩
  case attached =>
    intro view hview
    -- what was rendered once is rendered in the end
    have hrendered := (orderly_replies keyed_empty as view.handle).exists_render_iff.1
      ⟨view, hview, rfl⟩
    obtain ⟨v, hv, hr⟩ := (renders_iff _ _).1 hrendered
    have hstored : (as.foldl arrive empty).contains view.handle = true := by
      rw [contains_eq, hv]
      rfl
    exact ⟨resolve?_key hstored, v, hv, hr, hkeyed _ v hv⟩

end Store

/-- Keys identify handles, and so variables. Every handle is read from its key, and nothing is read
that does not spell one; whatever deliveries a store has had, and whatever a session has taken, a key
finds a stored variable or nothing, and the key of a rendered variable finds that variable. -/
theorem keys_identify {φ : Type} [FieldKind φ] :
    Handle.WellKeyed ∧
      (∀ ds : List (Delivery φ), (ds.foldl Store.deliver .empty).Resolves
        (Store.empty.replies (ds.flatMap Delivery.arrivals))) ∧
      ∀ (c : Catalog φ) (url : String) (inputs : List (Input φ)),
        ((Session.new c url).play inputs).1.store.Resolves
          (commands ((Session.new c url).play inputs).2) := by
  refine ⟨Handle.wellKeyed, fun ds => ?_, fun c url inputs => ?_⟩
  · rw [Store.foldl_deliver]
    exact Store.resolves_foldl_arrive _
  · have hresolves := Store.resolves_foldl_arrive ((Session.new c url).allArrivals inputs)
    rw [Session.store_play]
    refine { hresolves with attached := fun view hview => hresolves.attached view ?_ }
    have hpresented : .render view ∈
        (commands ((Session.new c url).play inputs).2).filter (·.presents?.isSome) :=
      List.mem_filter.2 ⟨hview, rfl⟩
    rw [Session.presented_play] at hpresented
    exact hpresented

end LivePanel
