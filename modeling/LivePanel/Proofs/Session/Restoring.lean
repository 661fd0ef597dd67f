import LivePanel.Proofs.Field.Legible
import LivePanel.Proofs.Session.Updates
import LivePanel.Proofs.Store.Restoring

/-!
# Edits taken back in a session

An edit that a field cannot read is taken back to the text presented last if and only if the field
shows the stored value. Where there is no value, or one that the field refuses, what was typed stays.
Main statement: `edits_taken_back`.
-/
namespace LivePanel

variable {φ : Type} [FieldKind φ]

namespace Session

theorem texts_play (s : Session φ) (is : List (Input φ)) (h : Handle) :
    texts h (commands (s.play is).2) = texts h (s.store.replies (s.allArrivals is)) := by
  rw [← presented_play, texts_filter]
  intro c text ht
  have hp := Command.text?_eq_some_iff.1 ht
  rw [hp, Option.isSome_some]

/-- In a run from an empty store, the text to go back to is the one presented last. -/
theorem remembers_play (plain : Plain φ) {s : Session φ} (hs : s.store = .empty)
    (is : List (Input φ)) (h : Handle) :
    Remembers ((s.play is).1.store.find? h) (texts h (commands (s.play is).2)).getLast? := by
  have hkeyed : s.store.Keyed := by rw [hs]; exact Store.keyed_empty
  have hempty : Remembers (s.store.find? h) none := by
    intro text ht
    rw [hs] at ht
    cases ht
  have hend := Store.remembers_foldl_arrive plain hkeyed hempty (s.allArrivals is)
  rwa [Option.or_none, ← texts_play, ← store_play] at hend

/-- An edit for a rendered variable whose field cannot read the text. -/
structure Refuses (s : Session φ) (key text : String) (h : Handle) (v : Variable φ)
    (f : Field φ) : Prop where
  key : Handle.ofKey? key = some h
  stored : s.store.find? h = some v
  field : v.field = some f
  unread : ∃ e, FieldKind.value (FieldKind.enter f text) = .error e

/-- Whether an edit that comes after some commands is taken back: the text presented last is on the
field again, and is shown. -/
def TakenBack (s : Session φ) (cs : List Command) (key text : String) (h : Handle) : Prop :=
  ∃ last, (texts h cs).getLast? = some last ∧ (s.step (.edit key text)).2 = [.show h last] ∧
    (s.step (.edit key text)).1.store.screen h = some last

/-- Whether there is such an edit can be computed. -/
theorem exists_refuses {s : Session φ} {key text : String} {h : Handle}
    (hk : Handle.ofKey? key = some h)
    (hunread : ((s.store.find? h).bind Variable.field).any
      (fun f => !(FieldKind.value (FieldKind.enter f text)).isOk) = true) :
    ∃ v f, s.Refuses key text h v f := by
  obtain ⟨f, hfield, hvalue⟩ := (Option.any_eq_true _ _).1 hunread
  obtain ⟨v, hv, hf⟩ := Option.bind_eq_some_iff.1 hfield
  refine ⟨v, f, hk, hv, hf, ?_⟩
  cases hx : FieldKind.value (FieldKind.enter f text) with
  | error e => exact ⟨e, rfl⟩
  | ok x =>
    rw [hx] at hvalue
    cases hvalue

theorem Refuses.step (steady : Steady φ) (plain : Plain φ) {s : Session φ} {key text : String}
    {h : Handle} {v : Variable φ} {f : Field φ} (hr : s.Refuses key text h v f) :
    (s.step (.edit key text)).2 = (v.fallback?.map (.show h)).toList ∧
      (s.step (.edit key text)).1.store.screen h =
        some (v.fallback?.getD (FieldKind.text (FieldKind.enter f text))) := by
  obtain ⟨e, he⟩ := hr.unread
  have hends := s.store.ends_edit hr.key text
  rw [hr.stored] at hends
  obtain ⟨hresult, htext⟩ := hends.restores_of_refused steady plain hr.field he
  constructor
  · obtain ⟨refusal, hrefused, hedit⟩ | ⟨u, hok, -⟩ | ⟨u, hok, -⟩ := s.edit_cases key text
    · rw [hresult] at hrefused
      cases hrefused
      rw [Session.step, hedit, reject]
    · rw [hresult] at hok
      cases hok
    · rw [hresult] at hok
      cases hok
  · rw [Session.step, store_edit]
    exact htext

/-- The text that is shown then is the one of the stored value. -/
theorem Refuses.exists_shown (steady : Steady φ) (plain : Plain φ) {s : Session φ}
    {key text last : String} {h : Handle} {v : Variable φ} {f : Field φ}
    (hr : s.Refuses key text h v f) (htold : (s.step (.edit key text)).2 = [.show h last]) :
    ∃ x, v.value = some x ∧ shown? f x = some last := by
  rw [(hr.step steady plain).1] at htold
  have hfallback : v.fallback? = some last := by
    cases hv : v.fallback? with
    | none =>
      rw [hv] at htold
      cases htold
    | some shown =>
      rw [hv] at htold
      cases htold
      rfl
  rw [Variable.fallback?_eq hr.field] at hfallback
  exact Option.bind_eq_some_iff.1 hfallback

/-- A text that a legible field shows is none that it refuses. -/
theorem Refuses.ne_shown (legible : Legible φ) {s : Session φ} {key text last : String} {h : Handle}
    {v : Variable φ} {f : Field φ} (hr : s.Refuses key text h v f) {x : Json}
    (hx : shown? f x = some last) : last ≠ text := by
  rintro rfl
  obtain ⟨e, he⟩ := hr.unread
  obtain ⟨y, hy⟩ := legible.field f x last hx
  rw [hy] at he
  cases he

/-- How a session deals with edits that cannot be read, after a run. -/
structure TakesBack (s : Session φ) (inputs : List (Input φ)) : Prop where
  /-- An edit is taken back if and only if there is a value and the field shows it. -/
  taken_back_iff : ∀ key text h v f, (s.play inputs).1.Refuses key text h v f →
    ((s.play inputs).1.TakenBack (commands (s.play inputs).2) key text h ↔
      ∃ x last, v.value = some x ∧ shown? f x = some last)
  /-- What was typed is gone then, if the field reads what it shows. -/
  gone : Legible φ → ∀ key text h v f, (s.play inputs).1.Refuses key text h v f →
    (s.play inputs).1.TakenBack (commands (s.play inputs).2) key text h →
    ((s.play inputs).1.step (.edit key text)).1.store.screen h ≠ some text
  /-- Otherwise nothing is shown, and what was typed stays on the field. -/
  left : ∀ key text h v f, (s.play inputs).1.Refuses key text h v f →
    (∀ x, v.value = some x → shown? f x = none) →
    ((s.play inputs).1.step (.edit key text)).2 = [] ∧
      ((s.play inputs).1.step (.edit key text)).1.store.screen h =
        some (FieldKind.text (FieldKind.enter f text))

end Session

/-- An edit that cannot be read is taken back where the stored value can be shown. Whatever a session
has been through, such an edit puts the text presented last back on the field and shows it, and what was
typed is gone. -/
theorem edits_taken_back (steady : Steady φ) (plain : Plain φ) (c : Catalog φ) (url : String)
    (inputs : List (Input φ)) : (Session.new c url).TakesBack inputs := by
  have hremembers : ∀ h, Remembers (((Session.new c url).play inputs).1.store.find? h)
      (texts h (commands ((Session.new c url).play inputs).2)).getLast? :=
    Session.remembers_play plain rfl inputs
  constructor
  case taken_back_iff =>
    intro key text h v f hr
    obtain ⟨hcommands, hscreen⟩ := hr.step steady plain
    have hfallback := Variable.fallback?_eq hr.field
    constructor
    · rintro ⟨last, -, htold, -⟩
      obtain ⟨x, hx, hshown⟩ := hr.exists_shown steady plain htold
      exact ⟨x, last, hx, hshown⟩
    · rintro ⟨x, last, hx, hshown⟩
      rw [hx, Option.bind_some, hshown] at hfallback
      rw [hfallback] at hcommands hscreen
      refine ⟨last, hremembers h last ?_, hcommands, hscreen⟩
      rw [hr.stored]
      exact hfallback
  case gone =>
    intro legible key text h v f hr
    rintro ⟨last, -, htold, hscreen⟩ hsame
    obtain ⟨x, -, hshown⟩ := hr.exists_shown steady plain htold
    rw [hscreen] at hsame
    exact hr.ne_shown legible hshown (Option.some.inj hsame)
  case left =>
    intro key text h v f hr hnone
    obtain ⟨hcommands, hscreen⟩ := hr.step steady plain
    have hfallback : v.fallback? = none := by
      rw [Variable.fallback?_eq hr.field]
      exact Option.bind_eq_none_iff.2 hnone
    rw [hfallback] at hcommands hscreen
    exact ⟨hcommands, hscreen⟩

/-- A number that its user has set to another value. -/
def retuned : List (Input Label) :=
  [.event .reconnect, .event (.transport 1 .opened),
    .event (.transport 1 (.message
      "\x7b\"type\":\"hello\",\"vars\":[[1,null,\"int\",null,null,2]]\x7d")),
    .event (.edit "n:1" "7")]

/-- The text that it goes back to is not the last one typed but the last one presented. -/
theorem edits_taken_back_retuned :
    Steady Label ∧ Plain Label ∧ Legible Label ∧ (Session.new .withNumeric "ws://h").TakesBack retuned ∧
      ((Session.new .withNumeric "ws://h").play retuned).1.store.screen (.number 1) = some "7" ∧
      (texts (.number 1) (commands ((Session.new .withNumeric "ws://h").play retuned).2)).getLast? =
        some "2" ∧
      (((Session.new .withNumeric "ws://h").play retuned).1.step (.edit "n:1" "x")).2.map
        Command.presents? = [some (.number 1, "2")] :=
  ⟨steady_label, plain_label, legible_label,
    edits_taken_back steady_label plain_label .withNumeric "ws://h" retuned, by decide +kernel⟩

/-- A number that comes without a value. -/
def valueless : List (Input Empty) :=
  [.event .reconnect, .event (.transport 1 .opened),
    .event (.transport 1 (.message "\x7b\"type\":\"hello\",\"vars\":[[1,null,\"int\"]]\x7d"))]

/-- An edit that cannot be read is not taken back then, though the field was presented as empty. -/
theorem valueless_not_taken_back :
    (∃ v f, ((Session.new .withNumeric "ws://h").play valueless).1.Refuses "n:1" "x" (.number 1)
      v f) ∧
    (texts (.number 1) (commands ((Session.new .withNumeric "ws://h").play valueless).2)).getLast? =
      some "" ∧
    (((Session.new .withNumeric "ws://h").play valueless).1.step (.edit "n:1" "x")).1.store.screen
      (.number 1) = some "x" ∧
    ¬ ((Session.new .withNumeric "ws://h").play valueless).1.TakenBack
      (commands ((Session.new .withNumeric "ws://h").play valueless).2) "n:1" "x" (.number 1) := by
  have hkey : Handle.ofKey? "n:1" = some (.number 1) := by decide +kernel
  have hpresented : (texts (.number 1)
      (commands ((Session.new .withNumeric "ws://h").play valueless).2)).getLast? = some "" := by
    decide +kernel
  have hleft : (((Session.new .withNumeric "ws://h").play valueless).1.step
      (.edit "n:1" "x")).1.store.screen (.number 1) = some "x" := by decide +kernel
  refine ⟨Session.exists_refuses hkey (by decide +kernel), hpresented, hleft, ?_⟩
  rintro ⟨last, hlast, -, hscreen⟩
  rw [hpresented] at hlast
  cases hlast
  rw [hleft] at hscreen
  exact absurd hscreen (by decide)

/-- Nor is it where the first value was none that the field shows. -/
example :
    let s := ((Session.new (Catalog.withNumeric : Catalog Empty) "ws://h").play
      [.event .reconnect, .event (.transport 1 .opened),
        .event (.transport 1 (.message
          "\x7b\"type\":\"hello\",\"vars\":[[1,null,\"int\",null,null,\"loud\"]]\x7d"))]).1
    ((s.step (.edit "n:1" "x")).2.length, (s.step (.edit "n:1" "x")).1.store.screen (.number 1)) =
      (0, some "x") := by
  decide +kernel

end LivePanel
