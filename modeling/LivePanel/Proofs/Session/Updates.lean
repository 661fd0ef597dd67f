import LivePanel.Proofs.Session.Rendering
import LivePanel.Proofs.Store.Record

/-!
# Updates

An update goes out for nothing but an edit that the session accepts: the key names a rendered
variable, its field reads the text, and there is a connection. Each such edit sends one update and
nothing else. Main statement: `updates_answer_edits`.
-/
namespace LivePanel

def Command.sent? : Command → Option Update
  | .send u => some u
  | .dial _ | .render _ | .show .. | .status _ => none

/-- The updates that some commands send, in order. -/
def updates (cs : List Command) : List Update := cs.filterMap Command.sent?

@[simp] theorem updates_append (cs ds : List Command) :
    updates (cs ++ ds) = updates cs ++ updates ds := List.filterMap_append

theorem mem_updates_iff {cs : List Command} {u : Update} : u ∈ updates cs ↔ .send u ∈ cs := by
  rw [updates, List.mem_filterMap]
  constructor
  · rintro ⟨c, hc, hu⟩
    cases c <;> simp_all [Command.sent?]
  · intro hu
    exact ⟨.send u, hu, rfl⟩

theorem updates_of_presents {cs : List Command} (h : ∀ c ∈ cs, c.presents?.isSome = true) :
    updates cs = [] := by
  rw [updates, List.filterMap_eq_nil_iff]
  intro c hc
  have hp := h c hc
  cases c <;> first | rfl | cases hp

variable {φ : Type} [FieldKind φ]

namespace Store

/-- The update that an edit stands for, if its key names a rendered variable whose field reads the
text. -/
def update? (s : Store φ) (key text : String) : Option Update :=
  (Handle.ofKey? key).bind fun h =>
    ((s.find? h).bind Variable.field).bind fun f =>
      (FieldKind.value (FieldKind.enter f text)).toOption.map (Update.mk h)

theorem update?_eq_some_iff {s : Store φ} {key text : String} {u : Update} :
    s.update? key text = some u ↔
      ∃ v f, Handle.ofKey? key = some u.handle ∧ s.find? u.handle = some v ∧ v.field = some f ∧
        FieldKind.value (FieldKind.enter f text) = .ok u.value := by
  constructor
  · intro hu
    obtain ⟨h, hk, hu⟩ := Option.bind_eq_some_iff.1 hu
    obtain ⟨f, hf, hu⟩ := Option.bind_eq_some_iff.1 hu
    obtain ⟨v, hv, hf⟩ := Option.bind_eq_some_iff.1 hf
    obtain ⟨x, hx, rfl⟩ := Option.map_eq_some_iff.1 hu
    cases hr : FieldKind.value (FieldKind.enter f text) with
    | error e => simp [hr, Except.toOption] at hx
    | ok y =>
      obtain rfl : y = x := by simpa [hr, Except.toOption] using hx
      exact ⟨v, f, hk, hv, hf, hr⟩
  · rintro ⟨v, f, hk, hv, hf, hx⟩
    simp [update?, hk, hv, hf, hx, Except.toOption]

theorem EditEnds.toOption_eq {h : Handle} {text : String} {o o' : Option (Variable φ)}
    {r : Except Refusal Update} (he : EditEnds h text o (o', r)) (ho : ∀ v ∈ o, v.handle = h) :
    r.toOption = (o.bind Variable.field).bind fun f =>
      (FieldKind.value (FieldKind.enter f text)).toOption.map (Update.mk h) := by
  cases he with
  | unknown => rfl
  | unrendered hf => simp [hf, Except.toOption]
  | accepted hf hx => simp [hf, hx, Except.toOption, ho _ rfl]
  | refused hf hx => simp [hf, hx, Except.toOption]

theorem toOption_edit {s : Store φ} (hs : s.Keyed) (key text : String) :
    (s.edit key text).2.toOption = s.update? key text := by
  cases hk : Handle.ofKey? key with
  | none =>
    rw [edit_of_no_key s hk, update?, hk]
    rfl
  | some h =>
    rw [edit_of_key s hk, update?, hk]
    exact (ends_editStep h text (s.find? h)).toOption_eq (hs h)

/-- The field of an accepted edit is left with the text as it was typed. -/
theorem find?_edit_of_update? {s : Store φ} {key text : String} {u : Update} {v : Variable φ}
    {f : Field φ} (hk : Handle.ofKey? key = some u.handle) (hv : s.find? u.handle = some v)
    (hf : v.field = some f) (hx : FieldKind.value (FieldKind.enter f text) = .ok u.value) :
    (s.edit key text).1.find? u.handle =
      some { v with field := some (FieldKind.enter f text) } := by
  rw [find?_edit, if_pos hk, hv]
  simp only [editStep, Variable.commit, Variable.update?, hf, Option.map_some, hx]

end Store

namespace Session

/-- The update that an input has to send: that of an edit, while there is a connection. -/
def accepted? (s : Session φ) : Input φ → Option Update
  | .event (.edit key text) =>
    if s.link.status = .connected then s.store.update? key text else none
  | _ => none

omit [FieldKind φ] in
theorem updates_settle (s : Session φ) (news : Link × Option Status) :
    updates (s.settle news).2 = [] := by
  obtain ⟨link, _ | status⟩ := news <;> rfl

omit [FieldKind φ] in
theorem updates_dial (s : Session φ) : updates s.dial.2 = [] := by
  unfold dial
  split <;> rfl

/-- An input is an accepted edit, answered with its update alone, or it sends nothing. -/
theorem take_cases {s : Session φ} (hs : s.store.Keyed) (i : Input φ) :
    (∃ u, s.accepted? i = some u ∧ (s.take i).2 = [.send u]) ∨
      (s.accepted? i = none ∧ updates (s.take i).2 = []) := by
  cases i with
  | register ds m => exact .inr ⟨rfl, rfl⟩
  | installNumeric => exact .inr ⟨rfl, rfl⟩
  | event e =>
    cases e with
    | shutdown => exact .inr ⟨rfl, rfl⟩
    | reconnect => exact .inr ⟨rfl, s.updates_dial⟩
    | edit key text =>
      have hupdate := Store.toOption_edit hs key text
      have hundone := updates_of_presents (s.store.presents_undone key text)
      simp only [accepted?, take, step]
      obtain ⟨refusal, hr, he⟩ | ⟨u, hr, hoff, he⟩ | ⟨u, hr, hon, he⟩ := s.edit_cases key text <;>
        rw [hr] at hupdate hundone <;> rw [he, ← hupdate]
      · -- what takes the edit back shows a text, so it is no update
        exact .inr ⟨ite_self none, hundone⟩
      · exact .inr ⟨if_neg hoff, rfl⟩
      · exact .inl ⟨u, if_pos hon, rfl⟩
    | transport generation report =>
      refine .inr ⟨rfl, ?_⟩
      cases report with
      | opened | closed | errored reason => exact s.updates_settle _
      | message payload =>
        simp only [take, step, Session.report]
        split
        · exact updates_of_presents (s.presents_receive payload)
        · rfl

theorem updates_take {s : Session φ} (hs : s.store.Keyed) (i : Input φ) :
    updates (s.take i).2 = (s.accepted? i).toList := by
  obtain ⟨u, hu, hcs⟩ | ⟨hnone, hcs⟩ := take_cases hs i
  · rw [hu, hcs]
    rfl
  · rw [hnone, hcs]
    rfl

/-- The updates that some inputs have to send, in order. -/
def accepted (s : Session φ) : List (Input φ) → List Update
  | [] => []
  | i :: is => (s.accepted? i).toList ++ (s.take i).1.accepted is

/-- A run sends one update for each edit that it accepts, in their order. -/
theorem updates_play {s : Session φ} (hs : s.store.Keyed) (is : List (Input φ)) :
    updates (commands (s.play is).2) = s.accepted is := by
  induction is generalizing s with
  | nil => rfl
  | cons i is ih =>
    rw [commands_play_cons, updates_append, updates_take hs, ih (Keyed.take hs i), accepted]

theorem Keyed.play {s : Session φ} (hs : s.store.Keyed) (is : List (Input φ)) :
    (s.play is).1.store.Keyed := by
  rw [store_play]
  exact hs.foldl_arrive _

/-- How a session sends updates. -/
structure SendsEdits (s : Session φ) : Prop where
  /-- An update is sent for nothing but an edit of a rendered variable whose field reads the text,
  while there is a connection, and for every such edit. -/
  sent_iff : ∀ e u, .send u ∈ (s.step e).2 ↔ ∃ key text v f, e = .edit key text ∧
    s.link.status = .connected ∧ Handle.ofKey? key = some u.handle ∧
    s.store.find? u.handle = some v ∧ v.field = some f ∧
    FieldKind.value (FieldKind.enter f text) = .ok u.value
  alone : ∀ e u, .send u ∈ (s.step e).2 → (s.step e).2 = [.send u]
  /-- What is sent is what the field reads from the text that it is left with. -/
  held : ∀ key text u, .send u ∈ (s.step (.edit key text)).2 → ∃ v f,
    s.store.find? u.handle = some v ∧ v.field = some f ∧
    (s.step (.edit key text)).1.store.find? u.handle =
      some { v with field := some (FieldKind.enter f text) } ∧
    FieldKind.value (FieldKind.enter f text) = .ok u.value ∧
    (f.Literal → FieldKind.text (FieldKind.enter f text) = text)
  /-- No edit, sent or not, changes what a variable is said to be, or its value. -/
  record : ∀ key text h, ((s.step (.edit key text)).1.store.find? h).map Variable.record =
    (s.store.find? h).map Variable.record
  others : ∀ key text h, Handle.ofKey? key ≠ some h →
    (s.step (.edit key text)).1.store.find? h = s.store.find? h

theorem sendsEdits {s : Session φ} (hs : s.store.Keyed) : s.SendsEdits := by
  have hsent : ∀ e u, .send u ∈ (s.step e).2 → s.accepted? (.event e) = some u := by
    intro e u hu
    have hmem : u ∈ updates (s.take (.event e)).2 := mem_updates_iff.2 hu
    rw [updates_take hs] at hmem
    exact Option.mem_toList.1 hmem
  have haccepted : ∀ e u, s.accepted? (.event e) = some u → (s.step e).2 = [.send u] := by
    intro e u hu
    obtain ⟨w, hw, hcs⟩ | ⟨hnone, -⟩ := take_cases hs (.event e)
    · obtain rfl : w = u := Option.some.inj (hw.symm.trans hu)
      exact hcs
    · rw [hnone] at hu
      cases hu
  have hfind : ∀ e u, s.accepted? (.event e) = some u → ∃ key text v f, e = .edit key text ∧
      s.link.status = .connected ∧ Handle.ofKey? key = some u.handle ∧
      s.store.find? u.handle = some v ∧ v.field = some f ∧
      FieldKind.value (FieldKind.enter f text) = .ok u.value := by
    intro e u hu
    cases e with
    | edit key text =>
      simp only [accepted?, Option.ite_none_right_eq_some] at hu
      obtain ⟨v, f, hread⟩ := Store.update?_eq_some_iff.1 hu.2
      exact ⟨key, text, v, f, rfl, hu.1, hread⟩
    | transport | reconnect | shutdown => cases hu
  constructor
  case sent_iff =>
    intro e u
    constructor
    · exact fun hu => hfind e u (hsent e u hu)
    · rintro ⟨key, text, v, f, rfl, hon, hread⟩
      have hu : s.accepted? (.event (.edit key text)) = some u := by
        rw [accepted?, if_pos hon]
        exact Store.update?_eq_some_iff.2 ⟨v, f, hread⟩
      rw [haccepted _ u hu]
      exact List.mem_singleton_self _
  case alone => exact fun e u hu => haccepted e u (hsent e u hu)
  case held =>
    intro key text u hu
    obtain ⟨key', text', v, f, he, -, hk, hv, hf, hx⟩ := hfind _ u (hsent _ u hu)
    cases he
    refine ⟨v, f, hv, hf, ?_, hx, fun hl => hl.text_enter text⟩
    rw [step, store_edit]
    exact Store.find?_edit_of_update? hk hv hf hx
  case record =>
    intro key text h
    rw [step, store_edit, Store.find?_edit]
    split
    · exact Variable.record_editStep h text _
    · rfl
  case others =>
    intro key text h hk
    rw [step, store_edit, Store.find?_edit, if_neg hk]

end Session

/-- Only genuine edits produce updates. Whatever a session has been through, it answers an edit of a
rendered variable with the one update that the field reads, as long as there is a connection, and
nothing else with an update. So the updates of a run are those of its accepted edits, in order. -/
theorem updates_answer_edits {φ : Type} [FieldKind φ] (c : Catalog φ) (url : String)
    (inputs : List (Input φ)) :
    ((Session.new c url).play inputs).1.SendsEdits ∧
      updates (commands ((Session.new c url).play inputs).2) =
        (Session.new c url).accepted inputs := by
  have hkeyed : (Session.new c url).store.Keyed := Store.keyed_empty
  exact ⟨Session.sendsEdits (Session.Keyed.play hkeyed inputs), Session.updates_play hkeyed inputs⟩

/-- Of three edits one comes before there is a connection, and one is no number. -/
example :
    (updates (commands ((Session.new (Catalog.withNumeric : Catalog Empty) "ws://h").play
      [.event .reconnect,
        .event (.transport 1 (.message "\x7b\"type\":\"hello\",\"vars\":[[1,null,\"int\"]]\x7d")),
        .event (.edit "n:1" "2"), .event (.transport 1 .opened), .event (.edit "n:1" "3"),
        .event (.edit "n:1" "x")]).2)).map Update.text =
      ["\x7b\"type\":\"update\",\"handle\":1,\"value\":3\x7d"] := by
  decide +kernel

end LivePanel
