import LivePanel.Proofs.Session.Updates
import LivePanel.Proofs.Store.Failures
import LivePanel.Proofs.Wire.Frames

/-!
# Frames

An update goes out as a frame of text. Whoever reads it finds the handle that the server gave the
variable, in the same JSON form, and the value that was sent, unless that is nested too deep to be
read at all. Main statement: `updates_reread`.
-/
namespace LivePanel

variable {φ : Type} [FieldKind φ]

/-- A descriptor that is answered with a rendering leaves its variable rendered. -/
theorem Descriptor.Ends.of_render {c : Catalog φ} {d : Descriptor} {o o' : Option (Variable φ)}
    {r : Except Issue (Option Command)} (he : d.Ends c o (o', r))
    (ho : ∀ v ∈ o, v.handle = d.handle) {view : View} (hr : .render view ∈ Outcomes.told r) :
    view.handle = d.handle ∧ ∃ v f, o' = some v ∧ v.field = some f := by
  have hhandle := he.handle?_told ho _ hr
  refine ⟨Option.some.inj hhandle, ?_⟩
  cases he with
  | rendered => exact ⟨_, _, rfl, rfl⟩
  | incomplete | unclaimed | retyped | silent => simp [Outcomes.told] at hr
  | valued _ _ _ ht =>
    cases ht with
    | kept | refused => simp [Outcomes.told] at hr
    | shown => simp [Outcomes.told] at hr

namespace Store

theorem exists_descriptor_of_render {s : Store φ} (hs : s.Keyed) {c : Catalog φ} {entry : Json}
    {view : View} (hr : .render view ∈ s.reply (.hello c entry)) :
    ∃ d, Descriptor.ofJson entry = .ok d ∧ view.handle = d.handle ∧
      ∃ v f, (s.arrive (.hello c entry)).find? view.handle = some v ∧ v.field = some f := by
  rw [reply] at hr
  cases hd : Descriptor.ofJson entry with
  | error e =>
    rw [helloEntry, hd] at hr
    simp [Outcomes.told] at hr
  | ok d =>
    obtain ⟨hhandle, v, f, hv, hf⟩ := (s.ends_hello c hd).of_render (hs d.handle) hr
    exact ⟨d, rfl, hhandle, v, f, hhandle ▸ hv, hf⟩

end Store

/-- The frame of an update with the handle `j`: an object of three members if the value is nested no
deeper than may be read, and a whole number or a text is what it was. -/
structure Update.Framed (u : Update) (j : Json) : Prop where
  reads : u.value.depth < Json.maxDepth → ∃ x, Json.ofText u.text =
    .ok (.object [("handle", j), ("type", .string "update"), ("value", x)]) ∧
    (∀ n, u.value = .number (.whole n) → x = u.value) ∧ (∀ t, u.value = .string t → x = u.value)
  deep : Json.maxDepth ≤ u.value.depth → Json.ofText u.text = .error .unexpected

theorem Update.framed (u : Update) : u.Framed u.handle.json := by
  constructor
  case reads =>
    intro h
    refine ⟨u.value.reread, u.ofText_text h, ?_, ?_⟩
    · intro n hn
      rw [hn, Json.reread_whole]
    · intro t ht
      rw [ht]
      rfl
  case deep => exact u.ofText_text_of_deep

/-- How a session sends what is chosen for a rendered variable whose entry had the handle `j`. -/
structure Session.Relays (s : Session φ) (view : View) (j : Json) : Prop where
  /-- An edit under the variable's key is sent if its field reads the text. -/
  sent : ∃ v f, s.store.find? view.handle = some v ∧ v.field = some f ∧
    ∀ text x, s.link.status = .connected → FieldKind.value (FieldKind.enter f text) = .ok x →
      (s.step (.edit view.handle.key text)).2 = [.send ⟨view.handle, x⟩]
  framed : ∀ e u, .send u ∈ (s.step e).2 → u.handle = view.handle →
    (∃ key text, e = .edit key text ∧ Handle.ofKey? key = some view.handle) ∧ u.Framed j

theorem Session.SendsEdits.relays {s : Session φ} (hs : s.SendsEdits) {view : View}
    {v : Variable φ} {f : Field φ} (hv : s.store.find? view.handle = some v)
    (hf : v.field = some f) : s.Relays view view.handle.json := by
  constructor
  case sent =>
    refine ⟨v, f, hv, hf, fun text x hon hx => ?_⟩
    refine hs.alone _ ⟨view.handle, x⟩ ((hs.sent_iff _ _).2 ?_)
    exact ⟨_, text, v, f, rfl, hon, view.handle.ofKey?_key, hv, hf, hx⟩
  case framed =>
    intro e u hu hhandle
    obtain ⟨key, text, -, -, he, -, hkey, -⟩ := (hs.sent_iff e u).1 hu
    exact ⟨⟨key, text, he, hhandle ▸ hkey⟩, hhandle ▸ u.framed⟩

/-- Handles and values survive the way to the server. Once a descriptor has been rendered, a session
sends what is chosen for it under its key, in frames with the handle as it stood in the entry. -/
theorem updates_reread (c : Catalog φ) (url : String) (inputs : List (Input φ))
    {before after : List (Arrival φ)} {c' : Catalog φ} {entry : Json} {view : View}
    (harrived : (Session.new c url).allArrivals inputs = before ++ .hello c' entry :: after)
    (hrendered : .render view ∈ (before.foldl Store.arrive .empty).reply (.hello c' entry)) :
    ∃ j, Entry.handle? entry = some j ∧
      ((Session.new c url).play inputs).1.Relays view j := by
  have hkeyed : (Session.new c url).store.Keyed := Store.keyed_empty
  obtain ⟨d, hd, hhandle, v, f, hv, hf⟩ := Store.exists_descriptor_of_render
    (Store.Keyed.foldl_arrive Store.keyed_empty before) hrendered
  obtain ⟨j, hj, rfl⟩ := Descriptor.handle?_of_ok hd
  have hkeeps := Store.keeps_field
    ((before.foldl Store.arrive .empty).arrive (.hello c' entry)) after view.handle
  obtain ⟨w, g, hw, hg, -⟩ := hkeeps v f hv hf
  have hstore : ((Session.new c url).play inputs).1.store.find? view.handle = some w := by
    rw [Session.store_play, harrived, List.foldl_append, List.foldl_cons]
    exact hw
  have hsends := Session.sendsEdits (Session.Keyed.play hkeyed inputs)
  exact ⟨_, hj, hhandle ▸ hsends.relays hstore hg⟩

/-- A variable whose handle has a quote and a line break in it. -/
def awkward : List (Input Empty) :=
  [.event .reconnect, .event (.transport 1 .opened), .event (.transport 1 (.message
    "\x7b\"type\":\"hello\",\"vars\":[[\"a\\\"\\n\",null,\"int\"]]\x7d"))]

theorem updates_reread_awkward :
    ∃ j, Entry.handle? (.array [.string "a\"\n", .null, .string "int"]) = some j ∧
      ((Session.new .withNumeric "ws://h").play awkward).1.Relays
        ⟨.text "a\"\n", "a\"\n", none, .integer, [], ""⟩ j := by
  have harrived : (Session.new .withNumeric "ws://h").allArrivals awkward =
      [] ++ .hello .withNumeric (.array [.string "a\"\n", .null, .string "int"]) :: [] := rfl
  exact updates_reread .withNumeric "ws://h" awkward harrived (List.mem_singleton.2 rfl)

/-- A field for any JSON that a user writes. -/
structure Freeform where
  text : String

instance : FieldKind Freeform where
  datatype _ := .other "json"
  allowed _ := []
  attributes _ := []
  text := Freeform.text
  value f := (Json.ofText f.text).mapError fun _ => .notAValue (.other "json") f.text
  present _ v := (⟨v.text⟩, .ok ())
  enter _ text := ⟨text⟩

def freeform : List (Input Freeform) :=
  [.register [.other "json"] fun _ _ => .custom ⟨""⟩, .event .reconnect,
    .event (.transport 1 .opened), .event (.transport 1 (.message
      "\x7b\"type\":\"hello\",\"vars\":[[1,null,\"json\"]]\x7d"))]

/-- Any JSON that is written into the field goes out. -/
theorem freeform_sends {text : String} {v : Json} (h : Json.ofText text = .ok v) :
    .send ⟨.number 1, v⟩ ∈ (((Session.new .empty "ws://h").play freeform).1.step
      (.edit "n:1" text)).2 := by
  have hkeyed : (Session.new (.empty : Catalog Freeform) "ws://h").store.Keyed := Store.keyed_empty
  have hsends := Session.sendsEdits (Session.Keyed.play hkeyed freeform)
  have hread : FieldKind.value (FieldKind.enter (Field.custom (Freeform.mk "")) text) = .ok v := by
    show (Json.ofText text).mapError _ = .ok v
    rw [h]
    rfl
  exact (hsends.sent_iff _ _).2 ⟨"n:1", text, _, _, rfl, rfl, rfl, rfl, rfl, hread⟩

/-- As deep as a text may be nested. -/
def deepest : List Char := List.replicate 127 '[' ++ List.replicate 127 ']'

theorem exists_ofText_deepest :
    ∃ v, Json.ofText (.ofList deepest) = .ok v ∧ Json.maxDepth ≤ v.depth := by
  have hany : (Json.read deepest).toOption.any (Json.maxDepth ≤ ·.depth) = true := by
    decide +kernel
  rw [Json.ofText, String.toList_ofList]
  cases h : Json.read deepest with
  | error =>
    rw [h] at hany
    cases hany
  | ok v =>
    rw [h] at hany
    exact ⟨v, rfl, of_decide_eq_true hany⟩

/-- What is nested as deep as may be read is sent, but in a frame that is nested deeper. -/
theorem deepest_not_reread :
    (∃ view, .render view ∈ commands ((Session.new .empty "ws://h").play freeform).2 ∧
      view.handle = .number 1) ∧
    ∃ u, .send u ∈ (((Session.new .empty "ws://h").play freeform).1.step
        (.edit "n:1" (.ofList deepest))).2 ∧
      u.handle = .number 1 ∧ ∀ v, Json.ofText u.text ≠ .ok v := by
  constructor
  · have hany : (commands ((Session.new .empty "ws://h").play freeform).2).any
        (·.renders (.number 1)) = true := by decide +kernel
    obtain ⟨c, hc, hrenders⟩ := List.any_eq_true.1 hany
    obtain ⟨view, rfl, hview⟩ := Command.renders_iff.1 hrenders
    exact ⟨view, hc, hview⟩
  · obtain ⟨v, hv, hdeep⟩ := exists_ofText_deepest
    refine ⟨⟨.number 1, v⟩, freeform_sends hv, rfl, fun w hw => ?_⟩
    rw [Update.ofText_text_of_deep hdeep] at hw
    cases hw

end LivePanel
