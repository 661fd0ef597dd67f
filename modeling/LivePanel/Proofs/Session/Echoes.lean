import Mathlib.Logic.Function.Iterate
import LivePanel.Proofs.Field.Legible
import LivePanel.Proofs.Json.Rereading
import LivePanel.Proofs.Session.Updates
import LivePanel.Proofs.Wire.Frames

/-!
# Numbers given back

A server may send a number back as it was written. A session takes it, but as JSON text is read, and
so the number may come back as another. Main statement: `echoes_taken`.
-/
namespace LivePanel

theorem Handle.readHandle_json (h : Handle) : Entry.readHandle h.json = .ok h := by
  rw [Entry.readHandle, h.ofJson?_json]

/-- A number goes out in an update as the last thing before its end. -/
theorem Update.text_number (h : Handle) (n : Number) : (Update.mk h (.number n)).text = .ofList
    ("\x7b\"type\":\"update\",\"handle\":".toList ++ h.json.write ++ ",\"value\":".toList ++
      n.text ++ ['\x7d']) := by
  have hnames : Json.stringText "type" = "\"type\"".toList ∧
      Json.stringText "update" = "\"update\"".toList ∧
      Json.stringText "handle" = "\"handle\"".toList ∧
      Json.stringText "value" = "\"value\"".toList := by decide
  obtain ⟨htype, hupdate, hhandle, hvalue⟩ := hnames
  simp [Update.text, Json.text, Json.write, Json.writeMembers, htype, hupdate, hhandle, hvalue]

namespace Assignment

theorem put_handle (d : Draft) (h : Handle) :
    d.put ("handle", h.json) = .ok { d with handle := some h } := by
  rw [Draft.put]
  simp only [h.readHandle_json]
  rfl

theorem ofJson_array (h : Handle) (v : Json) : ofJson (.array [h.json, v]) = .ok ⟨h, v⟩ := by
  have htake : Draft.take [("handle", h.json), ("value", v)] = .ok ⟨some h, some v⟩ := by
    rw [Draft.take, List.foldlM_cons, put_handle]
    rfl
  have hzip : EntryKind.assignment.members.zip [h.json, v] =
      [("handle", h.json), ("value", v)] := rfl
  rw [ofJson, readEntry, hzip, htake]
  rfl

theorem ofJson_object (h : Handle) (v : Json) :
    ofJson (.object [("handle", h.json), ("value", v)]) = .ok ⟨h, v⟩ := by
  have htake : Draft.take [("handle", h.json), ("value", v)] = .ok ⟨some h, some v⟩ := by
    rw [Draft.take, List.foldlM_cons, put_handle]
    rfl
  rw [ofJson, readEntry, htake]
  rfl

end Assignment

/-- The text of a number, read as JSON. -/
theorem Number.ofText_text (n : Number) :
    Json.ofText (.ofList n.text) = .ok (Json.reread (.number n)) := by
  have hflat : (Json.number n).depth ≤ Json.maxDepth := Nat.zero_le _
  have htext : Json.text (.number n) = .ofList n.text := by simp only [Json.text, Json.write]
  rw [← htext, Json.ofText_text hflat]

/-- A message that refreshes one variable, with a place for a number. Whatever number is written
there is read as it would be alone, and gives the value. -/
structure RefreshForm (h : Handle) where
  before : List Char
  after : List Char
  carries : ∀ (n : Number) (v : Json), Json.ofText (.ofList n.text) = .ok v → ∃ entry,
    Message.ofText (.ofList (before ++ n.text ++ after)) = .ok (.refresh [entry]) ∧
    Assignment.ofJson entry = .ok ⟨h, v⟩

namespace RefreshForm

variable {h : Handle}

def text (form : RefreshForm h) (n : Number) : String :=
  .ofList (form.before ++ n.text ++ form.after)

/-- The written form of a `refresh` with one entry. -/
theorem text_refresh (entry : Json) :
    Json.text (.object [("type", .string "refresh"), ("vars", .array [entry])]) = .ofList
      ("\x7b\"type\":\"refresh\",\"vars\":[".toList ++ entry.write ++ "]\x7d".toList) := by
  have hnames : Json.stringText "type" = "\"type\"".toList ∧
      Json.stringText "refresh" = "\"refresh\"".toList ∧
      Json.stringText "vars" = "\"vars\"".toList := by decide
  obtain ⟨htype, hrefresh, hvars⟩ := hnames
  simp [Json.text, Json.write, Json.writeMembers, Json.writeItems, htype, hrefresh, hvars]

theorem ofText_refresh {entry : Json} (hdepth : entry.depth ≤ 1) :
    Message.ofText (Json.text (.object [("type", .string "refresh"), ("vars", .array [entry])])) =
      .ok (.refresh [entry.reread]) := by
  have hfits : (Json.object [("type", .string "refresh"), ("vars", .array [entry])]).depth ≤
      Json.maxDepth := by
    have hroom : 1 + 2 ≤ Json.maxDepth := by decide
    simp only [Json.depth, Json.depthMembers, Json.depthItems]
    omega
  rw [Message.ofText, Json.ofText_text hfits]
  rfl

/-- An entry with a place for a number, in a message of its own. -/
def ofEntry (entry : Number → Json) (before after : List Char)
    (hdepth : ∀ n, (entry n).depth ≤ 1) (hwrite : ∀ n, (entry n).write = before ++ n.text ++ after)
    (hread : ∀ n, Assignment.ofJson (entry n).reread = .ok ⟨h, Json.reread (.number n)⟩) :
    RefreshForm h where
  before := "\x7b\"type\":\"refresh\",\"vars\":[".toList ++ before
  after := after ++ "]\x7d".toList
  carries n v hv := by
    obtain rfl : Json.reread (.number n) = v := Except.ok.inj (n.ofText_text.symm.trans hv)
    have htext := text_refresh (entry n)
    rw [hwrite n] at htext
    refine ⟨(entry n).reread, ?_, hread n⟩
    rw [← ofText_refresh (hdepth n), htext]
    simp only [List.append_assoc]

/-- The entry as an array. -/
def listed (h : Handle) : RefreshForm h :=
  ofEntry (fun n => .array [h.json, .number n]) ('[' :: h.json.write ++ [',']) [']']
    (fun n => by simp [Json.depth, Json.depthItems, h.depth_json])
    (fun n => by simp [Json.write, Json.writeItems])
    (fun n => by
      simp only [Json.reread, Json.rereadItems, h.reread_json]
      exact Assignment.ofJson_array h _)

/-- The entry as an object. -/
def named (h : Handle) : RefreshForm h :=
  ofEntry (fun n => .object [("handle", h.json), ("value", .number n)])
    ("\x7b\"handle\":".toList ++ h.json.write ++ ",\"value\":".toList) ['\x7d']
    (fun n => by simp [Json.depth, Json.depthMembers, h.depth_json])
    (fun n => by
      have hnames : Json.stringText "handle" = "\"handle\"".toList ∧
          Json.stringText "value" = "\"value\"".toList := by decide
      simp [Json.write, Json.writeMembers, hnames])
    (fun n => by
      simp only [Json.reread, Json.rereadMembers, h.reread_json]
      exact Assignment.ofJson_object h _)

end RefreshForm

variable {φ : Type} [FieldKind φ] {h : Handle}

omit [FieldKind φ] in
/-- The variable with a number that it was given, shown in its field. -/
def Variable.holding (v : Variable φ) (f : NumberField) (x : Binary64) : Variable φ :=
  { v with
    value := some (.number (.real x))
    field := some (.numeric { f with text := .ofList x.text }) }

namespace NumberField

/-- A field for real numbers reads the text of a double as that double. -/
theorem value_text {f : NumberField} (hd : f.datatype ≠ .integer) (x : Binary64) :
    FieldKind.value ({ f with text := .ofList x.text } : NumberField) =
      .ok (.number (.real x)) := by
  show value _ = _
  rw [value]
  simp only [String.toList_ofList, x.trim_text, readNumber?_of_ne_integer hd, x.readReal?_text,
    Option.map_some]

theorem valueText_real {d : Datatype} (hd : d ≠ .integer) (x : Binary64) :
    valueText d (.number (.real x)) = .ok (.ofList x.text) := by
  rw [valueText]
  simp only [numberText_of_ne_integer hd, Number.text]

/-- Only a field for real numbers reads a double. -/
theorem ne_integer_of_value {f : NumberField} {x : Binary64}
    (h : FieldKind.value f = .ok (.number (.real x))) : f.datatype ≠ .integer := by
  intro hd
  change value f = _ at h
  simp only [value, readNumber?, hd] at h
  split at h
  · rename_i n hn
    obtain ⟨w, -, rfl⟩ := Option.map_eq_some_iff.1 hn
    cases h
  · cases h

end NumberField

namespace Variable

/-- Such a field shows any double that it is given. -/
theorem refresh_real {v : Variable φ} {f : NumberField} (hf : v.field = some (.numeric f))
    (hd : f.datatype ≠ .integer) (x : Binary64) : v.refresh (.number (.real x)) =
      (v.holding f x, .ok (some (.show v.handle (.ofList x.text)))) := by
  have hpresent : FieldKind.present (Field.numeric f : Field φ) (.number (.real x)) =
      (.numeric { f with text := .ofList x.text }, .ok ()) := by
    show (f.present (.number (.real x))).map Field.numeric id = _
    rw [NumberField.present, NumberField.valueText_real hd]
    rfl
  simp only [refresh, accept, hf, hpresent]
  rfl

/-- What is then read from the field is the number it was given. -/
theorem update?_holding (v : Variable φ) {f : NumberField} (hd : f.datatype ≠ .integer)
    (x : Binary64) : (v.holding f x).update? = .ok ⟨v.handle, .number (.real x)⟩ := by
  have hvalue : FieldKind.value (Field.numeric { f with text := .ofList x.text } : Field φ) =
      .ok (.number (.real x)) := NumberField.value_text hd x
  simp only [update?, holding, hvalue]

end Variable

namespace Session

/-- A number is typed and given back, then what is shown is typed and given back, and so on. -/
def exchanges (g : UInt64) (key : String) : List (RefreshForm h) → Binary64 → String → List Event
  | [], _, _ => []
  | form :: forms, x, text =>
    .edit key text :: .transport g (.message (form.text (.real x))) ::
      exchanges g key forms x.reread (.ofList x.reread.text)

/-- What a session answers to that. -/
def exchanged (h : Handle) : Nat → Binary64 → List Command
  | 0, _ => []
  | n + 1, x =>
    .send ⟨h, .number (.real x)⟩ :: .show h (.ofList x.reread.text) :: exchanged h n x.reread

/-- A session with a field for real numbers and a connection. -/
structure Poised (s : Session φ) (g : UInt64) (key : String) (v : Variable φ) (f : NumberField)
    (h : Handle) : Prop where
  keyed : s.store.Keyed
  connected : s.link.status = .connected
  owns : s.link.owns g = true
  spelled : Handle.ofKey? key = some h
  stored : s.store.find? h = some v
  numeric : v.field = some (.numeric f)
  real : f.datatype ≠ .integer

variable {s : Session φ} {g : UInt64} {key text : String} {v : Variable φ} {f : NumberField}
  {x : Binary64}

/-- A number that is typed is sent, and its field keeps the text. -/
theorem Poised.step_edit (hs : s.Poised g key v f h)
    (hx : FieldKind.value ({ f with text } : NumberField) = .ok (.number (.real x))) :
    ∃ t : Session φ, s.step (.edit key text) = (t, [.send ⟨h, .number (.real x)⟩]) ∧
      t.Poised g key { v with field := some (.numeric { f with text }) } { f with text } h ∧
      t.tally.issues = s.tally.issues ∧ ∀ k, k ≠ h → t.store.find? k = s.store.find? k := by
  have hvalue : FieldKind.value (FieldKind.enter (Field.numeric f : Field φ) text) =
      .ok (.number (.real x)) := hx
  have hupdate : s.store.update? key text = some ⟨h, .number (.real x)⟩ :=
    Store.update?_eq_some_iff.2 ⟨v, .numeric f, hs.spelled, hs.stored, hs.numeric, hvalue⟩
  have hread := Store.toOption_edit hs.keyed key text
  have hfind := Store.find?_edit_of_update? (u := ⟨h, .number (.real x)⟩) hs.spelled hs.stored
    hs.numeric hvalue
  rw [hupdate] at hread
  obtain ⟨refusal, hr, -⟩ | ⟨u, -, hoff, -⟩ | ⟨u, hr, -, he⟩ := s.edit_cases key text
  · rw [hr] at hread
    cases hread
  · exact absurd hs.connected hoff
  · rw [hr] at hread
    obtain rfl := Option.some.inj hread
    refine ⟨_, he, ?_, rfl, ?_⟩
    · exact ⟨hs.keyed.arrive (.edit key text), hs.connected, hs.owns, hs.spelled, hfind, rfl,
        hs.real⟩
    · intro k hk
      show (s.store.edit key text).1.find? k = _
      rw [Store.find?_edit, hs.spelled, if_neg (fun he => hk (Option.some.inj he).symm)]

/-- A number that is given back is read from JSON text, stored and shown. -/
theorem Poised.step_form (hs : s.Poised g key v f h) (form : RefreshForm h) (x : Binary64) :
    ∃ t : Session φ, s.step (.transport g (.message (form.text (.real x)))) =
        (t, [.show h (.ofList x.reread.text)]) ∧
      t.Poised g key (v.holding f x.reread) { f with text := .ofList x.reread.text } h ∧
      t.tally.issues = s.tally.issues ∧ ∀ k, k ≠ h → t.store.find? k = s.store.find? k := by
  obtain ⟨entry, htext, hread⟩ := form.carries (.real x) _ (Number.ofText_text _)
  have hvalue : Json.reread (.number (.real x)) = .number (.real x.reread) := by
    rw [Json.reread, x.readNumeral?_reread, Option.getD_some]
  have hhandle : v.handle = h := hs.keyed h v hs.stored
  have hentry : s.store.refreshEntry entry = (s.store.insert h (v.holding f x.reread),
      .ok (some (.show h (.ofList x.reread.text)))) := by
    rw [Store.refreshEntry, hread, hvalue]
    simp only [Store.alter, hs.stored, Assignment.step, Variable.refresh_real hs.numeric hs.real,
      hhandle, Prod.map, id]
  have hbatch : s.store.refresh [entry] = (s.store.insert h (v.holding f x.reread),
      [.ok (some (.show h (.ofList x.reread.text)))]) := by
    rw [Store.refresh, Store.batch, hentry]
    rfl
  have hmessage : Message.ofText (form.text (.real x)) = .ok (.refresh [entry]) := htext
  have hstep : s.step (.transport g (.message (form.text (.real x)))) =
      ({ s with
        store := s.store.insert h (v.holding f x.reread)
        tally := { s.tally with refreshes := s.tally.refreshes + 1 } },
      [.show h (.ofList x.reread.text)]) := by
    simp only [step, report, hs.owns, if_true, receive, hmessage, refresh, hbatch]
    exact conclude_of_no_issues _ _ rfl
  refine ⟨_, hstep, ?_, rfl, fun k hk => Store.find?_insert_of_ne _ hk _⟩
  have hkeyed := Keyed.take hs.keyed (.event (.transport g (.message (form.text (.real x)))))
  rw [take, hstep] at hkeyed
  exact ⟨hkeyed, hs.connected, hs.owns, hs.spelled, Store.find?_insert_self _ _ _, rfl, hs.real⟩

/-- Typed and given back, a number is sent and shown, and the session is poised as it was before. -/
theorem Poised.round (hs : s.Poised g key v f h)
    (hx : FieldKind.value ({ f with text } : NumberField) = .ok (.number (.real x)))
    (form : RefreshForm h) : ∃ t : Session φ,
      s.run [.edit key text, .transport g (.message (form.text (.real x)))] =
        (t, [.send ⟨h, .number (.real x)⟩, .show h (.ofList x.reread.text)]) ∧
      t.Poised g key (v.holding f x.reread) { f with text := .ofList x.reread.text } h ∧
      t.tally.issues = s.tally.issues ∧ ∀ k, k ≠ h → t.store.find? k = s.store.find? k := by
  obtain ⟨r, hedit, hr, hissues, hothers⟩ := hs.step_edit hx
  obtain ⟨t, hform, ht, hissues', hothers'⟩ := hr.step_form form x
  refine ⟨t, ?_, ht, hissues'.trans hissues, fun k hk => (hothers' k hk).trans (hothers k hk)⟩
  rw [run_cons, hedit, run_cons, hform]
  rfl

/-- Any number of such rounds. -/
theorem Poised.run_exchanges (hs : s.Poised g key v f h)
    (hx : FieldKind.value ({ f with text } : NumberField) = .ok (.number (.real x)))
    (forms : List (RefreshForm h)) : ∃ t : Session φ,
      s.run (exchanges g key forms x text) = (t, exchanged h forms.length x) ∧
      t.tally.issues = s.tally.issues ∧ (∀ k, k ≠ h → t.store.find? k = s.store.find? k) ∧
      (forms ≠ [] →
        t.store.find? h = some (v.holding f (Binary64.reread^[forms.length] x))) := by
  induction forms generalizing s v f x text with
  | nil => exact ⟨s, rfl, rfl, fun _ _ => rfl, fun hne => absurd rfl hne⟩
  | cons form forms ih =>
    obtain ⟨r, hround, hr, hissues, hothers⟩ := hs.round hx form
    obtain ⟨t, hrest, hissues', hothers', hlast⟩ := ih hr (NumberField.value_text hs.real x.reread)
    refine ⟨t, ?_, hissues'.trans hissues, fun k hk => (hothers' k hk).trans (hothers k hk), ?_⟩
    · have happend : exchanges g key (form :: forms) x text =
          [.edit key text, .transport g (.message (form.text (.real x)))] ++
            exchanges g key forms x.reread (.ofList x.reread.text) := rfl
      rw [happend, run_append, hround, hrest]
      rfl
    · intro _
      cases forms with
      | nil =>
        obtain rfl : r = t := (Prod.mk.inj hrest).1
        exact hr.stored
      | cons next forms =>
        rw [List.length_cons, Function.iterate_succ_apply]
        exact hlast (List.cons_ne_nil next forms)

/-- An edit of a variable with the built-in field sends a double, while the transport of `g`
reports. -/
structure Sends (s : Session φ) (g : UInt64) (key text : String) (h : Handle) (v : Variable φ)
    (f : NumberField) (x : Binary64) : Prop where
  owns : s.link.owns g = true
  stored : s.store.find? h = some v
  numeric : v.field = some (.numeric f)
  sent : .send ⟨h, .number (.real x)⟩ ∈ (s.step (.edit key text)).2

theorem Sends.poised (hkeyed : s.store.Keyed) (hs : s.Sends g key text h v f x) :
    s.Poised g key v f h ∧
      FieldKind.value ({ f with text } : NumberField) = .ok (.number (.real x)) := by
  obtain ⟨key', text', w, f', he, hon, hkey, hw, hf, hx⟩ :=
    ((sendsEdits hkeyed).sent_iff _ _).1 hs.sent
  cases he
  obtain rfl : w = v := Option.some.inj (hw.symm.trans hs.stored)
  obtain rfl : f' = .numeric f := Option.some.inj (hf.symm.trans hs.numeric)
  have hvalue : FieldKind.value ({ f with text } : NumberField) = .ok (.number (.real x)) := hx
  have hreal : f.datatype ≠ .integer :=
    NumberField.ne_integer_of_value (f := ({ f with text } : NumberField)) hvalue
  exact ⟨⟨hkeyed, hon, hs.owns, hkey, hs.stored, hs.numeric, hreal⟩, hvalue⟩

/-- The field reads what is stored in the end. -/
theorem Sends.run_exchanges (hkeyed : s.store.Keyed) (hs : s.Sends g key text h v f x)
    (forms : List (RefreshForm h)) : ∃ t : Session φ,
      s.run (exchanges g key forms x text) = (t, exchanged h forms.length x) ∧
      t.tally.issues = s.tally.issues ∧ (∀ k, k ≠ h → t.store.find? k = s.store.find? k) ∧
      (forms ≠ [] → t.store.find? h = some (v.holding f (Binary64.reread^[forms.length] x)) ∧
        (v.holding f (Binary64.reread^[forms.length] x)).update? =
          .ok ⟨h, .number (.real (Binary64.reread^[forms.length] x))⟩) := by
  obtain ⟨hpoised, hx⟩ := hs.poised hkeyed
  obtain ⟨t, hrun, hissues, hothers, hlast⟩ := hpoised.run_exchanges hx forms
  refine ⟨t, hrun, hissues, hothers, fun hne => ⟨hlast hne, ?_⟩⟩
  rw [Variable.update?_holding v hpoised.real, hkeyed h v hs.stored]

/-- What comes of the doubles that a session sends and is given back. -/
structure TakesEchoes (s : Session φ) : Prop where
  /-- The text of a number stands in the update that sends it, where nothing else hangs on it. -/
  written : ∀ h, ∃ before, ∀ n : Number,
    (Update.mk h (.number n)).text = .ofList (before ++ n.text ++ ['\x7d'])
  /-- Given back in whatever form, however often, a double is taken without an issue: it is shown
  and stored as JSON text is read, and what the field reads next is what was stored. -/
  taken : ∀ g key text h v f x, s.Sends g key text h v f x → ∀ forms : List (RefreshForm h),
    ∃ t : Session φ, s.run (exchanges g key forms x text) = (t, exchanged h forms.length x) ∧
      t.tally.issues = s.tally.issues ∧ (∀ k, k ≠ h → t.store.find? k = s.store.find? k) ∧
      (forms ≠ [] → t.store.find? h = some (v.holding f (Binary64.reread^[forms.length] x)) ∧
        (v.holding f (Binary64.reread^[forms.length] x)).update? =
          .ok ⟨h, .number (.real (Binary64.reread^[forms.length] x))⟩)
  /-- If the digits and the power of ten of its text are doubles themselves, it never drifts. -/
  kept : ∀ g key text h v f x, s.Sends g key text h v f x → x.Brief →
    ∀ forms : List (RefreshForm h), ∃ t : Session φ,
      s.run (exchanges g key forms x text) = (t, (List.replicate forms.length
        [Command.send ⟨h, .number (.real x)⟩, .show h (.ofList x.text)]).flatten) ∧
      (forms ≠ [] → t.store.find? h = some (v.holding f x) ∧
        (v.holding f x).update? = .ok ⟨h, .number (.real x)⟩)
  /-- No double drifts far at once: it keeps its sign, and moves by no more than one part in
  `2 ^ 50` and two units. -/
  close : ∀ x : Binary64, x.reread.negative = x.negative ∧
    (x.reread.units - x.units : Int).natAbs * powerOfTwo 50 ≤ x.units + powerOfTwo 51

theorem exchanged_of_brief (hx : x.Brief) (n : Nat) : exchanged h n x = (List.replicate n
    [Command.send ⟨h, .number (.real x)⟩, .show h (.ofList x.text)]).flatten := by
  induction n with
  | zero => rfl
  | succ n ih =>
    rw [exchanged, Binary64.reread_of_brief hx, ih, List.replicate_succ, List.flatten_cons]
    rfl

end Session

/-- A number that the server gives back is accepted, however often, but it is stored as JSON text is
read, in more than one rounding. So it comes back as it was if its digits and its power of ten are
doubles, and else close to it. -/
theorem echoes_taken {φ : Type} [FieldKind φ] (c : Catalog φ) (url : String)
    (inputs : List (Input φ)) : ((Session.new c url).play inputs).1.TakesEchoes := by
  have hkeyed : ((Session.new c url).play inputs).1.store.Keyed :=
    Session.Keyed.play Store.keyed_empty inputs
  generalize ((Session.new c url).play inputs).1 = s at hkeyed
  constructor
  case written => exact fun h => ⟨_, Update.text_number h⟩
  case taken => exact fun g key text h v f x hs => hs.run_exchanges hkeyed
  case kept =>
    intro g key text h v f x hs hbrief forms
    obtain ⟨t, hrun, -, -, hlast⟩ := hs.run_exchanges hkeyed forms
    rw [Function.iterate_fixed (Binary64.reread_of_brief hbrief)] at hlast
    rw [Session.exchanged_of_brief hbrief] at hrun
    exact ⟨t, hrun, hlast⟩
  case close => exact Binary64.reread_close

/-- A field for real numbers. -/
def floats : List (Input Empty) :=
  [.event .reconnect, .event (.transport 1 .opened),
    .event (.transport 1 (.message "\x7b\"type\":\"hello\",\"vars\":[[1,null,\"float\"]]\x7d"))]

/-- The double nearest to ten to the power of minus 23. -/
def grain : Binary64 := ⟨false, 6805647338418769, 945, by decide⟩

theorem grain_text : grain.text = "1e-23".toList := by decide +kernel

/-- In JSON text the next double comes of it. -/
theorem grain_reread : grain.reread = ⟨false, 6805647338418770, 945, by decide⟩ := by
  have hread : readNumeral? "1e-23".toList =
      some (.real ⟨false, 6805647338418770, 945, by decide⟩) := by decide +kernel
  rw [Binary64.reread, grain_text, hread]

/-- It is typed and given back as it was written, but another is stored, and read from the field. -/
theorem grain_drifts :
    (∃ v f, ((Session.new .withNumeric "ws://h").play floats).1.Sends 1 "n:1" "1e-23" (.number 1)
      v f grain) ∧
    (RefreshForm.listed (.number 1)).text (.real grain) =
      "\x7b\"type\":\"refresh\",\"vars\":[[1,1e-23]]\x7d" ∧
    ∃ t v y, ((Session.new .withNumeric "ws://h").play floats).1.run
        [.edit "n:1" "1e-23",
          .transport 1 (.message "\x7b\"type\":\"refresh\",\"vars\":[[1,1e-23]]\x7d")] =
        (t, [.send ⟨.number 1, .number (.real grain)⟩,
          .show (.number 1) "1.0000000000000001e-23"]) ∧
      t.store.find? (.number 1) = some v ∧ v.value = some (.number (.real y)) ∧
      v.update? = .ok ⟨.number 1, .number (.real y)⟩ ∧ y ≠ grain := by
  have hkeyed : ((Session.new (.withNumeric : Catalog Empty) "ws://h").play floats).1.store.Keyed :=
    Session.Keyed.play Store.keyed_empty floats
  have hread : NumberField.value ⟨.float, [], "1e-23"⟩ = .ok (.number (.real grain)) := by
    have hreal : readReal? (trim "1e-23".toList) = some grain := by decide +kernel
    rw [NumberField.value]
    simp only [NumberField.readNumber?, hreal, Option.map_some]
  have hsends : ∃ v f, ((Session.new .withNumeric "ws://h").play floats).1.Sends 1 "n:1" "1e-23"
      (.number 1) v f grain :=
    ⟨_, _, rfl, rfl, rfl,
      ((Session.sendsEdits hkeyed).sent_iff _ _).2
        ⟨"n:1", "1e-23", _, _, rfl, rfl, rfl, rfl, rfl, hread⟩⟩
  have htext : (RefreshForm.listed (.number 1)).text (.real grain) =
      "\x7b\"type\":\"refresh\",\"vars\":[[1,1e-23]]\x7d" := by
    rw [RefreshForm.text, Number.text, grain_text]
    decide +kernel
  have hshown : String.ofList grain.reread.text = "1.0000000000000001e-23" := by
    rw [grain_reread]
    decide +kernel
  refine ⟨hsends, htext, ?_⟩
  obtain ⟨v, f, hs⟩ := hsends
  obtain ⟨hpoised, hx⟩ := hs.poised hkeyed
  obtain ⟨t, hrun, ht, -⟩ := hpoised.round hx (RefreshForm.listed (.number 1))
  rw [htext, hshown] at hrun
  refine ⟨t, v.holding f grain.reread, grain.reread, hrun, ht.stored, rfl, ?_, ?_⟩
  · rw [Variable.update?_holding v hpoised.real, hkeyed (.number 1) v hs.stored]
  · rw [grain_reread]
    decide

end LivePanel
