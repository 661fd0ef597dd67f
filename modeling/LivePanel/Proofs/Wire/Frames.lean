import LivePanel.Proofs.Json.Values
import LivePanel.Wire.Message

/-!
# Handles and values on the wire

The handle of an update is the JSON that the server's entry had for it, and an update reads as it
was written, but for what reading does to any value. Main statements: `Descriptor.handle?_of_ok`
and `Update.ofText_text`.
-/
namespace LivePanel

open Entry

theorem Handle.json_of_ofJson? {v : Json} {h : Handle} (hv : ofJson? v = some h) : h.json = v := by
  cases v with
  | number n =>
    cases n with
    | whole w =>
      obtain ⟨hle, rfl⟩ : 0 ≤ w.val ∧ Handle.number (.ofNat w.val.toNat) = h := by
        simpa [ofJson?] using hv
      have hupper := w.upper
      have hword : (UInt64.ofNat w.val.toNat).toNat = w.val.toNat :=
        UInt64.toNat_ofNat_of_lt' (by simp only [UInt64.size]; omega)
      have hval : ((UInt64.ofNat w.val.toNat).toNat : Int) = w.val := by
        rw [hword]
        omega
      simp only [json, Whole.ofWord, hval]
    | real x => cases hv
  | string s =>
    obtain rfl := Option.some.inj hv
    rfl
  | null | bool _ | array _ | object _ => cases hv

theorem Handle.ofJson?_json (h : Handle) : ofJson? h.json = some h := by
  cases h with
  | number n =>
    have hword : UInt64.ofNat (n.toNat : Int).toNat = n := by simp
    simp only [json, Whole.ofWord, ofJson?, Int.natCast_nonneg, if_true, hword]
  | text t => rfl

theorem Handle.json_injective {h k : Handle} (he : h.json = k.json) : h = k := by
  have hk := k.ofJson?_json
  rw [← he, h.ofJson?_json] at hk
  exact Option.some.inj hk

namespace Entry

/-- The last member of some name, which is the one that counts. -/
def lastMember (name : String) (o : Option Json) (ms : List (String × Json)) : Option Json :=
  ms.foldl (fun o m => if m.1 = name then some m.2 else o) o

/-- The handle of an entry, as it stands in the message. -/
def handle? : Json → Option Json
  | .object ms => lastMember "handle" none ms
  | .array vs => vs.head?
  | _ => none

/-- A member of a descriptor, as it stands in the message, whatever the form of the entry. -/
def member? (name : String) : Json → Option Json
  | .object ms => lastMember name none ms
  | .array vs => lastMember name none (EntryKind.descriptor.members.zip vs)
  | _ => none

/-- Members that have other names do not count. -/
theorem lastMember_zip (o : Option Json) {name : String} {names : List String}
    (hnames : name ∉ names) (vs : List Json) : lastMember name o (names.zip vs) = o := by
  induction names generalizing vs with
  | nil => rfl
  | cons n names ih =>
    cases vs with
    | nil => rfl
    | cons v vs =>
      obtain ⟨hname, hnames⟩ := List.ne_and_not_mem_of_not_mem_cons hnames
      have hfirst : (if n = name then some v else o) = o := if_neg hname.symm
      rw [List.zip_cons_cons, lastMember, List.foldl_cons, hfirst]
      exact ih hnames vs

/-- The handle is the first member of an array. -/
theorem handle?_eq (entry : Json) : handle? entry = member? "handle" entry := by
  cases entry with
  | array vs =>
    cases vs with
    | nil => rfl
    | cons v vs =>
      have hrest : lastMember "handle" (some v)
          (["name", "datatype", "description", "options", "value"].zip vs) = some v :=
        lastMember_zip (some v) (by decide) vs
      exact hrest.symm
  | null | bool _ | number _ | string _ | object _ => rfl

end Entry

theorem exists_of_map_eq_ok {α β ε : Type} {f : α → β} {r : Except ε α} {b : β}
    (h : r.map f = .ok b) : ∃ a, r = .ok a ∧ f a = b := by
  cases r with
  | error e => cases h
  | ok a => exact ⟨a, rfl, Except.ok.inj h⟩

theorem exists_of_bind_eq_ok {α β ε : Type} {f : α → Except ε β} {r : Except ε α} {b : β}
    (h : r >>= f = .ok b) : ∃ a, r = .ok a ∧ f a = .ok b := by
  cases r with
  | error e => cases h
  | ok a => exact ⟨a, rfl, h⟩

theorem ok_of_mapError_eq_ok {α ε ζ : Type} {f : ε → ζ} {r : Except ε α} {a : α}
    (h : r.mapError f = .ok a) : r = .ok a := by
  cases r with
  | error e => cases h
  | ok b => exact congrArg Except.ok (Except.ok.inj h)

namespace Descriptor

/-- What a member does to a draft. -/
inductive Draft.Sets : String × Json → (Draft → Draft) → Prop where
  | handle {v : Json} {x : Option Handle} : optional readHandle v = .ok x →
      Sets ("handle", v) fun d => { d with handle := x }
  | name {v : Json} {x : Option String} : optional readString v = .ok x →
      Sets ("name", v) fun d => { d with name := x }
  | datatype {v : Json} {x : Option Datatype} : optional readDatatype v = .ok x →
      Sets ("datatype", v) fun d => { d with datatype := x }
  | description {v : Json} {x : Option String} : optional readString v = .ok x →
      Sets ("description", v) fun d => { d with description := x }
  | options {v : Json} {x : Option Options} : optional readOptions v = .ok x →
      Sets ("options", v) fun d => { d with options := x }
  | value {v : Json} {x : Option Json} : optional .ok v = .ok x →
      Sets ("value", v) fun d => { d with value := x }
  | unknown {name : String} {v : Json} : name ∉ EntryKind.descriptor.members → Sets (name, v) id

theorem Draft.put_unknown (d : Draft) {name : String} (h : name ∉ EntryKind.descriptor.members)
    (v : Json) : d.put (name, v) = .ok d := by
  simp only [EntryKind.members, List.mem_cons, List.not_mem_nil, or_false, not_or] at h
  unfold put
  split <;> simp_all

theorem Draft.put_eq_ok_iff {d d' : Draft} {m : String × Json} :
    d.put m = .ok d' ↔ ∃ f, Sets m f ∧ f d = d' := by
  constructor
  · intro h
    obtain ⟨name, v⟩ := m
    unfold put at h
    split at h
    case h_7 =>
      have hname : name ∉ EntryKind.descriptor.members := by
        simp_all [EntryKind.members]
      exact ⟨id, .unknown hname, Except.ok.inj h⟩
    all_goals
      rename_i hname
      obtain rfl : name = _ := hname
      obtain ⟨x, hx, rfl⟩ := exists_of_map_eq_ok h
    · exact ⟨_, .handle hx, rfl⟩
    · exact ⟨_, .name hx, rfl⟩
    · exact ⟨_, .datatype hx, rfl⟩
    · exact ⟨_, .description hx, rfl⟩
    · exact ⟨_, .options hx, rfl⟩
    · exact ⟨_, .value hx, rfl⟩
  · rintro ⟨f, hf, rfl⟩
    cases hf with
    | unknown hname => exact d.put_unknown hname _
    | handle hx | name hx | datatype hx | description hx | options hx | value hx =>
      exact congrArg (Except.map _) hx

/-- A draft that has taken no other handle than the JSON at hand. -/
def Draft.Keeps (d : Draft) (o : Option Json) : Prop :=
  ∀ h, d.handle = some h → ∃ j, o = some j ∧ h.json = j

theorem json_of_readHandle {v : Json} {h : Handle}
    (hv : Entry.optional readHandle v = .ok (some h)) : h.json = v := by
  refine Handle.json_of_ofJson? ?_
  unfold Entry.optional at hv
  split at hv
  · cases hv
  · obtain ⟨k, hk, hkh⟩ := exists_of_map_eq_ok hv
    obtain rfl := Option.some.inj hkh
    rw [readHandle] at hk
    split at hk
    · rename_i hread
      rw [hread, Except.ok.inj hk]
    · cases hk

theorem Draft.Keeps.put {d d' : Draft} {o : Option Json} (hd : d.Keeps o) {m : String × Json}
    (h : d.put m = .ok d') : d'.Keeps (if m.1 = "handle" then some m.2 else o) := by
  obtain ⟨f, hf, rfl⟩ := put_eq_ok_iff.1 h
  cases hf with
  | @handle v x hx =>
    rw [if_pos rfl]
    rintro k rfl
    exact ⟨v, rfl, json_of_readHandle hx⟩
  | @unknown name v hname =>
    have hother : name ≠ "handle" := by
      rintro rfl
      exact hname (by decide)
    rw [if_neg hother]
    exact hd
  | name | datatype | description | options | value =>
    rw [if_neg (by simp)]
    exact hd

theorem keeps_empty (o : Option Json) : Draft.Keeps {} o := by
  intro h hh
  cases hh

/-- What every member carries on is carried on by all of them, one after another. -/
theorem take_invariant {P : Draft → Option Json → Prop} {name : String}
    (hput : ∀ d d' o m, P d o → d.put m = .ok d' → P d' (if m.1 = name then some m.2 else o))
    {d d' : Draft} {o : Option Json} (hd : P d o) {ms : List (String × Json)}
    (h : ms.foldlM Draft.put d = .ok d') : P d' (lastMember name o ms) := by
  induction ms generalizing d o with
  | nil =>
    obtain rfl := Except.ok.inj h
    exact hd
  | cons m ms ih =>
    obtain ⟨d₁, hfirst, hrest⟩ := exists_of_bind_eq_ok h
    exact ih (hput d d₁ o m hd hfirst) hrest

theorem readDraft_invariant {P : Draft → Option Json → Prop} {name : String}
    (hput : ∀ d d' o m, P d o → d.put m = .ok d' → P d' (if m.1 = name then some m.2 else o))
    (hempty : P {} none) {entry : Json} {d : Draft} (h : readDraft entry = .ok d) :
    P d (member? name entry) := by
  cases entry with
  | object ms => exact take_invariant hput hempty h
  | array vs =>
    cases vs with
    | nil => cases h
    | cons v vs =>
      obtain ⟨draft, hdraft, h⟩ := exists_of_bind_eq_ok h
      split at h
      · cases h
      · obtain rfl := Except.ok.inj h
        exact take_invariant hput hempty hdraft
  | null | bool _ | number _ | string _ => cases h

theorem keeps_readDraft {entry : Json} {d : Draft} (h : readDraft entry = .ok d) :
    d.Keeps (handle? entry) := by
  rw [handle?_eq]
  exact readDraft_invariant (fun _ _ _ _ hd hput => hd.put hput) (keeps_empty none) h

theorem readDraft_of_ofJson {entry : Json} {d : Descriptor} (h : ofJson entry = .ok d) :
    ∃ draft, readDraft entry = .ok draft ∧ draft.handle = some d.handle ∧
      draft.datatype = d.datatype := by
  obtain ⟨draft, hdraft, h⟩ := exists_of_bind_eq_ok h
  split at h
  · cases h
  · rename_i k hk
    obtain rfl := Except.ok.inj h
    exact ⟨draft, ok_of_mapError_eq_ok hdraft, hk, rfl⟩

/-- A descriptor has the handle that stands in its entry. -/
theorem handle?_of_ok {entry : Json} {d : Descriptor} (h : ofJson entry = .ok d) :
    ∃ j, handle? entry = some j ∧ d.handle.json = j := by
  obtain ⟨draft, hread, hhandle, -⟩ := readDraft_of_ofJson h
  exact keeps_readDraft hread d.handle hhandle

end Descriptor

theorem Handle.reread_json (h : Handle) : h.json.reread = h.json := by
  cases h with
  | number n => exact Json.reread_whole _
  | text t => rfl

theorem Handle.depth_json (h : Handle) : h.json.depth = 0 := by
  cases h <;> rfl

/-- An update is read as an object of its three members. -/
theorem Update.ofText_text {u : Update} (h : u.value.depth < Json.maxDepth) :
    Json.ofText u.text = .ok (.object [("handle", u.handle.json), ("type", .string "update"),
      ("value", u.value.reread)]) := by
  have hdepth : (Json.object [("type", .string "update"), ("handle", u.handle.json),
      ("value", u.value)]).depth ≤ Json.maxDepth := by
    simp only [Json.depth, Json.depthMembers, u.handle.depth_json]
    omega
  rw [Update.text, Json.ofText_text hdepth]
  simp only [Json.reread, Json.rereadMembers, u.handle.reread_json]
  rfl

theorem Update.ofText_text_of_deep {u : Update} (h : Json.maxDepth ≤ u.value.depth) :
    Json.ofText u.text = .error .unexpected := by
  refine Json.ofText_text_of_deep ?_
  simp only [Json.depth, Json.depthMembers, u.handle.depth_json]
  omega

end LivePanel
