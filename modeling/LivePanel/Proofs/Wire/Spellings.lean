import LivePanel.Proofs.Field.Integers
import LivePanel.Proofs.Wire.Frames

/-!
# Spellings of a datatype

A server can spell a datatype in several ways: by a code, by a name, by an alias, and what the panel
does not know by any text at all, so also by the decimal text of a code. Datatypes that are read are
told apart by their names alone, for the name of one is a spelling of it and of no other. Main
statements: `ofJson?_eq_some_iff`, `canonical_iff` and `wellNamed`.
-/
namespace LivePanel

open Entry

namespace Datatype

/-- The datatypes that the panel knows, in the order of their codes. -/
def known : List Datatype := [.integer, .float, .double, .time]

/-- The names of the datatypes that the panel knows, one of which has an alias. -/
inductive Names : String → Datatype → Prop where
  | integer : Names "integer" .integer
  | alias : Names "int" .integer
  | float : Names "float" .float
  | double : Names "double" .double
  | time : Names "time" .time

/-- The spellings of a datatype. One that the panel does not know is kept as the name it was given
or, if it was given a code, as the decimal text of that. -/
inductive Spells : Json → Datatype → Prop where
  | code {n : UInt64} {d : Datatype} : known[n.toNat]? = some d →
      Spells (.number (.whole (.ofWord n))) d
  | name {s : String} {d : Datatype} : Names s d → Spells (.string s) d
  | otherCode {n : UInt64} : known.length ≤ n.toNat →
      Spells (.number (.whole (.ofWord n))) (.other (toString n.toNat))
  | otherName {s : String} : (∀ d, ¬ Names s d) → Spells (.string s) (.other s)

theorem ofCode_known : ∀ i : Fin known.length, ofCode i = known.get i := by decide

theorem ofCode_of_known {n : Nat} {d : Datatype} (h : known[n]? = some d) : ofCode n = d := by
  obtain ⟨hn, rfl⟩ := List.getElem?_eq_some_iff.1 h
  exact ofCode_known ⟨n, hn⟩

theorem ofCode_of_le {n : Nat} (h : known.length ≤ n) : ofCode n = .other (toString n) := by
  obtain ⟨m, rfl⟩ := Nat.exists_eq_add_of_le' h
  have htext : String.ofList (digits (m + 4)) = toString (m + 4) :=
    congrArg String.ofList (digits_eq_toDigits (m + 4))
  exact congrArg other htext

theorem Names.ofName_eq {s : String} {d : Datatype} (h : Names s d) : ofName s = d := by
  cases h <;> rfl

theorem ofName_of_unnamed {s : String} (h : ∀ d, ¬ Names s d) : ofName s = .other s := by
  have hinteger : ¬ (s = "integer" ∨ s = "int") := by
    rintro (rfl | rfl)
    · exact h _ .integer
    · exact h _ .alias
  have hfloat : s ≠ "float" := by rintro rfl; exact h _ .float
  have hdouble : s ≠ "double" := by rintro rfl; exact h _ .double
  have htime : s ≠ "time" := by rintro rfl; exact h _ .time
  rw [ofName, if_neg hinteger, if_neg hfloat, if_neg hdouble, if_neg htime]

theorem spells_ofCode (n : UInt64) : Spells (.number (.whole (.ofWord n))) (ofCode n.toNat) := by
  cases hd : known[n.toNat]? with
  | some d =>
    rw [ofCode_of_known hd]
    exact .code hd
  | none =>
    have hn := List.getElem?_eq_none_iff.1 hd
    rw [ofCode_of_le hn]
    exact .otherCode hn

theorem spells_ofName (s : String) : Spells (.string s) (ofName s) := by
  by_cases hs : ∃ d, Names s d
  · obtain ⟨d, hd⟩ := hs
    rw [hd.ofName_eq]
    exact .name hd
  · rw [not_exists] at hs
    rw [ofName_of_unnamed hs]
    exact .otherName hs

theorem ofJson?_code (n : UInt64) :
    ofJson? (.number (.whole (.ofWord n))) = some (ofCode n.toNat) := by
  simp only [ofJson?, Whole.ofWord, Int.natCast_nonneg, if_true, Int.toNat_natCast]

/-- What is read as a datatype is what spells it, and nothing else. -/
theorem ofJson?_eq_some_iff {v : Json} {d : Datatype} : ofJson? v = some d ↔ Spells v d := by
  constructor
  · intro h
    cases v with
    | number n =>
      cases n with
      | whole w =>
        obtain ⟨hle, rfl⟩ : 0 ≤ w.val ∧ ofCode w.val.toNat = d := by simpa [ofJson?] using h
        -- a handle is read from the same numbers
        have hword : Json.number (.whole (.ofWord (.ofNat w.val.toNat))) = .number (.whole w) :=
          Handle.json_of_ofJson? (h := .number (.ofNat w.val.toNat)) (if_pos hle)
        have hread := ofJson?_code (.ofNat w.val.toNat)
        rw [hword, h] at hread
        have hspells := spells_ofCode (.ofNat w.val.toNat)
        rwa [hword, ← Option.some.inj hread] at hspells
      | real x => cases h
    | string s =>
      obtain rfl := Option.some.inj h
      exact spells_ofName s
    | null | bool _ | array _ | object _ => cases h
  · intro h
    cases h with
    | code hd => rw [ofJson?_code, ofCode_of_known hd]
    | otherCode hn => rw [ofJson?_code, ofCode_of_le hn]
    | name hd => exact congrArg some hd.ofName_eq
    | otherName hs => exact congrArg some (ofName_of_unnamed hs)

/-- A datatype that its name stands for. -/
def Canonical (d : Datatype) : Prop := ofName d.name = d

theorem canonical_of_known {d : Datatype} (h : d ∈ known) : d.Canonical := by
  have hknown : ∀ d ∈ known, ofName d.name = d := by decide
  exact hknown d h

theorem Names.mem_known {s : String} {d : Datatype} (h : Names s d) : d ∈ known := by
  cases h <;> decide

theorem Names.not_all_isDigit {s : String} {d : Datatype} (h : Names s d) :
    s.toList.all isDigit = false := by
  cases h <;> decide

/-- No known datatype has a number for its name. -/
theorem not_names_toString (n : Nat) (d : Datatype) : ¬ Names (toString n) d := by
  intro h
  have hdigits : toString n = String.ofList (digits n) :=
    (congrArg String.ofList (digits_eq_toDigits n)).symm
  have hall : (digits n).all isDigit = true := List.all_eq_true.2 fun _ => isDigit_of_mem_digits
  have hnot := h.not_all_isDigit
  rw [hdigits, String.toList_ofList, hall] at hnot
  cases hnot

theorem Spells.canonical {v : Json} {d : Datatype} (h : Spells v d) : d.Canonical := by
  cases h with
  | code hd => exact canonical_of_known (List.mem_of_getElem? hd)
  | name hd => exact canonical_of_known hd.mem_known
  | otherCode => exact ofName_of_unnamed (not_names_toString _)
  | otherName hs => exact ofName_of_unnamed hs

theorem Canonical.spells {d : Datatype} (h : d.Canonical) : Spells (.string d.name) d := by
  have hspells := spells_ofName d.name
  rwa [h] at hspells

/-- Just the datatypes that can be read are those that their names stand for. -/
theorem canonical_iff {d : Datatype} : d.Canonical ↔ ∃ v, ofJson? v = some d := by
  constructor
  · exact fun h => ⟨_, ofJson?_eq_some_iff.2 h.spells⟩
  · rintro ⟨v, hv⟩
    exact (ofJson?_eq_some_iff.1 hv).canonical

theorem Canonical.eq_iff {d e : Datatype} (hd : d.Canonical) (he : e.Canonical) :
    d = e ↔ d.name = e.name := by
  constructor
  · exact congrArg name
  · intro h
    rw [← hd, ← he, h]

/-- How datatypes are read, and told apart by their names. -/
structure WellNamed : Prop where
  spelled : ∀ v d, ofJson? v = some d ↔ Spells v d
  code : ∀ n : UInt64, ofName (ofCode n.toNat).name = ofCode n.toNat
  name : ∀ s, ofName (ofName s).name = ofName s
  /-- The name of a datatype is one of its spellings. -/
  respelled : ∀ v d, ofJson? v = some d → ofJson? (.string d.name) = some d
  injective : ∀ v w d e, ofJson? v = some d → ofJson? w = some e → (d = e ↔ d.name = e.name)

theorem wellNamed : WellNamed where
  spelled _ _ := ofJson?_eq_some_iff
  code n := (spells_ofCode n).canonical
  name s := (spells_ofName s).canonical
  respelled v _ hd := ofJson?_eq_some_iff.2 (canonical_iff.2 ⟨v, hd⟩).spells
  injective v w _ _ hd he := (canonical_iff.2 ⟨v, hd⟩).eq_iff (canonical_iff.2 ⟨w, he⟩)

end Datatype

namespace Entry

/-- The datatype of a descriptor, as it stands in the message. -/
def datatype? : Json → Option Json
  | .object ms => lastMember "datatype" none ms
  | .array vs => vs[2]?
  | _ => none

/-- The datatype is the third member of an array. -/
theorem datatype?_eq (entry : Json) : datatype? entry = member? "datatype" entry := by
  cases entry with
  | array vs =>
    obtain _ | ⟨a, _ | ⟨b, _ | ⟨c, vs⟩⟩⟩ := vs
    · rfl
    · rfl
    · rfl
    · have hrest : lastMember "datatype" (some c)
          (["description", "options", "value"].zip vs) = some c :=
        lastMember_zip (some c) (by decide) vs
      exact hrest.symm
  | null | bool _ | number _ | string _ | object _ => rfl

/-- The entry with its datatype spelled in another way, if it has room for one. -/
def respell (v : Json) : Json → Json
  | .object ms => .object (Members.insert "datatype" v ms)
  | .array vs => .array (vs.set 2 v)
  | entry => entry

/-- A null spells no datatype, and here it need not. -/
theorem optional_readDatatype {v : Json} {x : Option Datatype}
    (h : optional readDatatype v = .ok x) : x = Datatype.ofJson? v := by
  unfold optional at h
  split at h
  · cases h
    rfl
  · obtain ⟨t, ht, rfl⟩ := exists_of_map_eq_ok h
    rw [readDatatype] at ht
    split at ht
    · rename_i hread
      rw [hread, Except.ok.inj ht]
    · cases ht

end Entry

namespace Descriptor

/-- A draft whose datatype is what the JSON at hand spells. -/
def Draft.Typed (d : Draft) (o : Option Json) : Prop := d.datatype = o.bind Datatype.ofJson?

theorem Draft.Typed.put {d d' : Draft} {o : Option Json} (hd : d.Typed o) {m : String × Json}
    (h : d.put m = .ok d') : d'.Typed (if m.1 = "datatype" then some m.2 else o) := by
  obtain ⟨f, hf, rfl⟩ := put_eq_ok_iff.1 h
  cases hf with
  | datatype hx =>
    rw [if_pos rfl]
    exact optional_readDatatype hx
  | @unknown name v hname =>
    have hother : name ≠ "datatype" := by
      rintro rfl
      exact hname (by decide)
    rw [if_neg hother]
    exact hd
  | handle | name | description | options | value =>
    rw [if_neg (by simp)]
    exact hd

/-- The datatype of a descriptor is the one that is spelled in its entry. -/
theorem datatype?_of_ok {entry : Json} {d : Descriptor} (h : ofJson entry = .ok d) :
    d.datatype = (datatype? entry).bind Datatype.ofJson? := by
  obtain ⟨draft, hread, -, hdatatype⟩ := readDraft_of_ofJson h
  have htyped : draft.Typed (member? "datatype" entry) :=
    readDraft_invariant (fun _ _ _ _ hd hput => hd.put hput) rfl hread
  rw [datatype?_eq, ← hdatatype]
  exact htyped

theorem put_datatype (d : Draft) {v : Json} {t : Datatype} (h : Datatype.ofJson? v = some t) :
    d.put ("datatype", v) = .ok { d with datatype := some t } := by
  have hread : Entry.optional readDatatype v = .ok (some t) := by
    unfold Entry.optional
    split
    · cases h
    · rw [readDatatype, h]
      rfl
  exact Draft.put_eq_ok_iff.2 ⟨_, .datatype hread, rfl⟩

theorem foldlM_insert {v w : Json} (h : ∀ d, Draft.put d ("datatype", v) = d.put ("datatype", w))
    (ms : Members) (d : Draft) :
    (ms.insert "datatype" v).foldlM Draft.put d = (ms.insert "datatype" w).foldlM Draft.put d := by
  induction ms generalizing d with
  | nil => simp only [Members.insert, List.foldlM_cons, h]
  | cons m ms ih =>
    simp only [Members.insert]
    split
    · simp only [List.foldlM_cons, h]
    · split
      · simp only [List.foldlM_cons, h]
      · simp only [List.foldlM_cons, ih]

theorem foldlM_set {v w : Json} (h : ∀ d, Draft.put d ("datatype", v) = d.put ("datatype", w))
    (vs : List Json) (d : Draft) :
    (EntryKind.descriptor.members.zip (vs.set 2 v)).foldlM Draft.put d =
      (EntryKind.descriptor.members.zip (vs.set 2 w)).foldlM Draft.put d := by
  obtain _ | ⟨a, _ | ⟨b, _ | ⟨c, vs⟩⟩⟩ := vs
  · rfl
  · rfl
  · rfl
  · simp only [EntryKind.members, List.set_cons_succ, List.set_cons_zero, List.zip_cons_cons,
      List.foldlM_cons, h]

/-- In whatever way its datatype is spelled, an entry says the same. -/
theorem ofJson_respell {v w : Json} {t : Datatype} (hv : Datatype.ofJson? v = some t)
    (hw : Datatype.ofJson? w = some t) (entry : Json) :
    ofJson (respell v entry) = ofJson (respell w entry) := by
  have hput : ∀ d, Draft.put d ("datatype", v) = d.put ("datatype", w) := by
    intro d
    rw [put_datatype d hv, put_datatype d hw]
  have hread : readDraft (respell v entry) = readDraft (respell w entry) := by
    cases entry with
    | object ms => exact foldlM_insert hput ms {}
    | array vs =>
      have htake := foldlM_set hput vs {}
      have hempty : (vs.set 2 v).isEmpty = (vs.set 2 w).isEmpty := by
        cases vs <;> rfl
      simp only [respell, readDraft, Draft.take, htake, hempty, List.length_set]
    | null | bool _ | number _ | string _ => rfl
  rw [ofJson, ofJson, hread]

end Descriptor

end LivePanel
