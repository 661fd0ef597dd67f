import LivePanel.Proofs.Screen.Order
import LivePanel.Proofs.Session.Answers
import LivePanel.Proofs.Store.Endings

/-!
# Replies of a store

What a store replies to one arrival after another. An arrival is for one variable, and both what
becomes of the store and the reply hang on that variable alone. Main statements: `act_eq`,
`served` and `filter_reply`.
-/
namespace LivePanel

/-- The variable that a `hello` entry is for, if it can be read. -/
def Descriptor.target? (entry : Json) : Option Handle :=
  (Descriptor.ofJson entry).toOption.map Descriptor.handle

/-- The variable that a `refresh` entry is for, if it can be read. -/
def Assignment.target? (entry : Json) : Option Handle :=
  (Assignment.ofJson entry).toOption.map Assignment.handle

theorem Descriptor.target?_of_ok {entry : Json} {d : Descriptor} (h : ofJson entry = .ok d) :
    target? entry = some d.handle := by
  rw [target?, h]
  rfl

theorem Descriptor.target?_of_error {entry : Json} {e : Issue} (h : ofJson entry = .error e) :
    target? entry = none := by
  rw [target?, h]
  rfl

theorem Assignment.target?_of_ok {entry : Json} {e : Assignment} (h : ofJson entry = .ok e) :
    target? entry = some e.handle := by
  rw [target?, h]
  rfl

theorem Assignment.target?_of_error {entry : Json} {e : Issue} (h : ofJson entry = .error e) :
    target? entry = none := by
  rw [target?, h]
  rfl

variable {φ : Type} [FieldKind φ]

theorem Variable.Takes.handle?_told {v w : Variable φ} {x : Json}
    {r : Except Issue (Option Command)} (ht : v.Takes x (w, r)) :
    ∀ c ∈ Outcomes.told r, c.handle? = some v.handle := by
  cases ht with
  | kept | refused => simp [Outcomes.told]
  | shown => simp [Outcomes.told, Command.handle?]

omit [FieldKind φ] in
theorem Descriptor.Readies.handle_eq {d : Descriptor} {o : Option (Variable φ)} {w : Variable φ}
    (hw : d.Readies o w) (ho : ∀ v ∈ o, v.handle = d.handle) : w.handle = d.handle := by
  cases hw with
  | created hc => exact Variable.handle_create hc
  | @overwritten v _ => exact ho v rfl

theorem Descriptor.Ends.handle?_told {c : Catalog φ} {d : Descriptor}
    {o o' : Option (Variable φ)} {r : Except Issue (Option Command)} (he : d.Ends c o (o', r))
    (ho : ∀ v ∈ o, v.handle = d.handle) : ∀ x ∈ Outcomes.told r, x.handle? = some d.handle := by
  cases he with
  | incomplete | unclaimed | retyped | silent => simp [Outcomes.told]
  | rendered hw _ => simp [Outcomes.told, Command.handle?, Variable.view, hw.handle_eq ho]
  | @valued v _ _ _ _ _ _ ht =>
    rw [← ho v rfl]
    exact ht.handle?_told

theorem Assignment.Ends.handle?_told {e : Assignment} {o o' : Option (Variable φ)}
    {r : Except Issue (Option Command)} (he : e.Ends o (o', r))
    (ho : ∀ v ∈ o, v.handle = e.handle) : ∀ x ∈ Outcomes.told r, x.handle? = some e.handle := by
  cases he with
  | unknown => simp [Outcomes.told]
  | @valued v _ _ ht =>
    rw [← ho v rfl]
    exact ht.handle?_told

theorem Store.EditEnds.handle?_undone {h : Handle} {text : String} {o o' : Option (Variable φ)}
    {r : Except Store.Refusal Update} (he : EditEnds h text o (o', r)) :
    ∀ x ∈ undone r, x.handle? = some h := by
  cases he with
  | unknown | unrendered | accepted => simp [undone]
  | @refused _ _ _ _ told =>
    cases told <;> simp [undone, Command.handle?]

namespace Arrival

omit [FieldKind φ] in
/-- The variable that an arrival is for. -/
def target? : Arrival φ → Option Handle
  | .hello _ entry => Descriptor.target? entry
  | .refresh entry => Assignment.target? entry
  | .edit key _ => Handle.ofKey? key

/-- What an arrival makes of the variable that it is for, and what it tells of it. -/
def serve (o : Option (Variable φ)) : Arrival φ → Option (Variable φ) × List Command
  | .hello c entry =>
    match Descriptor.ofJson entry with
    | .ok d => (d.step c o).map id Outcomes.told
    | .error _ => (o, [])
  | .refresh entry =>
    match Assignment.ofJson entry with
    | .ok e => (e.step o).map id Outcomes.told
    | .error _ => (o, [])
  | .edit key text =>
    match Handle.ofKey? key with
    | some h => (Store.editStep h text o).map id Store.undone
    | none => (o, [])

/-- An arrival serves the variable it is for and leaves any other alone. -/
theorem act_eq (a : Arrival φ) (h : Handle) (o : Option (Variable φ)) :
    a.act h o = if a.target? = some h then (a.serve o).1 else o := by
  cases a with
  | hello c entry =>
    simp only [act, target?, serve]
    cases hd : Descriptor.ofJson entry with
    | error e => exact (ite_self o).symm
    | ok d => simp [Descriptor.target?_of_ok hd]
  | refresh entry =>
    simp only [act, target?, serve]
    cases he : Assignment.ofJson entry with
    | error e => exact (ite_self o).symm
    | ok e => simp [Assignment.target?_of_ok he]
  | edit key text =>
    simp only [act, target?, serve]
    by_cases hk : Handle.ofKey? key = some h <;> simp [hk]

/-- How a variable is served, by the kind of arrival. -/
inductive Served (h : Handle) (o : Option (Variable φ)) :
    Option (Variable φ) × List Command → Prop where
  | hello {c : Catalog φ} {d : Descriptor} {o' : Option (Variable φ)}
      {r : Except Issue (Option Command)} : d.handle = h → d.Ends c o (o', r) →
      Served h o (o', Outcomes.told r)
  | refresh {e : Assignment} {o' : Option (Variable φ)} {r : Except Issue (Option Command)} :
      e.handle = h → e.Ends o (o', r) → Served h o (o', Outcomes.told r)
  | edit {text : String} {o' : Option (Variable φ)} {r : Except Store.Refusal Update} :
      Store.EditEnds h text o (o', r) → Served h o (o', Store.undone r)

theorem served {a : Arrival φ} {h : Handle} (ha : a.target? = some h) (o : Option (Variable φ)) :
    Served h o (a.serve o) := by
  cases a with
  | hello c entry =>
    simp only [target?] at ha
    cases hd : Descriptor.ofJson entry with
    | error e => simp [Descriptor.target?_of_error hd] at ha
    | ok d =>
      have hh : d.handle = h := by simpa [Descriptor.target?_of_ok hd] using ha
      simp only [serve, hd]
      exact .hello hh (d.ends_step c o)
  | refresh entry =>
    simp only [target?] at ha
    cases he : Assignment.ofJson entry with
    | error e => simp [Assignment.target?_of_error he] at ha
    | ok e =>
      have hh : e.handle = h := by simpa [Assignment.target?_of_ok he] using ha
      simp only [serve, he]
      exact .refresh hh (e.ends_step o)
  | edit key text =>
    simp only [target?] at ha
    simp only [serve, ha]
    exact .edit (Store.ends_editStep h text o)

/-- Whatever is told is about the variable that is served. -/
theorem Served.handle?_told {h : Handle} {o o' : Option (Variable φ)} {cs : List Command}
    (hs : Served h o (o', cs)) (ho : ∀ v ∈ o, v.handle = h) :
    ∀ c ∈ cs, c.handle? = some h := by
  cases hs with
  | hello hh he => exact hh ▸ he.handle?_told (hh ▸ ho)
  | refresh hh he => exact hh ▸ he.handle?_told (hh ▸ ho)
  | edit he => exact he.handle?_undone

end Arrival

namespace Store

/-- The commands that an arrival is answered with. -/
def reply (s : Store φ) : Arrival φ → List Command
  | .hello c entry => Outcomes.told (s.helloEntry c entry).2
  | .refresh entry => Outcomes.told (s.refreshEntry entry).2
  | .edit key text => undone (s.edit key text).2

/-- The commands that answer some arrivals, in order. -/
def replies (s : Store φ) : List (Arrival φ) → List Command
  | [] => []
  | a :: as => s.reply a ++ (s.arrive a).replies as

theorem replies_append (s : Store φ) (as bs : List (Arrival φ)) :
    s.replies (as ++ bs) = s.replies as ++ (as.foldl arrive s).replies bs := by
  induction as generalizing s with
  | nil => rfl
  | cons a as ih => rw [List.cons_append, replies, ih, replies, List.append_assoc, List.foldl_cons]

/-- A key that spells a handle either names a variable or finds none. -/
theorem edit_of_key (s : Store φ) {key : String} {h : Handle} (hk : Handle.ofKey? key = some h)
    (text : String) : (s.edit key text).2 = (editStep h text (s.find? h)).2 := by
  by_cases hc : s.contains h = true
  · have hr : s.resolve? key = some h := (resolve?_eq_some_iff s key h).2 ⟨hk, hc⟩
    simp only [edit, hr, alter_snd]
  · have hr : s.resolve? key = none := by simp [resolve?, hk, hc]
    have hv : s.find? h = none := by
      rw [contains_eq] at hc
      simpa using hc
    simp only [edit, hr, hk, hv]
    rfl

/-- A key that spells no handle is refused, with nothing to restore. -/
theorem edit_of_no_key (s : Store φ) {key : String} (hk : Handle.ofKey? key = none)
    (text : String) : s.edit key text = (s, .error ⟨.noVariable (.text key), none⟩) := by
  have hr : s.resolve? key = none := by simp [resolve?, hk]
  simp only [edit, hr, hk]
  rfl

/-- A reply is what is told of the variable that the arrival is for. -/
theorem reply_eq (s : Store φ) (a : Arrival φ) :
    s.reply a = a.target?.elim [] fun h => (a.serve (s.find? h)).2 := by
  cases a with
  | hello c entry =>
    simp only [reply, helloEntry, Arrival.target?, Arrival.serve]
    cases hd : Descriptor.ofJson entry with
    | error e => rw [Descriptor.target?_of_error hd]; rfl
    | ok d =>
      rw [Descriptor.target?_of_ok hd]
      simp [alter_snd]
  | refresh entry =>
    simp only [reply, refreshEntry, Arrival.target?, Arrival.serve]
    cases he : Assignment.ofJson entry with
    | error e => rw [Assignment.target?_of_error he]; rfl
    | ok e =>
      rw [Assignment.target?_of_ok he]
      simp [alter_snd]
  | edit key text =>
    simp only [reply, Arrival.target?, Arrival.serve]
    cases hk : Handle.ofKey? key with
    | none => rw [edit_of_no_key s hk]; rfl
    | some h => rw [edit_of_key s hk]; rfl

/-- Of a reply, what names a variable is all or nothing. -/
theorem filter_reply {s : Store φ} (hs : s.Keyed) (a : Arrival φ) (h : Handle) :
    (s.reply a).filter (Command.names h) =
      if a.target? = some h then (a.serve (s.find? h)).2 else [] := by
  rw [reply_eq]
  cases ht : a.target? with
  | none => simp
  | some k =>
    have hnames : ∀ c ∈ (a.serve (s.find? k)).2, c.handle? = some k :=
      (Arrival.served ht (s.find? k)).handle?_told (hs k)
    by_cases hk : k = h
    · subst hk
      rw [if_pos rfl]
      exact List.filter_eq_self.2 fun c hc => decide_eq_true (hnames c hc)
    · rw [if_neg fun he => hk (Option.some.inj he)]
      refine List.filter_eq_nil_iff.2 fun c hc hn => hk ?_
      have hhandle : c.handle? = some h := of_decide_eq_true hn
      rw [hnames c hc] at hhandle
      exact Option.some.inj hhandle

/-- What answers a batch is what answers its entries. -/
theorem commands_batch {take : Store φ → Json → Store φ × Except Issue (Option Command)}
    {arrival : Json → Arrival φ} (hfst : ∀ s e, (take s e).1 = s.arrive (arrival e))
    (hsnd : ∀ s e, Outcomes.told (take s e).2 = s.reply (arrival e)) (s : Store φ)
    (entries : List Json) :
    Outcomes.commands (s.batch take entries).2 = s.replies (entries.map arrival) := by
  induction entries generalizing s with
  | nil => rfl
  | cons e es ih =>
    rw [batch, Outcomes.commands_cons, ih, hfst, hsnd]
    rfl

theorem commands_hello (c : Catalog φ) (s : Store φ) (entries : List Json) :
    (s.hello c entries).2.commands = s.replies (entries.map (.hello c)) :=
  commands_batch (fun _ _ => rfl) (fun _ _ => rfl) s entries

theorem commands_refresh (s : Store φ) (entries : List Json) :
    (s.refresh entries).2.commands = s.replies (entries.map .refresh) :=
  commands_batch (fun _ _ => rfl) (fun _ _ => rfl) s entries

theorem presents_reply (s : Store φ) (a : Arrival φ) :
    ∀ c ∈ s.reply a, c.presents?.isSome = true := by
  cases a with
  | hello c entry => exact presents_helloEntry c s entry
  | refresh entry => exact presents_refreshEntry s entry
  | edit key text => exact presents_undone s key text

theorem presents_replies (s : Store φ) (as : List (Arrival φ)) :
    ∀ c ∈ s.replies as, c.presents?.isSome = true := by
  induction as generalizing s with
  | nil => simp [replies]
  | cons a as ih =>
    intro c hc
    obtain hfirst | hrest := List.mem_append.1 hc
    · exact s.presents_reply a c hfirst
    · exact ih (s.arrive a) c hrest

end Store
end LivePanel
