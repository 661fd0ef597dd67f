import LivePanel.Proofs.Store.Replies

/-!
# Isolation

The variables of a store do not meet. What a batch makes of one of them, and what is told of it, is
what the entries for this variable alone would have made of it. Main statements:
`find?_foldl_aimed`, `filter_replies` and `batches_isolated`.
-/
namespace LivePanel

namespace Table

variable {κ ν : Type} [DecidableEq κ]

/-- Tables in which the same keys are found have one size. -/
theorem size_eq_of_find?_eq {t u : Table κ ν} (h : ∀ k, t.find? k = u.find? k) :
    t.size = u.size := by
  have hmem : ∀ k, k ∈ t.keys ↔ k ∈ u.keys := by
    intro k
    rw [mem_keys_iff, mem_keys_iff, contains, contains, h]
  have hperm : t.keys.Perm u.keys :=
    (List.perm_ext_iff_of_nodup t.keys_nodup u.keys_nodup).2 hmem
  rw [← length_keys, ← length_keys, hperm.length_eq]

end Table

variable {φ : Type} [FieldKind φ]

namespace Store

variable {s t : Store φ} {h : Handle}

/-- An arrival does the same to a variable in any store that has it. -/
theorem find?_arrive_congr (hst : s.find? h = t.find? h) (a : Arrival φ) :
    (s.arrive a).find? h = (t.arrive a).find? h := by
  rw [find?_arrive, find?_arrive, hst]

theorem find?_arrive_of_ne {a : Arrival φ} (ha : a.target? ≠ some h) :
    (s.arrive a).find? h = s.find? h := by
  rw [find?_arrive, Arrival.act_eq, if_neg ha]

/-- A variable is what the arrivals for it make of it, whatever else the store holds. -/
theorem find?_foldl_aimed (hst : s.find? h = t.find? h) (as : List (Arrival φ)) :
    (as.foldl arrive s).find? h =
      ((as.filter fun a => a.target? = some h).foldl arrive t).find? h := by
  induction as generalizing s t with
  | nil => exact hst
  | cons a as ih =>
    by_cases ha : a.target? = some h
    · rw [List.filter_cons_of_pos (by simpa using ha), List.foldl_cons, List.foldl_cons]
      exact ih (find?_arrive_congr hst a)
    · rw [List.filter_cons_of_neg (by simpa using ha), List.foldl_cons]
      exact ih ((find?_arrive_of_ne ha).trans hst)

/-- What is told of a variable replies to the arrivals for it, and to nothing else. -/
theorem filter_replies (hs : s.Keyed) (ht : t.Keyed) (hst : s.find? h = t.find? h)
    (as : List (Arrival φ)) :
    (s.replies as).filter (Command.names h) =
      t.replies (as.filter fun a => a.target? = some h) := by
  induction as generalizing s t with
  | nil => rfl
  | cons a as ih =>
    rw [replies, List.filter_append, filter_reply hs]
    by_cases ha : a.target? = some h
    · -- both stores take it, and go on with one variable under the handle
      rw [List.filter_cons_of_pos (by simpa using ha), replies, reply_eq t, ha, if_pos rfl,
        Option.elim_some, hst, ih (hs.arrive a) (ht.arrive a) (find?_arrive_congr hst a)]
    · rw [List.filter_cons_of_neg (by simpa using ha), if_neg ha, List.nil_append,
        ih (hs.arrive a) ht ((find?_arrive_of_ne ha).trans hst)]

/-- What is for no variable changes nothing. -/
theorem arrive_of_no_target {a : Arrival φ} (ha : a.target? = none) : s.arrive a = s := by
  cases a with
  | hello c entry =>
    cases hd : Descriptor.ofJson entry with
    | error e => simp only [arrive, helloEntry, hd]
    | ok d => simp [Arrival.target?, Descriptor.target?_of_ok hd] at ha
  | refresh entry =>
    cases he : Assignment.ofJson entry with
    | error e => simp only [arrive, refreshEntry, he]
    | ok e => simp [Arrival.target?, Assignment.target?_of_ok he] at ha
  | edit key text =>
    simp only [arrive, edit_of_no_key s ha]

theorem reply_of_no_target {a : Arrival φ} (ha : a.target? = none) : s.reply a = [] := by
  rw [reply_eq, ha]
  rfl

end Store

/-- How the entries of a batch, each for the variable that `target?` tells, keep to their variables.
The batch makes a store and commands. -/
structure Isolated (target? : Json → Option Handle) (take : List Json → Store φ × List Command) :
    Prop where
  /-- The entries for a variable decide what becomes of it and what is told of it. -/
  own : ∀ h entries,
    (take entries).1.find? h =
      (take (entries.filter fun e => target? e = some h)).1.find? h ∧
    (take entries).2.filter (Command.names h) =
      (take (entries.filter fun e => target? e = some h)).2
  /-- What cannot be read might as well not be there. -/
  unread : ∀ before e after, target? e = none → take (before ++ e :: after) = take (before ++ after)
  /-- An entry for another variable does not matter, whether it fails or not. -/
  foreign : ∀ before e after h, target? e ≠ some h →
    (take (before ++ e :: after)).1.find? h = (take (before ++ after)).1.find? h ∧
    (take (before ++ e :: after)).2.filter (Command.names h) =
      (take (before ++ after)).2.filter (Command.names h)
  /-- Entries that keep their order for each variable make one store in any order. -/
  reordered : ∀ entries entries',
    (∀ h, entries.filter (fun e => target? e = some h) =
      entries'.filter fun e => target? e = some h) →
    (∀ h, (take entries).1.find? h = (take entries').1.find? h) ∧
      (take entries).1.size = (take entries').1.size

/-- A batch keeps to its variables if it takes its entries as arrivals one after another. -/
theorem isolated_of_arrivals {s : Store φ} (hs : s.Keyed) {target? : Json → Option Handle}
    (arrival : Json → Arrival φ) (htarget : ∀ e, (arrival e).target? = target? e)
    {take : List Json → Store φ × List Command}
    (htake : ∀ entries, take entries =
      ((entries.map arrival).foldl Store.arrive s, s.replies (entries.map arrival))) :
    Isolated target? take := by
  have haimed : ∀ (h : Handle) (entries : List Json),
      ((entries.map arrival).filter fun a => a.target? = some h) =
        (entries.filter fun e => target? e = some h).map arrival := by
    intro h entries
    simp only [List.filter_map, Function.comp_def, htarget]
  have hown : ∀ h entries,
      (take entries).1.find? h =
        (take (entries.filter fun e => target? e = some h)).1.find? h ∧
      (take entries).2.filter (Command.names h) =
        (take (entries.filter fun e => target? e = some h)).2 := by
    intro h entries
    rw [htake, htake, ← haimed]
    exact ⟨Store.find?_foldl_aimed rfl _, Store.filter_replies hs hs rfl _⟩
  have hreordered : ∀ h entries entries',
      entries.filter (fun e => target? e = some h) = entries'.filter (fun e => target? e = some h) →
      (take entries).1.find? h = (take entries').1.find? h ∧
      (take entries).2.filter (Command.names h) = (take entries').2.filter (Command.names h) := by
    intro h entries entries' he
    rw [(hown h entries).1, (hown h entries).2, (hown h entries').1, (hown h entries').2, he]
    exact ⟨rfl, rfl⟩
  constructor
  case own => exact hown
  case unread =>
    intro before e after he
    have hnone : (arrival e).target? = none := (htarget e).trans he
    simp only [htake, List.map_append, List.map_cons, List.foldl_append, List.foldl_cons,
      Store.replies_append, Store.replies, Store.arrive_of_no_target hnone,
      Store.reply_of_no_target hnone, List.nil_append]
  case foreign =>
    intro before e after h he
    refine hreordered h _ _ ?_
    rw [List.filter_append, List.filter_append, List.filter_cons_of_neg (by simpa using he)]
  case reordered =>
    intro entries entries' he
    have hfind := fun h => (hreordered h entries entries' (he h)).1
    exact ⟨hfind, Table.size_eq_of_find?_eq hfind⟩

/-- Variables do not interfere. In a store where each variable has its own handle, as in any that
deliveries make, neither batch lets an entry reach a variable that it is not for. -/
theorem batches_isolated (c : Catalog φ) {s : Store φ} (hs : s.Keyed) :
    Isolated Descriptor.target? (fun entries => (s.hello c entries).map id Outcomes.commands) ∧
      Isolated Assignment.target?
        (fun entries => (s.refresh entries).map id Outcomes.commands) := by
  constructor
  · refine isolated_of_arrivals hs (.hello c) (fun _ => rfl) fun entries => ?_
    exact Prod.ext (s.deliver_eq_foldl (.hello c entries)) (s.commands_hello c entries)
  · refine isolated_of_arrivals hs .refresh (fun _ => rfl) fun entries => ?_
    exact Prod.ext (s.deliver_eq_foldl (.refresh entries)) (s.commands_refresh entries)

/-- A number and a text that look alike, each with a variable. -/
def lookalikes : Store Empty :=
  Store.empty.deliver (.hello .withNumeric
    [.array [(Handle.number 5).json, .null, .string "int"],
      .array [(Handle.text "5").json, .null, .string "float"]])

/-- A value reaches the text handle after an entry that cannot be read and one that the number
refuses. -/
theorem batches_isolated_lookalikes :
    lookalikes.Keyed ∧
      Isolated Descriptor.target?
        (fun entries => (lookalikes.hello .withNumeric entries).map id Outcomes.commands) ∧
      Isolated Assignment.target?
        (fun entries => (lookalikes.refresh entries).map id Outcomes.commands) ∧
      (lookalikes.refresh
        [.null, .array [(Handle.number 5).json, .string "x"],
          .array [(Handle.text "5").json, (Handle.number 7).json]]).2.commands.map
        Command.presents? = [some (.text "5", "7")] :=
  have hkeyed : lookalikes.Keyed := Store.keyed_empty.deliver _
  ⟨hkeyed, (batches_isolated .withNumeric hkeyed).1, (batches_isolated .withNumeric hkeyed).2,
    by decide +kernel⟩

end LivePanel
