import Mathlib.Algebra.BigOperators.Group.List.Basic
import Mathlib.Data.UInt
import LivePanel.Proofs.Session.Updates
import LivePanel.Proofs.Session.Waiting
import LivePanel.Proofs.Store.Accounting

/-!
# Counts

The tally of a session misses nothing: each message of the present connection is counted once, by what
it turns out to be, each edit once, as sent or as rejected, and each issue of a message. A count is a
word, so that it begins anew after 2^64 of a kind; before that it is exact. Main statements:
`tallies_take`, `tallies_play` and `nothing_uncounted`.
-/
namespace LivePanel

/-- What a message turns out to be. -/
inductive Message.Kind where
  | hello : Kind
  | refresh : Kind
  | malformed : Kind
  | unrecognized : Kind
  deriving DecidableEq

def Message.Kind.all : List Kind := [.hello, .refresh, .malformed, .unrecognized]

def Message.Kind.ofText (payload : String) : Kind :=
  match Message.ofText payload with
  | .error _ => .malformed
  | .ok (.hello _) => .hello
  | .ok (.refresh _) => .refresh
  | .ok (.unrecognized _) => .unrecognized

/-- The count of the messages of one kind. -/
def Tally.of (t : Tally) : Message.Kind → UInt64
  | .hello => t.hellos
  | .refresh => t.refreshes
  | .malformed => t.malformed
  | .unrecognized => t.unrecognized

/-- Words that count up to a number between them. -/
structure Totals (words : List UInt64) (n : Nat) : Prop where
  /-- Their sum is the number as far as a word holds it. -/
  wrapped : words.sum = .ofNat n
  /-- If a word holds it, the counts themselves add up to it. -/
  whole : n < UInt64.size → (words.map UInt64.toNat).sum = n

theorem totals_ofNat (counts : List Nat) : Totals (counts.map UInt64.ofNat) counts.sum := by
  induction counts with
  | nil => exact ⟨rfl, fun _ => rfl⟩
  | cons n ns ih =>
    constructor
    case wrapped => rw [List.map_cons, List.sum_cons, List.sum_cons, ih.wrapped, UInt64.ofNat_add]
    case whole =>
      intro hsum
      rw [List.sum_cons] at hsum
      have hn : n < UInt64.size := by omega
      have hns : ns.sum < UInt64.size := by omega
      rw [List.map_cons, List.map_cons, List.sum_cons, List.sum_cons, ih.whole hns,
        UInt64.toNat_ofNat_of_lt' hn]

/-- Two additions to a count are one. -/
theorem add_ofNat_add_ofNat (w : UInt64) (m n : Nat) :
    w + .ofNat m + .ofNat n = w + .ofNat (m + n) := by
  rw [UInt64.ofNat_add, UInt64.add_assoc]

theorem countP_cons_toNat {α : Type} (p : α → Bool) (a : α) (as : List α) :
    (a :: as).countP p = (p a).toNat + as.countP p := by
  rw [List.countP_cons, Nat.add_comm]
  cases p a with
  | true | false => rfl

/-- What has a kind has one only. -/
theorem sum_countP_kinds {α : Type} (kind? : α → Option Message.Kind) (as : List α) :
    (Message.Kind.all.map fun k => as.countP fun a => kind? a = some k).sum =
      as.countP fun a => (kind? a).isSome := by
  induction as with
  | nil => rfl
  | cons a as ih =>
    have hone : (Message.Kind.all.map fun k => if kind? a = some k then 1 else 0).sum =
        if (kind? a).isSome then 1 else 0 := by
      cases kind? a with
      | none => rfl
      | some k =>
        cases k with
        | hello | refresh | malformed | unrecognized => rfl
    simp only [List.countP_cons, decide_eq_true_eq, List.sum_map_add, ih, hone]

variable {φ : Type}

/-- Whether an input is an edit. -/
def Input.isEdit : Input φ → Bool
  | .event (.edit ..) => true
  | .event (.transport ..) | .event .reconnect | .event .shutdown | .register .. |
    .installNumeric => false

/-- What an input is as a message, if it is one of the present connection of a session. -/
def Session.kind? (s : Session φ) : Input φ → Option Message.Kind
  | .event (.transport generation (.message payload)) =>
    if s.link.owns generation then some (.ofText payload) else none
  | .event (.transport _ .opened) | .event (.transport _ .closed) |
    .event (.transport _ (.errored _)) | .event (.edit ..) | .event .reconnect | .event .shutdown |
    .register .. | .installNumeric => none

/-- Whether an input is a message of the present connection of a session. -/
def Session.heeds (s : Session φ) (i : Input φ) : Bool := (s.kind? i).isSome

variable [FieldKind φ]

/-- The issues of a batch. An edit is none. -/
def Store.issues (s : Store φ) : Delivery φ → List Issue
  | .hello c entries => (s.hello c entries).2.issues
  | .refresh entries => (s.refresh entries).2.issues
  | .edit .. => []

namespace Session

/-- The issues of the batch that an input brings, if it does. -/
def issues (s : Session φ) (i : Input φ) : List Issue := (s.delivery? i).elim [] s.store.issues

/-- Whether an input is an edit that is not sent. -/
def rejects (s : Session φ) (i : Input φ) : Bool := i.isEdit && (updates (s.take i).2).isEmpty

/-- What a session counts as it takes an input. -/
structure TalliesTake (s : Session φ) (i : Input φ) : Prop where
  messages : ∀ k, (s.take i).1.tally.of k =
    s.tally.of k + .ofNat (if s.kind? i = some k then 1 else 0)
  sent : (s.take i).1.tally.sent = s.tally.sent + .ofNat (updates (s.take i).2).length
  rejected : (s.take i).1.tally.rejected = s.tally.rejected + .ofNat (s.rejects i).toNat
  issues : (s.take i).1.tally.issues = s.tally.issues + .ofNat (s.issues i).length
  /-- An edit is sent or rejected, and never both. -/
  edits : (updates (s.take i).2).length + (s.rejects i).toNat = i.isEdit.toNat

/-- Nothing is counted of what sends no update and is neither a message nor an edit. -/
theorem tallies_of_tally_eq {s : Session φ} {i : Input φ} (ht : (s.take i).1.tally = s.tally)
    (hkind : s.kind? i = none) (hedit : i.isEdit = false) (hsent : updates (s.take i).2 = [])
    (hbatch : s.delivery? i = none) : s.TalliesTake i := by
  have hrejects : s.rejects i = false := by rw [rejects, hedit, Bool.false_and]
  constructor
  case messages =>
    intro k
    rw [ht, hkind, if_neg (by simp)]
    exact (UInt64.add_zero _).symm
  case sent =>
    rw [ht, hsent]
    exact (UInt64.add_zero _).symm
  case rejected =>
    rw [ht, hrejects]
    exact (UInt64.add_zero _).symm
  case issues =>
    rw [ht, issues, hbatch]
    exact (UInt64.add_zero _).symm
  case edits => rw [hsent, hrejects, hedit]; rfl

theorem tallies_reject {s t : Session φ} {key text : String} {cs : List Command}
    (htake : s.take (.event (.edit key text)) = t.reject cs) (ht : t.tally = s.tally)
    (hcs : updates cs = []) : s.TalliesTake (.event (.edit key text)) := by
  have hrejects : s.rejects (.event (.edit key text)) = true := by
    rw [rejects, htake, reject, hcs]
    rfl
  constructor
  case messages =>
    intro k
    rw [htake, reject, ht]
    cases k with
    | hello | refresh | malformed | unrecognized => exact (UInt64.add_zero _).symm
  case sent =>
    rw [htake, reject, ht, hcs]
    exact (UInt64.add_zero _).symm
  case rejected => rw [hrejects, htake, reject, ht]; rfl
  case issues =>
    rw [htake, reject, ht]
    exact (UInt64.add_zero _).symm
  case edits => rw [hrejects, htake, reject, hcs]; rfl

theorem tallies_edit (s : Session φ) (key text : String) :
    s.TalliesTake (.event (.edit key text)) := by
  have hundone := updates_of_presents (s.store.presents_undone key text)
  obtain ⟨refusal, hr, he⟩ | ⟨u, -, -, he⟩ | ⟨u, -, -, he⟩ := s.edit_cases key text
  · rw [hr] at hundone
    exact tallies_reject he rfl hundone
  · exact tallies_reject he rfl rfl
  · have htake : s.take (.event (.edit key text)) = _ := he
    have hrejects : s.rejects (.event (.edit key text)) = false := by
      rw [rejects, htake]
      rfl
    constructor
    case messages =>
      intro k
      rw [htake]
      cases k with
      | hello | refresh | malformed | unrecognized => exact (UInt64.add_zero _).symm
    case sent => rw [htake]; rfl
    case rejected =>
      rw [hrejects, htake]
      exact (UInt64.add_zero _).symm
    case issues =>
      rw [htake]
      exact (UInt64.add_zero _).symm
    case edits => rw [hrejects, htake]; rfl

/-- A message is counted by its kind. -/
theorem of_receive (s : Session φ) (payload : String) (k : Message.Kind) :
    (s.receive payload).1.tally.of k =
      s.tally.of k + .ofNat (if Message.Kind.ofText payload = k then 1 else 0) := by
  unfold receive Message.Kind.ofText
  cases Message.ofText payload with
  | error e =>
    cases k with
    | malformed => rfl
    | hello | refresh | unrecognized => exact (UInt64.add_zero _).symm
  | ok m =>
    cases m with
    | hello entries =>
      cases k with
      | hello => rfl
      | refresh | malformed | unrecognized => exact (UInt64.add_zero _).symm
    | refresh entries =>
      cases k with
      | refresh => rfl
      | hello | malformed | unrecognized => exact (UInt64.add_zero _).symm
    | unrecognized name =>
      cases k with
      | unrecognized => rfl
      | hello | refresh | malformed => exact (UInt64.add_zero _).symm

/-- A message counts no edit. -/
theorem tally_edits_receive (s : Session φ) (payload : String) :
    (s.receive payload).1.tally.sent = s.tally.sent ∧
      (s.receive payload).1.tally.rejected = s.tally.rejected := by
  unfold receive
  cases Message.ofText payload with
  | error e => exact ⟨rfl, rfl⟩
  | ok m =>
    cases m with
    | hello | refresh | unrecognized => exact ⟨rfl, rfl⟩

theorem tallies_message {s : Session φ} {generation : UInt64} (hs : s.link.owns generation = true)
    (payload : String) : s.TalliesTake (.event (.transport generation (.message payload))) := by
  have htake : s.take (.event (.transport generation (.message payload))) = s.receive payload := by
    simp only [take, step, report, if_pos hs]
  have hkind : s.kind? (.event (.transport generation (.message payload))) =
      some (.ofText payload) := if_pos hs
  have hrejects : s.rejects (.event (.transport generation (.message payload))) = false := rfl
  have hsent := updates_of_presents (s.presents_receive payload)
  obtain ⟨hsame, hsame'⟩ := s.tally_edits_receive payload
  constructor
  case messages =>
    intro k
    rw [htake, hkind, s.of_receive payload k]
    simp only [Option.some.injEq]
  case sent =>
    rw [htake, hsent, hsame]
    exact (UInt64.add_zero _).symm
  case rejected =>
    rw [htake, hrejects, hsame']
    exact (UInt64.add_zero _).symm
  case issues =>
    rw [htake, issues, delivery?, if_pos hs]
    unfold receive
    cases Message.ofText payload with
    | error e => exact (UInt64.add_zero _).symm
    | ok m =>
      cases m with
      | hello | refresh => rfl
      | unrecognized => exact (UInt64.add_zero _).symm
  case edits => rw [hrejects, htake, hsent]; rfl

/-- Whatever an input is, it is counted as what it is. -/
theorem tallies_take (s : Session φ) (i : Input φ) : s.TalliesTake i := by
  cases i with
  | register ds m => exact tallies_of_tally_eq rfl rfl rfl rfl rfl
  | installNumeric => exact tallies_of_tally_eq rfl rfl rfl rfl rfl
  | event e =>
    cases e with
    | shutdown => exact tallies_of_tally_eq rfl rfl rfl rfl rfl
    | reconnect =>
      refine tallies_of_tally_eq ?_ rfl rfl s.updates_dial rfl
      simp only [take, step, dial]
      split <;> rfl
    | edit key text => exact s.tallies_edit key text
    | transport generation report =>
      cases report with
      | opened | closed | errored reason =>
        exact tallies_of_tally_eq rfl rfl rfl (s.updates_settle _) rfl
      | message payload =>
        cases hs : s.link.owns generation with
        | true => exact tallies_message hs payload
        | false =>
          have htake : s.take (.event (.transport generation (.message payload))) = (s, []) :=
            s.report_foreign hs (.message payload)
          refine tallies_of_tally_eq ?_ ?_ rfl ?_ ?_
          · rw [htake]
          · simp [kind?, hs]
          · rw [htake]; rfl
          · simp [delivery?, hs]

/-- Each input of a run with the session that takes it. -/
def met (s : Session φ) : List (Input φ) → List (Session φ × Input φ)
  | [] => []
  | i :: is => (s, i) :: (s.take i).1.met is

/-- How the tally of a session has grown over a run. -/
structure Tallies (s : Session φ) (inputs : List (Input φ)) : Prop where
  messages : ∀ k, (s.play inputs).1.tally.of k =
    s.tally.of k + .ofNat ((s.met inputs).countP fun m => m.1.kind? m.2 = some k)
  sent : (s.play inputs).1.tally.sent =
    s.tally.sent + .ofNat (updates (commands (s.play inputs).2)).length
  rejected : (s.play inputs).1.tally.rejected =
    s.tally.rejected + .ofNat ((s.met inputs).countP fun m => m.1.rejects m.2)
  issues : (s.play inputs).1.tally.issues =
    s.tally.issues + .ofNat ((s.met inputs).flatMap fun m => m.1.issues m.2).length
  edits : (updates (commands (s.play inputs).2)).length +
    ((s.met inputs).countP fun m => m.1.rejects m.2) = inputs.countP Input.isEdit

theorem tallies_play (s : Session φ) (inputs : List (Input φ)) : s.Tallies inputs := by
  induction inputs generalizing s with
  | nil =>
    constructor
    case messages => exact fun k => (UInt64.add_zero _).symm
    case sent | rejected | issues => exact (UInt64.add_zero _).symm
    case edits => rfl
  | cons i is ih =>
    have hfirst := s.tallies_take i
    have hrest := ih (s.take i).1
    constructor
    case messages =>
      intro k
      rw [play, hrest.messages k, hfirst.messages k, add_ofNat_add_ofNat, met, List.countP_cons,
        Nat.add_comm]
      simp only [decide_eq_true_eq]
    case sent =>
      rw [commands_play_cons, updates_append, List.length_append, play, hrest.sent, hfirst.sent,
        add_ofNat_add_ofNat]
    case rejected =>
      rw [play, met, countP_cons_toNat, hrest.rejected, hfirst.rejected, add_ofNat_add_ofNat]
    case issues =>
      rw [play, met, List.flatMap_cons, List.length_append, hrest.issues, hfirst.issues,
        add_ofNat_add_ofNat]
    case edits =>
      have hone := hfirst.edits
      have hmore := hrest.edits
      simp only [commands_play_cons, updates_append, List.length_append, met, countP_cons_toNat]
      omega

/-- How a session accounts for what it takes. -/
structure Accounts (s : Session φ) (inputs : List (Input φ)) : Prop where
  messages : Totals
    [(s.play inputs).1.tally.hellos, (s.play inputs).1.tally.refreshes,
      (s.play inputs).1.tally.malformed, (s.play inputs).1.tally.unrecognized]
    ((s.met inputs).countP fun m => m.1.heeds m.2)
  /-- A message is counted as what it turns out to be. -/
  kinds : ∀ k, Totals [(s.play inputs).1.tally.of k]
    ((s.met inputs).countP fun m => m.1.kind? m.2 = some k)
  edits : Totals [(s.play inputs).1.tally.sent, (s.play inputs).1.tally.rejected]
    (inputs.countP Input.isEdit)
  sent : Totals [(s.play inputs).1.tally.sent] (updates (commands (s.play inputs).2)).length
  issues : Totals [(s.play inputs).1.tally.issues]
    ((s.met inputs).flatMap fun m => m.1.issues m.2).length
  /-- A session meets each input as the inputs before it have left it. -/
  met : ∀ earlier i later, inputs = earlier ++ i :: later →
    (s.met inputs)[earlier.length]? = some ((s.play earlier).1, i)

theorem getElem?_met (s : Session φ) (earlier : List (Input φ)) (i : Input φ)
    (later : List (Input φ)) :
    (s.met (earlier ++ i :: later))[earlier.length]? = some ((s.play earlier).1, i) := by
  induction earlier generalizing s with
  | nil => rfl
  | cons j earlier ih => exact ih (s.take j).1

theorem accounts_of_fresh {s : Session φ} (hs : s.tally = {}) (inputs : List (Input φ)) :
    s.Accounts inputs := by
  have hcounts := s.tallies_play inputs
  have hkind : ∀ k, (s.play inputs).1.tally.of k =
      .ofNat ((s.met inputs).countP fun m => m.1.kind? m.2 = some k) := by
    intro k
    rw [hcounts.messages k, hs]
    cases k with
    | hello | refresh | malformed | unrecognized => exact UInt64.zero_add _
  have hsent : (s.play inputs).1.tally.sent =
      .ofNat (updates (commands (s.play inputs).2)).length := by
    rw [hcounts.sent, hs]
    exact UInt64.zero_add _
  have hrejected : (s.play inputs).1.tally.rejected =
      .ofNat ((s.met inputs).countP fun m => m.1.rejects m.2) := by
    rw [hcounts.rejected, hs]
    exact UInt64.zero_add _
  have hissues : (s.play inputs).1.tally.issues =
      .ofNat ((s.met inputs).flatMap fun m => m.1.issues m.2).length := by
    rw [hcounts.issues, hs]
    exact UInt64.zero_add _
  constructor
  case messages =>
    have hkinds : Message.Kind.all.map (s.play inputs).1.tally.of =
        (Message.Kind.all.map fun k =>
          (s.met inputs).countP fun m => m.1.kind? m.2 = some k).map UInt64.ofNat := by
      rw [List.map_map]
      exact List.map_congr_left fun k _ => hkind k
    have hsum := sum_countP_kinds (fun m : Session φ × Input φ => m.1.kind? m.2) (s.met inputs)
    change Totals (Message.Kind.all.map (s.play inputs).1.tally.of) _
    rw [hkinds]
    exact hsum ▸ totals_ofNat _
  case kinds =>
    intro k
    rw [hkind k]
    exact totals_ofNat [_]
  case edits =>
    rw [hsent, hrejected, ← hcounts.edits]
    exact totals_ofNat [_, _]
  case sent =>
    rw [hsent]
    exact totals_ofNat [_]
  case issues =>
    rw [hissues]
    exact totals_ofNat [_]
  case met =>
    rintro earlier i later rfl
    exact s.getElem?_met earlier i later

end Session

/-- Nothing goes uncounted. Over any run the messages of the connections that were present add up, as
do the edits, the updates sent and the issues; and in any batch so do the entries, which come to a
command, to an issue, or to nothing. -/
theorem nothing_uncounted (c : Catalog φ) (url : String) (inputs : List (Input φ)) :
    (Session.new c url).Accounts inputs ∧
      ∀ (s : Store φ) (entries : List Json),
        (∀ d, s.Accounts (Store.helloEntry d) Store.mutedHello entries) ∧
          s.Accounts Store.refreshEntry Store.mutedRefresh entries :=
  ⟨Session.accounts_of_fresh rfl inputs, fun s entries =>
    ⟨fun d => s.accounts_hello d entries, s.accounts_refresh entries⟩⟩

/-- The second `hello` comes to nothing, and the edit comes before the connection is open. -/
example :
    ((Session.new (Catalog.withNumeric : Catalog Empty) "ws://h").play
      [.event .reconnect,
        .event (.transport 1 (.message "\x7b\"type\":\"hello\",\"vars\":[[1,null,\"int\"]]\x7d")),
        .event (.transport 1 (.message "\x7b\"type\":\"hello\",\"vars\":[[1,null,\"int\"]]\x7d")),
        .event (.transport 1 (.message "hello")), .event (.transport 2 (.message "hello")),
        .event (.edit "n:1" "2")]).1.tally =
      { hellos := 2, malformed := 1, rejected := 1 } := by
  decide +kernel

end LivePanel
