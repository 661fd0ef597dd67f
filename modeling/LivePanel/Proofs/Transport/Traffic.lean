import LivePanel.Proofs.Window.Transports

/-!
# Texts on their way to a transport

A session offers texts to the queue of a transport, which receives them and may leave at any time. In
whatever order this happens, what is received is what was accepted, in the same order, and a text that
is not accepted either found no room and is counted, or found nobody. Main statements:
`Balanced.run`, `Alike.run` and `offers_accounted`.
-/
namespace LivePanel.Outbox

/-- What can happen to a queue. -/
inductive Move (α : Type) where
  | offer : α → Move α
  /-- The transport receives, if there is something to receive. -/
  | take : Move α
  /-- The transport leaves. -/
  | close : Move α

namespace Move

def map {α β : Type} (f : α → β) : Move α → Move β
  | .offer a => .offer (f a)
  | .take => .take
  | .close => .close

def offered? {α : Type} : Move α → Option α
  | .offer a => some a
  | .take | .close => none

end Move

/-- A queue in use, and what has become of the texts that were offered to it. -/
structure Traffic where
  queue : Outbox
  /-- How many texts were lost for want of room, those of earlier queues included. -/
  lost : UInt64
  /-- What was offered, and what came of it. -/
  offers : List (String × Offer) := []
  received : List String := []
  /-- What was still queued when the transport left. -/
  abandoned : List String := []

namespace Traffic

def new (capacity : Nat) (lost : UInt64) : Traffic := { queue := { capacity }, lost }

def step (t : Traffic) : Move String → Traffic
  | .offer text =>
    let (queue, outcome) := t.queue.offer text
    { t with queue, lost := countLoss t.lost outcome, offers := t.offers ++ [(text, outcome)] }
  | .take =>
    let (queue, text) := t.queue.take
    { t with queue, received := t.received ++ text.toList }
  | .close => { t with queue := t.queue.close, abandoned := t.abandoned ++ t.queue.queued }

def run (t : Traffic) (moves : List (Move String)) : Traffic := moves.foldl step t

/-- The texts whose offers ended in one way. -/
def offered (t : Traffic) (outcome : Offer) : List String :=
  (t.offers.filter (·.2 = outcome)).map Prod.fst

/-- The traffic with one offer more. -/
def note (t : Traffic) (text : String) (outcome : Offer) : Traffic :=
  { t with offers := t.offers ++ [(text, outcome)] }

theorem offered_note (t : Traffic) (text : String) (outcome o : Offer) :
    (t.note text outcome).offered o = t.offered o ++ if outcome = o then [text] else [] := by
  by_cases ho : outcome = o <;> simp [offered, note, List.filter_append, ho]

/-- The traffic of a queue of some capacity, before which some texts had been lost. -/
structure Balanced (capacity : Nat) (lost : UInt64) (t : Traffic) : Prop where
  holds : t.queue.capacity = capacity
  /-- What was received, and then what is queued, is what was accepted. What was queued when the
  transport left stands in its place. -/
  order : t.offered .accepted = t.received ++ (t.abandoned ++ t.queue.queued)
  room : t.queue.queued.length ≤ capacity
  present : t.queue.receiving = true → t.abandoned = []
  absent : t.queue.receiving = false → t.queue.queued = []
  /-- Lost are the texts that found no room, and they alone. -/
  counted : t.lost = lost + .ofNat (t.offered .full).length

/-- What comes of an offer. -/
inductive Offers (t : Traffic) (text : String) : Traffic → Prop where
  | accepted : t.queue.receiving = true → t.queue.queued.length < t.queue.capacity →
      Offers t text
        { t.note text .accepted with queue := { t.queue with queued := t.queue.queued ++ [text] } }
  | full : t.queue.receiving = true → t.queue.queued.length = t.queue.capacity →
      Offers t text { t.note text .full with lost := t.lost + 1 }
  | gone : t.queue.receiving = false → Offers t text (t.note text .gone)

variable {capacity : Nat} {lost : UInt64} {t : Traffic}

theorem balanced_new (capacity : Nat) (lost : UInt64) :
    (new capacity lost).Balanced capacity lost where
  holds := rfl
  order := rfl
  room := Nat.zero_le _
  present _ := rfl
  absent _ := rfl
  counted := (UInt64.add_zero lost).symm

theorem Balanced.offers (ht : t.Balanced capacity lost) (text : String) :
    t.Offers text (t.step (.offer text)) := by
  cases hreceiving : t.queue.receiving with
  | false =>
    have hstep : t.step (.offer text) = t.note text .gone := by
      simp [step, offer, hreceiving, countLoss, note]
    rw [hstep]
    exact .gone hreceiving
  | true =>
    by_cases hroom : t.queue.queued.length < t.queue.capacity
    · have hstep : t.step (.offer text) = { t.note text .accepted with
          queue := { t.queue with queued := t.queue.queued ++ [text] } } := by
        simp [step, offer, hreceiving, hroom, countLoss, note]
      rw [hstep]
      exact .accepted hreceiving hroom
    · have hstep : t.step (.offer text) = { t.note text .full with lost := t.lost + 1 } := by
        simp [step, offer, hreceiving, hroom, countLoss, note]
      rw [hstep]
      exact .full hreceiving (Nat.le_antisymm (ht.holds ▸ ht.room) (Nat.not_lt.1 hroom))

theorem Balanced.offer (ht : t.Balanced capacity lost) (text : String) :
    (t.step (.offer text)).Balanced capacity lost := by
  have hoffers := ht.offers text
  generalize t.step (.offer text) = u at hoffers ⊢
  cases hoffers with
  | accepted hreceiving hfree =>
    rw [ht.holds] at hfree
    refine { ht with order := ?_, room := ?_, absent := ?_, counted := ?_ }
    · show (t.note text .accepted).offered .accepted = _
      rw [offered_note, if_pos rfl, ht.order]
      simp [note]
    · rw [List.length_append, List.length_singleton]
      exact hfree
    · exact fun hgone => absurd (hreceiving.symm.trans hgone) (by decide)
    · show t.lost = lost + .ofNat ((t.note text .accepted).offered .full).length
      rw [offered_note, if_neg (by decide), List.append_nil, ht.counted]
  | full hreceiving hfull =>
    refine { ht with order := ?_, counted := ?_ }
    · show (t.note text .full).offered .accepted = _
      rw [offered_note, if_neg (by decide), List.append_nil, ht.order]
      rfl
    · show t.lost + 1 = lost + .ofNat ((t.note text .full).offered .full).length
      rw [offered_note, if_pos rfl, List.length_append, List.length_singleton, ht.counted,
        UInt64.ofNat_add, UInt64.add_assoc]
      rfl
  | gone hgone =>
    refine { ht with order := ?_, counted := ?_ }
    · rw [offered_note, if_neg (by decide), List.append_nil, ht.order]
      rfl
    · rw [offered_note, if_neg (by decide), List.append_nil]
      exact ht.counted

theorem Balanced.take (ht : t.Balanced capacity lost) : (t.step .take).Balanced capacity lost := by
  cases hqueued : t.queue.queued with
  | nil =>
    have hstep : t.step .take = t := by simp [step, Outbox.take, hqueued]
    rw [hstep]
    exact ht
  | cons text rest =>
    have hreceiving : t.queue.receiving = true := by
      refine Bool.of_not_eq_false fun hgone => ?_
      rw [ht.absent hgone] at hqueued
      cases hqueued
    have hstep : t.step .take = { t with
        queue := { t.queue with queued := rest }, received := t.received ++ [text] } := by
      simp [step, Outbox.take, hqueued]
    have horder := ht.order
    have hroom := ht.room
    rw [ht.present hreceiving, hqueued] at horder
    rw [hqueued] at hroom
    rw [hstep]
    refine { ht with order := ?_, room := Nat.le_of_succ_le hroom, absent := ?_ }
    · show t.offered .accepted = t.received ++ [text] ++ (t.abandoned ++ rest)
      rw [horder, ht.present hreceiving]
      simp
    · exact fun hgone => absurd (hreceiving.symm.trans hgone) (by decide)

theorem Balanced.close (ht : t.Balanced capacity lost) :
    (t.step .close).Balanced capacity lost := by
  refine { ht with order := ?_, room := Nat.zero_le _, present := nofun, absent := fun _ => rfl }
  show t.offered .accepted = t.received ++ (t.abandoned ++ t.queue.queued ++ [])
  rw [List.append_nil]
  exact ht.order

theorem Balanced.step (ht : t.Balanced capacity lost) (m : Move String) :
    (t.step m).Balanced capacity lost := by
  cases m with
  | offer text => exact ht.offer text
  | take => exact ht.take
  | close => exact ht.close

theorem Balanced.run (ht : t.Balanced capacity lost) (moves : List (Move String)) :
    (t.run moves).Balanced capacity lost := by
  induction moves generalizing t with
  | nil => exact ht
  | cons m moves ih => exact ih (ht.step m)

theorem Balanced.toNat_lost (ht : t.Balanced capacity lost)
    (hlost : lost.toNat + (t.offered .full).length < UInt64.size) :
    t.lost.toNat = lost.toNat + (t.offered .full).length := by
  rw [ht.counted, UInt64.toNat_add, UInt64.toNat_ofNat', Nat.add_mod_mod]
  exact Nat.mod_eq_of_lt hlost

/-- Each offer is noted. -/
theorem offers_run (t : Traffic) (moves : List (Move String)) :
    (t.run moves).offers.map Prod.fst = t.offers.map Prod.fst ++ moves.filterMap Move.offered? := by
  induction moves generalizing t with
  | nil => simp [Traffic.run]
  | cons m moves ih =>
    show ((t.step m).run moves).offers.map Prod.fst = _
    rw [ih]
    cases m with
    | offer text => simp [Traffic.step, Move.offered?]
    | take | close => rfl

/-- Traffic that is the same but for offers that were refused. -/
structure Alike (t u : Traffic) : Prop where
  queue : u.queue = t.queue
  accepted : u.offered .accepted = t.offered .accepted
  received : u.received = t.received
  abandoned : u.abandoned = t.abandoned

theorem Alike.step {u : Traffic} (h : Alike t u) (m : Move String) : Alike (t.step m) (u.step m) := by
  obtain ⟨hqueue, haccepted, hreceived, habandoned⟩ := h
  cases m with
  | offer text =>
    constructor
    case queue => simp only [Traffic.step, hqueue]
    case accepted =>
      show (u.note text _).offered _ = (t.note text _).offered _
      rw [offered_note, offered_note, haccepted, hqueue]
    case received => exact hreceived
    case abandoned => exact habandoned
  | take =>
    constructor
    case queue => simp only [Traffic.step, hqueue]
    case accepted => exact haccepted
    case received => simp only [Traffic.step, hqueue, hreceived]
    case abandoned => exact habandoned
  | close =>
    constructor
    case queue => simp only [Traffic.step, hqueue]
    case accepted => exact haccepted
    case received => exact hreceived
    case abandoned => simp only [Traffic.step, hqueue, habandoned]

theorem Alike.run {u : Traffic} (h : Alike t u) (moves : List (Move String)) :
    Alike (t.run moves) (u.run moves) := by
  induction moves generalizing t u with
  | nil => exact h
  | cons m moves ih => exact ih (h.step m)

/-- An offer that is refused leaves the queue as it was. -/
theorem Balanced.alike_of_refused (ht : t.Balanced capacity lost) {text : String}
    (h : (t.queue.offer text).2 ≠ .accepted) : t.Alike (t.step (.offer text)) := by
  have hnote : ∀ outcome, outcome ≠ .accepted →
      (t.note text outcome).offered .accepted = t.offered .accepted := by
    intro outcome hne
    rw [offered_note, if_neg hne, List.append_nil]
  have hoffers := ht.offers text
  generalize t.step (.offer text) = u at hoffers ⊢
  cases hoffers with
  | accepted hreceiving hfree => simp [Outbox.offer, hreceiving, hfree] at h
  | full => exact ⟨rfl, hnote .full (by decide), rfl, rfl⟩
  | gone => exact ⟨rfl, hnote .gone (by decide), rfl, rfl⟩

end Outbox.Traffic

namespace Host

open Outbox

/-- A host whose transport has the queue of some traffic. -/
def carrying (h : Host) (g : UInt64) (t : Traffic) : Host :=
  { h with transport := some ⟨g, t.queue⟩, lost := t.lost }

/-- What happens to the queue: the host sends an update, or its transport does something. -/
def undergo (h : Host) : Move Update → Host
  | .offer u => h.send u
  | .take => h.atOutbox fun q => q.take.1
  | .close => h.atOutbox close

theorem undergo_carrying (h : Host) (g : UInt64) (t : Traffic) (m : Move Update) :
    (h.carrying g t).undergo m = h.carrying g (t.step (m.map Update.text)) := by
  cases m <;> rfl

theorem foldl_undergo_carrying (h : Host) (g : UInt64) (t : Traffic) (moves : List (Move Update)) :
    moves.foldl undergo (h.carrying g t) =
      h.carrying g (t.run (moves.map (Move.map Update.text))) := by
  induction moves generalizing t with
  | nil => rfl
  | cons m moves ih =>
    rw [List.foldl_cons, undergo_carrying, ih]
    rfl

end Host

/-- What becomes of the texts that are offered to a queue. -/
structure Outbox.Traffic.Accounted (capacity : Nat) (lost : UInt64) (moves : List (Move String))
    (t : Traffic) : Prop extends t.Balanced capacity lost where
  /-- It is the queue of a host that opens a transport, whose updates are what is offered. -/
  hosted : ∀ (h : Host) (request : Opening) (updates : List (Move Update)),
    h.capacity.toNat = capacity → h.lost = lost → updates.map (Move.map Update.text) = moves →
    updates.foldl Host.undergo (h.openTransport request) =
      (h.openTransport request).carrying request.generation t
  /-- As long as a word holds their number, the lost texts are counted exactly. -/
  held : lost.toNat + (t.offered .full).length < UInt64.size →
    t.lost.toNat = lost.toNat + (t.offered .full).length
  /-- Each text that is offered is noted once, with what came of it. -/
  noted : t.offers.map Prod.fst = moves.filterMap Move.offered?
  /-- The next text is refused only if the queue is full or if nobody receives, and only then. -/
  next : ∀ text, t.Offers text (t.step (.offer text))
  /-- If it is refused, all goes on as if it had not been offered. -/
  refused : ∀ text more, (t.queue.offer text).2 ≠ .accepted →
    (t.run more).Alike (t.run (.offer text :: more))

/-- Whatever is offered and received, and whenever the transport leaves, texts are received in the
order in which they were accepted, none twice and none that was refused; and of the refused ones those
are counted that found no room. -/
theorem offers_accounted (capacity : Nat) (lost : UInt64) (moves : List (Outbox.Move String)) :
    ((Outbox.Traffic.new capacity lost).run moves).Accounted capacity lost moves := by
  have ht := (Outbox.Traffic.balanced_new capacity lost).run moves
  constructor
  case toBalanced => exact ht
  case hosted =>
    rintro h request updates rfl rfl rfl
    exact Host.foldl_undergo_carrying (h.openTransport request) request.generation
      (.new h.capacity.toNat h.lost) updates
  case held => exact ht.toNat_lost
  case noted => exact Outbox.Traffic.offers_run _ moves
  case next => exact ht.offers
  case refused => exact fun text more hrefused => (ht.alike_of_refused hrefused).run more

end LivePanel
