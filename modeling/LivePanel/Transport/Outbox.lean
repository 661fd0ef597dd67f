/-!
The queue of texts between a session and its transport. It holds as many as it has room for; one
that finds no room is lost and counted, one that finds nobody receiving is lost and not counted.
-/
namespace LivePanel

structure Outbox where
  capacity : Nat
  queued : List String := []
  /-- Whether somebody still receives. -/
  receiving : Bool := true

namespace Outbox

inductive Offer where
  | accepted : Offer
  | full : Offer
  | gone : Offer
  deriving DecidableEq

def offer (q : Outbox) (text : String) : Outbox × Offer :=
  if !q.receiving then (q, .gone)
  else if q.queued.length < q.capacity then ({ q with queued := q.queued ++ [text] }, .accepted)
  else (q, .full)

/-- How many texts are lost for want of room after an offer. -/
def countLoss (lost : UInt64) : Offer → UInt64
  | .full => lost + 1
  | .accepted | .gone => lost

/-- Receives the oldest text, if there is one. -/
def take (q : Outbox) : Outbox × Option String :=
  match q.queued with
  | [] => (q, none)
  | text :: rest => ({ q with queued := rest }, some text)

/-- The receiver leaves, and what is queued goes with it. -/
def close (q : Outbox) : Outbox := { q with queued := [], receiving := false }

end Outbox
end LivePanel
