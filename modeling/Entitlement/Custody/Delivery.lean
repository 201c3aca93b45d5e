import Entitlement.Custody.Event

/-! # Delivery

Those who follow events read them at their own pace. Whoever falls behind by more than the capacity
loses the oldest events and is told how many; the others lose nothing. Nothing that a follower does
has an effect on the events or on other followers, so a follower is no more than a place in the log.
-/

namespace Entitlement.Custody

/-- The events that are kept for a follower who falls behind. -/
def capacity : Nat := 64

/-- What a follower is given. -/
inductive Delivery where
  | lagged (lost : Nat)
  | event (told : Event)
  deriving DecidableEq

namespace Delivery

/-- A delivery as JSON. -/
def toJson : Delivery → String
  | .lagged lost => Json.object [("lagged", Json.nat lost)]
  | .event told => told.toJson

/-- The event of a delivery. -/
def event? : Delivery → Option Event
  | .lagged _ => none
  | .event told => some told

/-- What is delivered to a follower for whom some events are pending. -/
def ofPending (pending : List Event) : List Delivery :=
  let lost := pending.length - capacity
  (if lost = 0 then [] else [.lagged lost]) ++ (pending.drop lost).map .event

end Delivery

/-- Events as lines of JSON, each ended by a newline. -/
def lines (events : List Event) : String :=
  String.join (events.map fun event => event.toJson ++ "\n")

end Entitlement.Custody
