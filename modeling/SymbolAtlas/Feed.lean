/-!
# Feeds

A feed delivers events to any number of subscribers.  Each subscriber has a queue of its own; a
queue with a positive capacity that is full loses the event, and the others receive it all the
same.  A queue keeps what it holds after its subscription has ended.
-/

namespace SymbolAtlas

/-- The queue of one subscriber. -/
structure Subscription (ε : Type) where
  /-- How many events the queue holds; zero or less means any number. -/
  capacity : Int
  events : List ε := []
  active : Bool := true
  deriving Inhabited

namespace Subscription

variable {ε : Type}

/-- Whether the queue takes no further event. -/
def isFull (s : Subscription ε) : Bool :=
  0 < s.capacity && s.capacity ≤ s.events.length

/-- Whether an event that is published now is lost on this subscriber. -/
def drops (s : Subscription ε) : Bool :=
  s.active && s.isFull

/-- Takes an event if the subscription is active and the queue has room. -/
def receive (s : Subscription ε) (event : ε) : Subscription ε :=
  if s.active && !s.isFull then { s with events := s.events ++ [event] } else s

end Subscription

/-- The queues that a feed has handed out, in order of subscription. -/
structure Feed (ε : Type) where
  defaultCapacity : Int
  queues : Array (Subscription ε) := #[]
  deriving Inhabited

namespace Feed

variable {ε : Type}

/-- Hands out a new queue and gives its number. -/
def subscribe (f : Feed ε) (capacity : Option Int) : Feed ε × Nat :=
  ({ f with queues := f.queues.push { capacity := capacity.getD f.defaultCapacity } },
    f.queues.size)

/-- Ends a subscription. -/
def unsubscribe (f : Feed ε) (queue : Nat) : Feed ε :=
  { f with queues := f.queues.modify queue fun s => { s with active := false } }

/-- Ends all subscriptions. -/
def unsubscribeAll (f : Feed ε) : Feed ε :=
  { f with queues := f.queues.map fun s => { s with active := false } }

/-- The number of active subscriptions. -/
def subscriberCount (f : Feed ε) : Nat :=
  f.queues.countP (·.active)

/-- The number of subscribers that lose an event published now. -/
def dropCount (f : Feed ε) : Nat :=
  f.queues.countP Subscription.drops

/-- Delivers an event to every subscriber that has room. -/
def publish (f : Feed ε) (event : ε) : Feed ε :=
  { f with queues := f.queues.map fun s => s.receive event }

/-- The events that a queue holds. -/
def held (f : Feed ε) (queue : Nat) : List ε :=
  match f.queues[queue]? with
  | some s => s.events
  | none => []

/-- Empties a queue and gives what it held. -/
def drain (f : Feed ε) (queue : Nat) : Feed ε × List ε :=
  ({ f with queues := f.queues.modify queue fun s => { s with events := [] } }, f.held queue)

end Feed

end SymbolAtlas
