import PeerWatch.Settings.Basic
import PeerWatch.Status.View

/-!
The registry of subscribers. Each has a queue of its own into which every update is put without
waiting: a full queue drops the update, and who drops too many in a row is evicted. What is queued
for a subscriber that is registered no more can still be received.
-/

namespace PeerWatch

/-- How subscribers are queued for. A capacity of zero counts as one. No queue has room for more than
`2 ^ 61 - 1` views; policies that ask for more are left out. -/
structure NotifyPolicy where
  queueCapacity : Nat := 256
  maxDrops : Nat := 64
  maxSubscribers : Nat := 16
  deriving DecidableEq

def SubscriberSettings.policy (s : SubscriberSettings) : NotifyPolicy :=
  ⟨s.queueCapacity.toNat, s.maxDrops.toNat, s.maxSubscribers.toNat⟩

def NotifyPolicy.capacity (p : NotifyPolicy) : Nat := max 1 p.queueCapacity

/-- A subscriber: what is queued for it, how many updates in a row it has dropped, whether it is
registered, and whether anybody still receives. -/
structure Subscriber where
  id : Nat
  queue : List View := []
  drops : Nat := 0
  registered : Bool := true
  receiving : Bool := true
  deriving DecidableEq

inductive Offer
  | delivered | dropped | evicted | closed | absent
  deriving DecidableEq, Repr

namespace Subscriber

def offer (p : NotifyPolicy) (v : View) (s : Subscriber) : Offer × Subscriber :=
  if !s.registered then (.absent, s)
  else if !s.receiving then (.closed, { s with registered := false })
  else if s.queue.length < p.capacity then
    (.delivered, { s with queue := s.queue ++ [v], drops := 0 })
  else if s.drops + 1 < p.maxDrops then (.dropped, { s with drops := s.drops + 1 })
  else (.evicted, { s with drops := s.drops + 1, registered := false })

end Subscriber

/-- How an update was received. Who was evicted has dropped it too; `removed` tells whether it made
the registry smaller. -/
structure PublishReport where
  delivered : Nat
  dropped : Nat
  evicted : Nat
  removed : Bool
  deriving DecidableEq, Repr

inductive Received
  | view (v : View)
  | empty
  | closed
  deriving DecidableEq

/-- The registry. Identifiers are given out in order and once only, as long as fewer than `2 ^ 64` of
them are. -/
structure Registry where
  policy : NotifyPolicy
  nextId : Nat := 1
  subscribers : List Subscriber := []
  deriving DecidableEq

namespace Registry

def find? (r : Registry) (id : Nat) : Option Subscriber := r.subscribers.find? (·.id = id)

def modify (r : Registry) (id : Nat) (f : Subscriber → Subscriber) : Registry :=
  { r with subscribers := r.subscribers.map fun s => if s.id = id then f s else s }

def active (r : Registry) : Nat := r.subscribers.countP (·.registered)

/-- Registers a subscriber, unless there are too many of those that still receive. Those that do
not are forgotten. -/
def register (r : Registry) : Option Nat × Registry :=
  let r := { r with subscribers := r.subscribers.filter (·.receiving) }
  if r.policy.maxSubscribers ≤ r.active then (none, r)
  else (some r.nextId,
    { r with nextId := r.nextId + 1, subscribers := r.subscribers ++ [⟨r.nextId, [], 0, true, true⟩] })

/-- Removes a subscriber; answers whether it was registered. -/
def clear (r : Registry) (id : Nat) : Bool × Registry :=
  (r.subscribers.any fun s => s.id = id && s.registered,
    r.modify id fun s => { s with registered := false })

def hangUp (r : Registry) (id : Nat) : Registry :=
  r.modify id fun s => { s with receiving := false }

def release (r : Registry) (id : Nat) : Bool × Registry :=
  let (removed, r) := r.clear id
  (removed, r.hangUp id)

def receive (r : Registry) (id : Nat) : Received × Registry :=
  match r.find? id with
  | none => (.closed, r)
  | some s =>
    match s.queue with
    | v :: queue => (.view v, r.modify id fun s => { s with queue := queue })
    | [] => (if s.registered then .empty else .closed, r)

def publish (r : Registry) (v : View) : PublishReport × Registry :=
  let offers := r.subscribers.map (·.offer r.policy v)
  let count (o : Offer) := offers.countP (·.1 = o)
  let report := ⟨count .delivered, count .dropped + count .evicted, count .evicted,
    0 < count .evicted + count .closed⟩
  (report, { r with subscribers := offers.map (·.2) })

end Registry
end PeerWatch
