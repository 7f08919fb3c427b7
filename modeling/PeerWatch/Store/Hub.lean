import PeerWatch.Store.Monitor

/-!
A monitor with the subscriptions that are in somebody's hands, and all that can be asked of the two.
Everything that is asked is done at once and as a whole.
-/

namespace PeerWatch

structure Subscription where
  id : Nat
  snapshot : List View
  deriving DecidableEq

def Subscription.take (s : Subscription) : List View × Subscription :=
  (s.snapshot, { s with snapshot := [] })

structure Update where
  now : Nat
  address : PeerAddress
  connected : Bool
  document : Option Document
  deriving DecidableEq

def Update.view (u : Update) : View := View.make u.address.id u.connected u.document

/-- What is asked of a hub. `record` is a probe that ended, with the size of its response. -/
inductive Act
  | upsert (u : Update)
  | record (started now : Nat) (address : PeerAddress) (size : Option Nat)
      (result : Except ProbeError Document)
  | subscribe
  | takeSnapshot (id : Nat)
  | receive (id : Nat)
  | release (id : Nat)
  | clear (id : Nat)

/-- What is answered. Nobody holds the subscription if it is `unheld`. -/
inductive Answer
  | done
  | subscribed (id : Nat)
  | refused
  | snapshot (views : List View)
  | received (r : Received)
  | cleared (removed : Bool)
  | unheld
  deriving DecidableEq

structure Hub where
  monitor : Monitor
  held : List Subscription := []

namespace Hub

def start (policy : NotifyPolicy) : Hub := { monitor := { store := .empty policy } }

def store (h : Hub) : Store := h.monitor.store

def holds (h : Hub) (id : Nat) : Bool := h.held.any (·.id = id)

def subscription? (h : Hub) (id : Nat) : Option Subscription := h.held.find? (·.id = id)

/-- Registers a subscriber, whose subscription is held from then on. -/
def subscribe (h : Hub) : Answer × Hub :=
  match h.monitor.subscribe with
  | (some (id, views), m) => (.subscribed id, ⟨m, h.held ++ [⟨id, views⟩]⟩)
  | (none, m) => (.refused, { h with monitor := m })

def takeSnapshot (h : Hub) (id : Nat) : Answer × Hub :=
  match h.subscription? id with
  | some s =>
    (.snapshot s.take.1,
      { h with held := h.held.map fun s => if s.id = id then s.take.2 else s })
  | none => (.unheld, h)

def receive (h : Hub) (id : Nat) : Answer × Hub :=
  if h.holds id then
    let (r, m) := h.monitor.receive id
    (.received r, { h with monitor := m })
  else (.unheld, h)

def release (h : Hub) (id : Nat) : Answer × Hub :=
  if h.holds id then (.done, ⟨h.monitor.release id, h.held.filter (·.id ≠ id)⟩)
  else (.unheld, h)

def step (h : Hub) : Act → Answer × Hub
  | .upsert u =>
    (.done, { h with monitor := h.monitor.upsert u.now u.address u.connected u.document })
  | .record started now address size result =>
    (.done, { h with monitor := h.monitor.recordProbe started now address size result })
  | .subscribe => h.subscribe
  | .takeSnapshot id => h.takeSnapshot id
  | .receive id => h.receive id
  | .release id => h.release id
  | .clear id =>
    let (removed, m) := h.monitor.clear id
    (.cleared removed, { h with monitor := m })

def run (h : Hub) (acts : List Act) : Hub := acts.foldl (fun h a => (h.step a).2) h

end Hub
end PeerWatch
