import PeerWatch.Metrics.Basic

/-!
The store together with the metrics of what happens to it.
-/

namespace PeerWatch

structure Monitor where
  store : Store
  metrics : Metrics := {}

namespace Monitor

def upsert (m : Monitor) (now : Nat) (address : PeerAddress) (connected : Bool)
    (document : Option Document) : Monitor :=
  let (report, store) := m.store.upsert now address connected document
  ⟨store, m.metrics.countUpdate report store⟩

def record (m : Monitor) (started now : Nat) (address : PeerAddress)
    (result : Except ProbeError Document) : Monitor :=
  let (report?, store) := m.store.record now address result
  let metrics := match report? with
    | some report => m.metrics.countUpdate report store
    | none => m.metrics
  ⟨store, metrics.observeProbe (outcomeLabel result) (seconds (now - started))⟩

def recordProbe (m : Monitor) (started now : Nat) (address : PeerAddress) (size : Option Nat)
    (result : Except ProbeError Document) : Monitor :=
  let metrics := match size with
    | some n => m.metrics.observeResponse n
    | none => m.metrics
  { m with metrics := metrics }.record started now address result

def subscribe (m : Monitor) : Option (Nat × List View) × Monitor :=
  match m.store.subscribe with
  | (some s, store) => (some s, ⟨store, m.metrics.setSubscribers store⟩)
  | (none, store) => (none, ⟨store, m.metrics⟩)

/-- The monitor with another registry, from which a subscriber was removed or not. -/
def withRegistry (m : Monitor) (removed : Bool) (registry : Registry) : Monitor :=
  let store := { m.store with registry := registry }
  ⟨store, if removed then m.metrics.setSubscribers store else m.metrics⟩

/-- Removes a subscriber; answers whether it was registered. -/
def clear (m : Monitor) (id : Nat) : Bool × Monitor :=
  let (removed, registry) := m.store.registry.clear id
  (removed, m.withRegistry removed registry)

def release (m : Monitor) (id : Nat) : Monitor :=
  let (removed, registry) := m.store.registry.release id
  m.withRegistry removed registry

def receive (m : Monitor) (id : Nat) : Received × Monitor :=
  let (r, registry) := m.store.registry.receive id
  (r, m.withRegistry false registry)

end Monitor
end PeerWatch
