import PeerWatch.Probe.Error
import PeerWatch.Store.Registry

/-!
The store of what is known of every peer: one entry for each identity that was ever probed, in the
order of the first probes, with the outcome of the last one. Times are in milliseconds. An entry is
overwritten but never removed, and every change is published to the subscribers.
-/

namespace PeerWatch

structure Entry where
  connected : Bool
  document : Option Document
  address : PeerAddress
  probedAt : Nat
  deriving DecidableEq

def Entry.isStale (e : Entry) (age now : Nat) : Bool := age < now - e.probedAt

def Entry.view (e : Entry) (id : PeerId) : View := View.make id e.connected e.document

/-- Sets the value of a key, in its place if it has one and else at the end. -/
def assign {α β : Type} [DecidableEq α] (a : α) (b : β) : List (α × β) → List (α × β)
  | [] => [(a, b)]
  | (a', b') :: rest => if a' = a then (a, b) :: rest else (a', b') :: assign a b rest

structure Store where
  entries : List (PeerId × Entry)
  registry : Registry
  deriving DecidableEq

namespace Store

def empty (policy : NotifyPolicy) : Store := ⟨[], { policy }⟩

def get? (s : Store) (id : PeerId) : Option Entry := s.entries.lookup id

/-- The time to write down for a probe that ends now: never before that of the entry it renews. -/
def probeTime (s : Store) (id : PeerId) (now : Nat) : Nat :=
  match s.get? id with
  | some e => max e.probedAt now
  | none => now

def upsert (s : Store) (now : Nat) (address : PeerAddress) (connected : Bool)
    (document : Option Document) : PublishReport × Store :=
  let e : Entry := ⟨connected, document, address, s.probeTime address.id now⟩
  let (report, registry) := s.registry.publish (e.view address.id)
  (report, ⟨assign address.id e s.entries, registry⟩)

def size (s : Store) : Nat := s.entries.length

def connectedCount (s : Store) : Nat := s.entries.countP fun p => p.2.connected

def staleAddresses (s : Store) (age now : Nat) : List PeerAddress :=
  (s.entries.filter fun p => p.2.isStale age now).map fun p => p.2.address

def adverts (s : Store) : List Advert :=
  (s.entries.filterMap fun p => p.2.document).flatMap fun d => d.adverts

def views (s : Store) : List View := s.entries.map fun p => p.2.view p.1

def subscribe (s : Store) : Option (Nat × List View) × Store :=
  let (id?, registry) := s.registry.register
  (id?.map fun id => (id, s.views), { s with registry := registry })

/-- Writes down what a probe gave, as far as it says something of the peer: one that was cancelled
says nothing. -/
def record (s : Store) (now : Nat) (address : PeerAddress) (result : Except ProbeError Document) :
    Option PublishReport × Store :=
  match result with
  | .ok doc => (s.upsert now address true (some doc)).map some id
  | .error e =>
    if e.isCancelled then (none, s) else (s.upsert now address e.responded none).map some id

end Store
end PeerWatch
