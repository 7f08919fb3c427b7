import PeerWatch.Store.Basic

/-!
Which peers a pass over the network probes: the stale ones and all that are advertised, each
identity once, at the first address found, and never the own one.
-/

namespace PeerWatch

/-- How the network is walked. Spans of time are in milliseconds. -/
structure DiscoveryPolicy where
  tickMs : Nat := 10000
  refreshMs : Nat := 60000
  maxConcurrent : Nat := 1
  localPeer : Option PeerId := none

def Settings.discoveryPolicy (s : Settings) : DiscoveryPolicy :=
  ⟨s.tickMs, s.refreshMs, s.discovery.maxConcurrent.toNat, s.localPeer⟩

inductive Origin
  | stale | advertised
  deriving DecidableEq, Repr

structure Candidate where
  address : PeerAddress
  origin : Origin
  deriving DecidableEq

namespace Candidate

def id (c : Candidate) : PeerId := c.address.id

/-- Keeps the first candidate of each identity. -/
def distinct : List Candidate → List Candidate
  | [] => []
  | c :: cs => c :: (distinct cs).filter fun d => d.id ≠ c.id

def plan (localPeer : Option PeerId) (cs : List Candidate) : List Candidate :=
  distinct (cs.filter fun c => some c.id ≠ localPeer)

def ofSeeds (seeds : List PeerAddress) : List Candidate := seeds.map (⟨·, .advertised⟩)

/-- The candidates that a store gives: its stale entries, then all that it has advertised. Adverts
without an address are passed over. -/
def ofStore (s : Store) (refreshMs now : Nat) : List Candidate :=
  (s.staleAddresses refreshMs now).map (⟨·, .stale⟩) ++
    (s.adverts.filterMap Advert.address?).map (⟨·, .advertised⟩)

end Candidate
end PeerWatch
