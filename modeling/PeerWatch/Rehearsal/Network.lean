import PeerWatch.Chain
import PeerWatch.Peer.Address
import PeerWatch.Stream.Script

/-!
A scripted network to rehearse on. Each peer says how connecting to it and opening a stream go and
what the stream brings. Disturbances can be laid over it: latency, failure, and isolated peers.
-/

namespace PeerWatch.Rehearsal

structure Act where
  delay : Nat := 0
  hang : Bool := false
  fail : Option String := none
  deriving DecidableEq

structure Peer where
  connect : Act := {}
  opening : Act := {}
  body : List Segment := []
  deriving DecidableEq

def Act.unknown : Act := { fail := some "unknown peer" }

inductive Call
  | isConnected (id : PeerId)
  | connect (address : PeerAddress)
  | openStream (address : PeerAddress) (protocol : String)
  deriving DecidableEq

inductive CallKind
  | connect | openStream
  deriving DecidableEq, Repr

def CallKind.toCall (k : CallKind) (address : PeerAddress) : Call :=
  match k with
  | .connect => .connect address
  | .openStream => .openStream address nodeStatusProtocol

structure Disturbance where
  failureRate : Float := 0
  latency : Nat := 0
  isolated : List PeerId := []

def Disturbance.fails (d : Disturbance) : Bool := 0 < d.failureRate

def isolatedReason : String := "chaos: isolated"

def randomReason : String := "chaos: random failure"

/-- The network, the identities that are connected, and the calls that reached it, the last one
first, with their times. -/
structure Network where
  peers : List (String × Peer) := []
  connected : List PeerId := []
  disturbance : Disturbance := {}
  calls : List (Nat × Call) := []

namespace Network

def note (n : Network) (now : Nat) (c : Call) : Network := { n with calls := (now, c) :: n.calls }

def peer? (n : Network) (id : PeerId) : Option Peer := n.peers.lookup id.text

def isIsolated (n : Network) (id : PeerId) : Bool := n.disturbance.isolated.contains id

/-- Asks the network itself whether a peer is connected. -/
def asksInner (n : Network) (now : Nat) (id : PeerId) : Bool × Network :=
  (n.connected.contains id, n.note now (.isConnected id))

/-- Asks whether a peer is connected. Nobody asks for an isolated one. -/
def asks (n : Network) (now : Nat) (id : PeerId) : Bool × Network :=
  if n.isIsolated id then (false, n) else n.asksInner now id

def act (n : Network) (k : CallKind) (id : PeerId) : Act :=
  match n.peer? id, k with
  | none, _ => .unknown
  | some p, .connect => p.connect
  | some p, .openStream => p.opening

def body (n : Network) (id : PeerId) : List Segment := (n.peer? id).elim [] (·.body)

/-- A call has succeeded or failed: connecting makes a connection, and a stream that could not be
opened ends it. -/
def settle (n : Network) (k : CallKind) (id : PeerId) (ok : Bool) : Network :=
  match k, ok with
  | .connect, true => { n with connected := id :: n.connected.filter (· ≠ id) }
  | .openStream, false => { n with connected := n.connected.filter (· ≠ id) }
  | _, _ => n

def set (n : Network) (name : String) (peer : Option Peer) : Network :=
  let others := n.peers.filter fun p => p.1 ≠ name
  { n with peers := match peer with
    | some p => (name, p) :: others
    | none => others }

def isolate (n : Network) (id : PeerId) : Network :=
  { n with disturbance.isolated := id :: n.disturbance.isolated }

def heal (n : Network) (id : PeerId) : Network :=
  { n with disturbance.isolated := n.disturbance.isolated.filter (· ≠ id) }

def healAll (n : Network) : Network := { n with disturbance.isolated := [] }

end Network
end PeerWatch.Rehearsal
