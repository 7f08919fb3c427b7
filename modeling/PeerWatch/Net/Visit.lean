import PeerWatch.Net.Transport
import PeerWatch.Store.Hub

/-!
Fetches over TCP, one after the other. The transport remembers the socket of an identity from one
fetch to the next, while sockets may open and close in between. A question of a probe may be answered
too late, and a fetch may be cancelled at any time.
-/

namespace PeerWatch

inductive Fate
  | answered | late | cancelled
  deriving DecidableEq, Repr

/-- A fetch to be made: what the network is like meanwhile, and how each question of its probe fares,
by the number of those before it. -/
structure Visit where
  link : Link
  address : PeerAddress
  started : Nat
  fate : Nat → Fate := fun _ => .answered

/-- A transport in use for a probe: the socket that was found when it connected, and the one on which
the stream was opened. -/
structure Passage where
  transport : Transport
  stream : Playback
  asked : Nat := 0
  found : Option SocketAddr := none
  opened : Option SocketAddr := none

namespace Visit
variable {l : FetchLimits}

def depart (v : Visit) (t : Transport) : Passage := ⟨t, .start [] v.started, 0, none, none⟩

def remembered (v : Visit) (t : Transport) : Option SocketAddr := t.sockets.lookup v.address.id

/-- The transport answers a question. What it remembers once it has connected is what it has found, and
a stream is opened on what it remembers. -/
def reply (v : Visit) (s : Passage) (p : Probe l) : Option Reply × Passage :=
  let (r, t, stream) := Transport.answer v.link v.address (s.transport, s.stream) p
  let s := { s with transport := t, stream }
  match p, r with
  | .connecting, some .done => (r, { s with found := v.remembered t })
  | .opening, some .done => (r, { s with opened := v.remembered t })
  | _, _ => (r, s)

/-- Goes on to the next question. Whether there is a connection is known at once. -/
def answer (v : Visit) (s : Passage) (p : Probe l) : Option Reply × Passage :=
  let next := { s with asked := s.asked + 1 }
  match v.fate s.asked, p with
  | .cancelled, _ => (none, next)
  | .late, .connecting | .late, .opening | .late, .reading _ => (some .late, next)
  | .late, .asking | .answered, _ => v.reply next p

end Visit

structure Account where
  visit : Visit
  found : Option SocketAddr
  opened : Option SocketAddr
  result : Except ProbeError Document

structure Station where
  transport : Transport
  hub : Hub

namespace Station

def start (key : String) (h : Hub) : Station := ⟨{ key }, h⟩

def fetch (l : FetchLimits) (st : Station) (v : Visit) : Account × Station :=
  let ((size, result), s) :=
    Probe.drive v.answer v.address.id (.asking (l := l)) (v.depart st.transport)
  (⟨v, s.found, s.opened, result⟩,
    ⟨s.transport, (st.hub.step (.record v.started s.stream.now v.address size result)).2⟩)

def run (l : FetchLimits) (st : Station) : List Visit → List Account × Station
  | [] => ([], st)
  | v :: vs =>
    let (a, st) := st.fetch l v
    let (accounts, st) := run l st vs
    (a :: accounts, st)

end Station
end PeerWatch
