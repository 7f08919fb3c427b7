import PeerWatch.Peer.Id

/-!
What can go wrong when a peer is asked for its status, and what that says about the peer: only an
answer that is no document shows that the peer is there.
-/

namespace PeerWatch

inductive ProbeError
  | connect (peer : PeerId) (reason : String)
  | streamOpen (peer : PeerId) (protocol reason : String)
  | read (peer : PeerId) (reason : String)
  | sizeExceeded (peer : PeerId) (limit : Nat)
  | parse (peer : PeerId) (reason : String)
  | cancelled (peer : PeerId)
  deriving DecidableEq

namespace ProbeError

/-- The word for the kind of error, as metrics are labelled with it. -/
def kind : ProbeError → String
  | .connect .. => "connect"
  | .streamOpen .. => "stream_open"
  | .read .. => "read"
  | .sizeExceeded .. => "size_exceeded"
  | .parse .. => "parse"
  | .cancelled _ => "cancelled"

def responded : ProbeError → Bool
  | .parse .. => true
  | _ => false

def isCancelled : ProbeError → Bool
  | .cancelled _ => true
  | _ => false

def message : ProbeError → String
  | .connect p r => s!"connect to {p.text} failed: {r}"
  | .streamOpen p proto r => s!"opening {proto} stream to {p.text} failed: {r}"
  | .read p r => s!"reading status from {p.text} failed: {r}"
  | .sizeExceeded p n => s!"status response from {p.text} exceeded {n} bytes"
  | .parse p r => s!"status document from {p.text} is malformed: {r}"
  | .cancelled p => s!"probe of {p.text} cancelled"

end ProbeError
end PeerWatch
