import PeerWatch.Probe.Basic
import PeerWatch.Store.Hub

/-!
A probe of one peer together with the hub in which its outcome is written down. The probe waits for
its replies and may be cancelled at any time; in between the hub is asked other things.
-/

namespace PeerWatch

inductive FetchState (l : FetchLimits)
  | waiting (p : Probe l)
  | ended (result : Except ProbeError Document)

structure Fetch (l : FetchLimits) where
  hub : Hub
  address : PeerAddress
  started : Nat
  state : FetchState l

inductive FetchEvent
  | reply (now : Nat) (r : Reply)
  | cancel (now : Nat)
  | other (a : Act)

namespace Fetch
variable {l : FetchLimits}

def start (l : FetchLimits) (h : Hub) (address : PeerAddress) (started : Nat) : Fetch l :=
  ⟨h, address, started, .waiting .asking⟩

def conclude (f : Fetch l) (now : Nat) (size : Option Nat)
    (result : Except ProbeError Document) : Fetch l :=
  { f with
    hub := (f.hub.step (.record f.started now f.address size result)).2
    state := .ended result }

/-- Goes a step further. A probe that has ended takes no reply and cannot be cancelled. -/
def step (f : Fetch l) (e : FetchEvent) : Fetch l :=
  match e, f.state with
  | .other a, _ => { f with hub := (f.hub.step a).2 }
  | .reply now r, .waiting p =>
    match p.step f.address.id r with
    | .going p => { f with state := .waiting p }
    | .ended size result => f.conclude now size result
  | .cancel now, .waiting _ => f.conclude now none (.error (.cancelled f.address.id))
  | _, .ended _ => f

def run (f : Fetch l) (es : List FetchEvent) : Fetch l := es.foldl step f

end Fetch
end PeerWatch
