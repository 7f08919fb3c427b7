import PeerWatch.Discovery.Pass
import PeerWatch.Store.Hub

/-!
A pass together with the hub in which its outcomes are written down. Probes start in the order of
the plan as far as there is room and end in any order; in between the hub is asked other things.
-/

namespace PeerWatch

structure Round where
  hub : Hub
  pass : Pass

inductive Move
  | start
  | finish (c : Candidate) (started now : Nat) (size : Option Nat)
      (result : Except ProbeError Document)
  | other (a : Act)

namespace Round

def ofSeeds (p : DiscoveryPolicy) (h : Hub) (seeds : List PeerAddress) : Round :=
  ⟨h, .ofSeeds p seeds⟩

def ofStore (p : DiscoveryPolicy) (h : Hub) (now : Nat) : Round := ⟨h, .ofStore p h.store now⟩

def move (p : DiscoveryPolicy) (r : Round) : Move → Option Round
  | .start => (r.pass.start? (Pass.width p)).map fun (_, pass) => { r with pass := pass }
  | .finish c started now size result =>
    if c ∈ r.pass.running then
      some ⟨(r.hub.step (.record started now c.address size result)).2, r.pass.finish c result⟩
    else none
  | .other a => some { r with hub := (r.hub.step a).2 }

def run (p : DiscoveryPolicy) (r : Round) : List Move → Option Round
  | [] => some r
  | m :: ms => (r.move p m).bind fun r => r.run p ms

end Round
end PeerWatch
