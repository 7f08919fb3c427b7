import PeerWatch.Discovery.Plan

/-!
A pass over the network: the candidates wait in the order of the plan, a limited number is probed
at a time, and the report counts the probes that had an outcome.
-/

namespace PeerWatch

/-- The counts of a pass. A probe without a document has failed. -/
structure Report where
  refreshed : Nat := 0
  discovered : Nat := 0
  failed : Nat := 0
  deriving DecidableEq, Repr

def isCancelled : Except ProbeError Document → Bool
  | .ok _ => false
  | .error e => e.isCancelled

def Report.count (r : Report) (origin : Origin) (result : Except ProbeError Document) : Report :=
  if isCancelled result then r
  else
    let r := match origin with
      | .stale => { r with refreshed := r.refreshed + 1 }
      | .advertised => { r with discovered := r.discovered + 1 }
    match result with
    | .ok _ => r
    | .error _ => { r with failed := r.failed + 1 }

structure Pass where
  waiting : List Candidate
  running : List Candidate := []
  report : Report := {}
  deriving DecidableEq

namespace Pass

def ofSeeds (p : DiscoveryPolicy) (seeds : List PeerAddress) : Pass :=
  { waiting := Candidate.plan p.localPeer (Candidate.ofSeeds seeds) }

def ofStore (p : DiscoveryPolicy) (s : Store) (now : Nat) : Pass :=
  { waiting := Candidate.plan p.localPeer (Candidate.ofStore s p.refreshMs now) }

def width (p : DiscoveryPolicy) : Nat := max 1 p.maxConcurrent

def start? (width : Nat) (p : Pass) : Option (Candidate × Pass) :=
  match p.waiting with
  | c :: waiting =>
    if p.running.length < width then
      some (c, { p with waiting := waiting, running := p.running ++ [c] })
    else none
  | [] => none

def finish (p : Pass) (c : Candidate) (result : Except ProbeError Document) : Pass :=
  { p with running := p.running.erase c, report := p.report.count c.origin result }

def isOver (p : Pass) : Bool := p.waiting.isEmpty && p.running.isEmpty

end Pass
end PeerWatch
