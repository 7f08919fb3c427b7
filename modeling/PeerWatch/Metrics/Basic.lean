import PeerWatch.Store.Basic

/-!
Counts of what happens: probes by outcome and the time they took, the sizes of responses, the peers
known, and what subscribers received.
-/

namespace PeerWatch

/-- Observations counted by size: for each bound, how many did not exceed it. -/
structure Histogram where
  buckets : List (Float × Nat)
  count : Nat := 0
  sum : Float := 0

namespace Histogram

def ofBounds (bounds : List Float) : Histogram := { buckets := bounds.map fun b => (b, 0) }

def observe (h : Histogram) (x : Float) : Histogram :=
  ⟨h.buckets.map fun (b, n) => (b, if x ≤ b then n + 1 else n), h.count + 1, h.sum + x⟩

end Histogram

/-- The bounds for the time of a probe, in seconds. -/
def latencyBounds : List Float := [0.01, 0.05, 0.1, 0.25, 0.5, 1.0, 2.5, 5.0, 10.0, 30.0]

/-- The bounds for the size of a response, in bytes. -/
def sizeBounds : List Float :=
  [256.0, 1024.0, 4096.0, 16384.0, 65536.0, 262144.0, 1048576.0, 4194304.0]

/-- The counts. `probes` and `latency` are kept by the outcome of the probes. -/
structure Metrics where
  probes : List (String × Nat) := []
  latency : List (String × Histogram) := []
  responseBytes : Histogram := .ofBounds sizeBounds
  peersKnown : Nat := 0
  peersConnected : Nat := 0
  ticks : Nat := 0
  subscribers : Nat := 0
  sent : Nat := 0
  dropped : Nat := 0
  evicted : Nat := 0

namespace Metrics

def probed (m : Metrics) (outcome : String) : Nat := (m.probes.lookup outcome).getD 0

def observeProbe (m : Metrics) (outcome : String) (seconds : Float) : Metrics :=
  let h := (m.latency.lookup outcome).getD (.ofBounds latencyBounds)
  { m with
    probes := assign outcome (m.probed outcome + 1) m.probes
    latency := assign outcome (h.observe seconds) m.latency }

def observeResponse (m : Metrics) (bytes : Nat) : Metrics :=
  { m with responseBytes := m.responseBytes.observe bytes.toFloat }

def countTick (m : Metrics) : Metrics := { m with ticks := m.ticks + 1 }

def setSubscribers (m : Metrics) (s : Store) : Metrics :=
  { m with subscribers := s.registry.active }

/-- Counts what came of an update that led to the store `s`. The number of subscribers is taken
down only if the update changed it. -/
def countUpdate (m : Metrics) (report : PublishReport) (s : Store) : Metrics :=
  let m := if report.removed then m.setSubscribers s else m
  { m with
    sent := m.sent + report.delivered
    dropped := m.dropped + report.dropped
    evicted := m.evicted + report.evicted
    peersKnown := s.size
    peersConnected := s.connectedCount }

end Metrics

def seconds (ms : Nat) : Float :=
  (ms / 1000).toFloat + (ms % 1000 * 1000000).toFloat / 1000000000.0

def outcomeLabel : Except ProbeError Document → String
  | .ok _ => "ok"
  | .error e => e.kind

end PeerWatch
