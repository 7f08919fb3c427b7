import PeerWatch.Metrics.Basic
import PeerWatch.Text.Shortest

/-!
The text in which metrics are exposed: families sorted by name, each with a line of help, a line
that tells its type, and its samples, sorted by label. A family without samples is left out.
-/

namespace PeerWatch.Metrics

def contentType : String := "text/plain; version=0.0.4; charset=utf-8"

def httpStatus : String := "HTTP/1.1 200 OK"

structure Family where
  name : String
  help : String
  type : String
  samples : List String

def escapeLabel (value : String) : String :=
  String.ofList (value.toList.flatMap fun c =>
    if c = '\\' then ['\\', '\\'] else if c = '"' then ['\\', '"']
    else if c = '\n' then ['\\', 'n'] else [c])

def label (name value : String) : String := name ++ "=\"" ++ escapeLabel value ++ "\""

def sample (name : String) (labels : List String) (value : String) : String :=
  let set := if labels.isEmpty then "" else "\x7b" ++ ",".intercalate labels ++ "\x7d"
  name ++ set ++ " " ++ value

def histogramSamples (name : String) (labels : List String) (h : Histogram) : List String :=
  let bucket (bound : String) (n : Nat) :=
    sample (name ++ "_bucket") (labels ++ [label "le" bound]) (toString n)
  h.buckets.map (fun (b, n) => bucket (Text.floatText b) n) ++
    [bucket "+Inf" h.count, sample (name ++ "_sum") labels (Text.floatText h.sum),
      sample (name ++ "_count") labels (toString h.count)]

def single (name help type : String) (n : Nat) : Family :=
  ⟨name, help, type, [sample name [] (toString n)]⟩

def byOutcome {α : Type} (xs : List (String × α)) : List (String × α) :=
  xs.mergeSort fun a b => !(b.1 < a.1)

def families (m : Metrics) : List Family :=
  let latency := "nodewatch_probe_latency_seconds"
  let probes := "nodewatch_probes_total"
  let size := "nodewatch_status_response_bytes"
  [single "nodewatch_discovery_ticks_total" "Completed discovery loop ticks" "counter" m.ticks,
    single "nodewatch_notifications_dropped_total"
      "Updates dropped because a subscriber queue was full" "counter" m.dropped,
    single "nodewatch_notifications_sent_total" "Updates queued to subscribers" "counter" m.sent,
    single "nodewatch_peers_connected" "Cached peers whose last probe reached them" "gauge"
      m.peersConnected,
    single "nodewatch_peers_known" "Peers present in the status cache" "gauge" m.peersKnown,
    ⟨latency, "Status probe latency in seconds", "histogram",
      (byOutcome m.latency).flatMap fun (o, h) => histogramSamples latency [label "outcome" o] h⟩,
    ⟨probes, "Status probes, by outcome (ok or error kind)", "counter",
      (byOutcome m.probes).map fun (o, n) => sample probes [label "outcome" o] (toString n)⟩,
    ⟨size, "Size of status responses read from peers", "histogram",
      histogramSamples size [] m.responseBytes⟩,
    single "nodewatch_subscribers_active" "Registered subscriber streams" "gauge" m.subscribers,
    single "nodewatch_subscribers_evicted_total" "Subscribers evicted for falling behind"
      "counter" m.evicted]

def Family.lines (f : Family) : List String :=
  if f.samples.isEmpty then []
  else s!"# HELP {f.name} {f.help}" :: s!"# TYPE {f.name} {f.type}" :: f.samples

def exposition (m : Metrics) : List String := m.families.flatMap Family.lines

end PeerWatch.Metrics
