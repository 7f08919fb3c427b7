import PeerWatch.Chain
import PeerWatch.Probe.Response
import PeerWatch.Status.Document

/-!
A probe as a machine. It asks whether there is a connection to the peer, connects if there is none,
opens a stream and reads the response; each question waits for a reply and, but for the first, has
a time limit. It ends with a document or with an error. Where the replies come from is not its
concern, nor is cancellation, which may end it anywhere.
-/

namespace PeerWatch

inductive Probe (l : FetchLimits)
  | asking
  | connecting
  | opening
  | reading (r : Reader l)

inductive Reply
  | connected (yes : Bool)
  | done
  | failed (reason : String)
  | late
  | arrived (a : Arrival)
  deriving DecidableEq

/-- What a reply leads to. A probe that has read a whole response tells its size. -/
inductive ProbeStep (l : FetchLimits)
  | going (p : Probe l)
  | ended (size : Option Nat) (result : Except ProbeError Document)

namespace Probe
variable {l : FetchLimits}

def lateReason (ms : Nat) : String := s!"timed out after {Text.spanText ms}"

def conclude (peer : PeerId) (data : List UInt8) : Except ProbeError Document :=
  match Document.parse? data with
  | some doc => .ok doc
  | none => .error (.parse peer "not a status document")

def read (peer : PeerId) : Progress l → ProbeStep l
  | .more r => .going (.reading r)
  | .done data => .ended (some data.size) (conclude peer data.toList)
  | .failed fault => .ended none (.error (fault.toProbeError peer))

/-- Takes a reply. One that does not answer the question counts as none in time. -/
def step (peer : PeerId) : Probe l → Reply → ProbeStep l
  | .asking, .connected true => .going .opening
  | .asking, _ => .going .connecting
  | .connecting, .done => .going .opening
  | .connecting, .failed reason => .ended none (.error (.connect peer reason))
  | .connecting, _ => .ended none (.error (.connect peer (lateReason l.connectMs)))
  | .opening, .done => .going (.reading (.start l))
  | .opening, .failed reason => .ended none (.error (.streamOpen peer nodeStatusProtocol reason))
  | .opening, _ =>
    .ended none (.error (.streamOpen peer nodeStatusProtocol (lateReason l.streamMs)))
  | .reading r, .arrived a => read peer (r.step a)
  | .reading r, _ => read peer (r.step .quiet)

/-- A bound on the replies that a probe takes before it ends. -/
def rank : Probe l → Nat
  | .asking => l.maxBytes + l.chunk + 3
  | .connecting => l.maxBytes + l.chunk + 2
  | .opening => l.maxBytes + l.chunk + 1
  | .reading r => l.maxBytes + l.chunk - r.size

theorem rank_lt_of_read {peer : PeerId} {r : Reader l} {a : Arrival} {p : Probe l}
    (h : read peer (r.step a) = .going p) : p.rank < (Probe.reading r).rank := by
  generalize hs : r.step a = s at h
  cases s with
  | more r' =>
    cases h
    have := Reader.size_lt_of_step hs
    have := r'.size_lt_bound
    simp only [rank]
    omega
  | done data => cases h
  | failed fault => cases h

/-- Every reply brings a probe nearer to its end. -/
theorem rank_lt_of_step {peer : PeerId} {p q : Probe l} {r : Reply}
    (h : p.step peer r = .going q) : q.rank < p.rank := by
  unfold step at h
  split at h
  case h_9 => exact rank_lt_of_read h
  case h_10 => exact rank_lt_of_read h
  all_goals
    cases h
    try simp only [rank]
    try omega

/-- Drives a probe to its end. Whoever answers may give no reply, which cancels the probe. -/
def drive {σ : Type} (answer : σ → Probe l → Option Reply × σ) (peer : PeerId) (p : Probe l)
    (s : σ) : (Option Nat × Except ProbeError Document) × σ :=
  match answer s p with
  | (none, s) => ((none, .error (.cancelled peer)), s)
  | (some r, s) =>
    match h : p.step peer r with
    | .going q =>
      have := rank_lt_of_step h
      drive answer peer q s
    | .ended size result => ((size, result), s)
termination_by p.rank

def patience : Probe l → Nat
  | .asking => 0
  | .connecting => l.connectMs
  | .opening => l.streamMs
  | .reading r => r.patience

end Probe
end PeerWatch
