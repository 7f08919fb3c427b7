import PeerWatch.Session.Interval
import PeerWatch.Store.Registry
import PeerWatch.Text.Span

/-!
A subscriber's session: the snapshot, then the updates as they come, with a keep-alive whenever one
is due and nothing else is to be said. One record is written at a time, within a time limit. The
session ends when it is cancelled between two records, when its subscriber has been removed and all
that was queued is written, or when a write fails.
-/

namespace PeerWatch

/-- How a session is served. Spans of time are in milliseconds. -/
structure SessionPolicy where
  keepaliveMs : Nat := 10000
  writeMs : Nat := 10000
  deriving DecidableEq

def SubscriberSettings.sessionPolicy (s : SubscriberSettings) : SessionPolicy :=
  ⟨s.keepaliveSecs.toNat * 1000, s.writeMs.toNat⟩

inductive SessionEnd
  | cancelled
  | evicted
  | refused (limit : Nat)
  | writeFailed (reason : String)
  | writeTimeout (ms : Nat)
  deriving DecidableEq, Repr

def SessionEnd.message : SessionEnd → String
  | .cancelled => "cancelled"
  | .evicted => "evicted"
  | .refused limit => s!"subscriber limit reached ({limit})"
  | .writeFailed reason => s!"write failed: {reason}"
  | .writeTimeout ms => s!"write timed out after {Text.spanText ms}"

/-- A session: its subscriber, the part of the snapshot that is still to be written, whether a record
is being written and what of it the writer has not accepted, when that record must have been
flushed, and the keep-alive, which starts after the snapshot. -/
structure Session where
  subscriber : Nat
  snapshot : List View
  writing : Bool := false
  unsent : List UInt8 := []
  deadline : Nat := 0
  keepalive : Option Interval := none
  deriving DecidableEq

inductive Turn
  | write
  | stop (e : SessionEnd)
  | wait
  deriving DecidableEq, Repr

/-- What a writer says of the bytes it was given, or when it was asked to flush. -/
inductive WriteReply
  | accepted (n : Nat)
  | flushed
  | failed (reason : String)
  | late
  deriving DecidableEq, Repr

namespace Session

def begin (p : SessionPolicy) (now : Nat) (record : List UInt8) (s : Session) : Session :=
  { s with writing := true, unsent := record, deadline := now + p.writeMs }

/-- The keep-alive, which starts now if it has not started. -/
def rhythm (p : SessionPolicy) (now : Nat) (s : Session) : Interval :=
  s.keepalive.getD (.start p.keepaliveMs now)

/-- A turn after the snapshot. Cancellation comes first, then what is queued, then the
keep-alive. -/
def liveTurn (p : SessionPolicy) (cancelled : Bool) (now : Nat) (r : Registry) (s : Session) :
    Turn × Registry × Session :=
  let k := s.rhythm p now
  let s := { s with keepalive := some k }
  if cancelled then (.stop .cancelled, r, s)
  else
    let (received, r) := r.receive s.subscriber
    match received with
    | .view v => (.write, r, s.begin p now v.record)
    | .closed => (.stop .evicted, r, s)
    | .empty =>
      if k.isDue now then
        (.write, r, { s.begin p now keepAlive with keepalive := some (k.take now) })
      else (.wait, r, s)

def turn (p : SessionPolicy) (cancelled : Bool) (now : Nat) (r : Registry) (s : Session) :
    Turn × Registry × Session :=
  match s.snapshot with
  | v :: rest =>
    if cancelled then (.stop .cancelled, r, s)
    else (.write, r, { s.begin p now v.record with snapshot := rest })
  | [] => s.liveTurn p cancelled now r

/-- Takes what the writer says. The record is written once all of it was accepted and flushed. -/
def wrote (p : SessionPolicy) (s : Session) : WriteReply → Except SessionEnd Session
  | .accepted n => .ok { s with unsent := s.unsent.drop n }
  | .flushed => .ok { s with writing := !s.unsent.isEmpty }
  | .failed reason => .error (.writeFailed reason)
  | .late => .error (.writeTimeout p.writeMs)

end Session
end PeerWatch
