import PeerWatch.CommandLine
import PeerWatch.Live.Connection
import PeerWatch.Metrics.Exposition
import PeerWatch.Session.Course

/-!
A proxy at work: it probes over real connections and serves whoever subscribes. It keeps the time,
waits for sockets and hands what they say to the machines that decide.
-/

namespace PeerWatch.Live
open Std.Async

structure Proxy where
  settings : Settings
  monitor : IO.Ref Monitor
  transport : IO.Ref Transport
  stopped : IO.Ref Bool

/-- How long a subscriber may take to say what it wants, in milliseconds. -/
def preambleMs : Nat := 10000

/-- How long a session rests when it has nothing to say, in milliseconds. -/
def restMs : UInt32 := 20

/-- How long nobody looks whether the proxy has stopped or a tick is due, in milliseconds. -/
def pulseMs : Nat := 100

namespace Proxy

def start (settings : Settings) : IO Proxy := do
  let monitor ← IO.mkRef { store := .empty settings.subscriber.policy }
  let transport ← IO.mkRef { key := networkKeyHex settings.chainId }
  return ⟨settings, monitor, transport, ← IO.mkRef false⟩

def key (x : Proxy) : String := networkKeyHex x.settings.chainId

def limits (x : Proxy) : FetchLimits := x.settings.fetch.limits

/-- The stream of a probe, with what has come of it and is not yet read. -/
abbrev Incoming := IO.Ref (Option (TCP.Socket.Client × List UInt8))

/-- Puts a question to the transport, over a network as it is known. Also answers what comes over a
stream that was opened. -/
def consult (x : Proxy) (address : PeerAddress) (k : Known) (p : Probe x.limits) :
    IO (Reply × List UInt8) :=
  x.transport.modifyGet fun t =>
    let (r, t, stream) := Transport.answer k.link address (t, .start [] 0) p
    ((r.getD .late, Segment.drain stream.script), t)

def reply (x : Proxy) (address : PeerAddress) (incoming : Incoming) (p : Probe x.limits) :
    IO Reply := do
  let deadline := (← IO.monoMsNow) + p.patience
  match p with
  | .asking => return (← x.consult address {} p).1
  | .connecting =>
    -- an address that was read has one host, so none is looked up in vain
    let hosts ← address.hosts.mapM fun h => return (h, ← attempt (resolve deadline h))
    match ← explore deadline address { hosts } with
    | none => return .late
    | some k => return (← x.consult address k p).1
  | .opening =>
    match (← x.transport.get).sockets.lookup address.id with
    | none => return (← x.consult address {} p).1
    | some a =>
      match ← attempt (call deadline a x.key nodeStatusProtocol) with
      | .error fault => return (← x.consult address { tried := [(a, .error fault)] } p).1
      | .ok none => return .late
      | .ok (some (s, script)) =>
        let (r, held) ← x.consult address { tried := [(a, .ok script)] } p
        incoming.set (some (s, held))
        return r
  | .reading r =>
    match ← incoming.get with
    | none => return .late
    | some (s, []) => return .arrived (← receive s r.room deadline)
    | some (s, held) =>
      incoming.set (some (s, held.drop r.room))
      return .arrived (.bytes (held.take r.room))

def drive (x : Proxy) (address : PeerAddress) (incoming : Incoming) (p : Probe x.limits) :
    IO (Option Nat × Except ProbeError Document) := do
  if ← x.stopped.get then return (none, .error (.cancelled address.id))
  let r ← x.reply address incoming p
  match h : p.step address.id r with
  | .going q =>
    have := Probe.rank_lt_of_step h
    x.drive address incoming q
  | .ended size result => return (size, result)
termination_by p.rank

def probe (x : Proxy) (address : PeerAddress) : IO (Except ProbeError Document) := do
  let started ← IO.monoMsNow
  let (size, result) ← x.drive address (← IO.mkRef none) .asking
  let now ← IO.monoMsNow
  x.monitor.modify (·.recordProbe started now address size result)
  return result

partial def work (x : Proxy) (pass : IO.Ref Pass) : IO Unit := do
  let next ← pass.modifyGet fun p =>
    match p.start? (Pass.width x.settings.discoveryPolicy) with
    | some (c, p) => (some c, p)
    | none => (none, p)
  if let some c := next then
    let result ← x.probe c.address
    pass.modify (·.finish c result)
    x.work pass

def run (x : Proxy) (p : Pass) : IO Unit := do
  let width := Pass.width x.settings.discoveryPolicy
  let pass ← IO.mkRef p
  let workers ← (List.range (min width p.waiting.length)).mapM fun _ =>
    IO.asTask (x.work pass) .dedicated
  for w in workers do
    discard (IO.wait w)

partial def walk (x : Proxy) (i : Interval) : IO Unit := do
  if ← x.stopped.get then return
  let now ← IO.monoMsNow
  if i.isDue now then
    let store := (← x.monitor.get).store
    x.run (.ofStore x.settings.discoveryPolicy store now)
    x.monitor.modify fun m => { m with metrics := m.metrics.countTick }
    x.walk (i.take now)
  else
    IO.sleep (min pulseMs (i.due - now)).toUInt32
    x.walk i

def event (x : Proxy) (socket : TCP.Socket.Client) (s : Session) : IO SessionEvent := do
  if !s.writing then return .turn (← x.stopped.get) (← IO.monoMsNow)
  else if s.unsent.isEmpty then return .reply .flushed
  else return .reply (← send socket s.deadline s.unsent)

partial def converse (x : Proxy) (socket : TCP.Socket.Client) (c : Course) : IO Unit := do
  if c.ended.isSome then return
  let event ← x.event socket c.session
  let next ← x.monitor.modifyGet fun m =>
    let (m, c) := c.step x.settings.subscriber.sessionPolicy m event
    (c, m)
  if !c.session.writing && !next.session.writing && next.ended.isNone then IO.sleep restMs
  x.converse socket next

def welcome (x : Proxy) (socket : TCP.Socket.Client) : IO Unit := do
  socket.noDelay
  let deadline := (← IO.monoMsNow) + preambleMs
  if ← answer socket deadline x.key [subscriberProtocol] then
    if let some s ← x.monitor.modifyGet Monitor.subscribe then x.converse socket (.start s)

def tellMetrics (x : Proxy) (socket : TCP.Socket.Client) : IO Unit := do
  let deadline := (← IO.monoMsNow) + preambleMs
  let asked (script : List Segment) : Bool := (Segment.drain script).drop 3 |>.any (· = 10)
  discard (gather socket deadline asked [])
  let lines := (← x.monitor.get).metrics.exposition
  let body := Utf8.ofString ("\n".intercalate lines ++ "\n")
  let head := [Metrics.httpStatus, s!"content-type: {Metrics.contentType}",
    s!"content-length: {body.length}", "connection: close", "", ""]
  discard (send socket deadline (Utf8.ofString ("\r\n".intercalate head) ++ body))
  Async.block socket.shutdown

partial def accept (x : Proxy) (server : TCP.Socket.Server)
    (serve : TCP.Socket.Client → IO Unit) : Async Unit := do
  try
    let socket ← server.accept
    discard (IO.asTask (serve socket) .dedicated)
  catch _ => sleep 100
  if !(← x.stopped.get) then x.accept server serve

def listen (x : Proxy) (a : SocketAddr) (serve : TCP.Socket.Client → IO Unit) : IO Unit := do
  let server ← TCP.Socket.Server.mk
  server.bind (endpoint a)
  server.listen 1024
  discard (x.accept server serve).toIO

def exposeMetrics (x : Proxy) : IO Unit := do
  if let some port := x.settings.metricsPort then
    try x.listen (.v4 ⟨0, 0, 0, 0⟩ port) x.tellMetrics
    catch e => IO.eprintln s!"metrics server failed: {e}"

def serve (x : Proxy) : IO Unit := do
  x.exposeMetrics
  x.listen x.settings.listen x.welcome
  x.run (.ofSeeds x.settings.discoveryPolicy x.settings.seedAddresses)
  x.walk (.start x.settings.tickMs (← IO.monoMsNow))

end Proxy
end PeerWatch.Live
