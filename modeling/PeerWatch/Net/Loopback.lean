import PeerWatch.Discovery.Pass
import PeerWatch.Net.Client
import PeerWatch.Net.Transport
import PeerWatch.Session.Served

/-!
Peers, a proxy and its subscribers on one machine, connected by its own network, if that has a
route. Writing never waits there, and only probing takes time.
-/

namespace PeerWatch

/-- A peer that listens for probes. After the response the stream ends, or is held open. -/
structure Listener where
  key : String
  protocols : List String := [nodeStatusProtocol]
  body : List UInt8
  hold : Bool := false

def Listener.reply (l : Listener) (preamble : String) : List Segment :=
  match Handshake.accept l.key l.protocols [.bytes (Utf8.ofString preamble)] with
  | (.ok _, sent) =>
    .bytes (Utf8.ofString sent) :: Segment.putBack l.body (if l.hold then [.hang] else [])
  | (.error _, sent) => Segment.putBack (Utf8.ofString sent) []

/-- What a proxy sends to its subscribers: what happens to the store, or a fixed text. -/
inductive Broadcast
  | store
  | text (bs : List UInt8)

structure Subscribed where
  name : String
  received : List UInt8
  served : Option Served

structure Loopback where
  routed : Bool
  listeners : List (String × Listener)
  key : String
  limits : FetchLimits := { idleMs := 30 }
  discovery : DiscoveryPolicy := {}
  session : SessionPolicy := {}
  transport : Transport := { key }
  monitor : Monitor := { store := .empty {} }
  now : Nat := 0
  proxy : Option Broadcast := none
  stopped : Bool := false
  subscribed : List Subscribed := []

namespace Loopback

def home : Ip := .v4 ⟨127, 0, 0, 1⟩

/-- May somebody listen at the address? The ports below 1024 are reserved, and 0 stands for any free
one. A machine with routes knows its own addresses; one without takes every version 4 address for
a broadcast, at which anybody may listen, and has no version 6 address. -/
def admits (w : Loopback) (a : SocketAddr) : Bool :=
  (a.port = 0 || 1024 ≤ a.port) &&
    match a.inner with
    | .v4 ip => !w.routed || ip.a = 127 || ip = ⟨0, 0, 0, 0⟩
    | .v6 ip => ip.isUnspecified || (w.routed && ip.isLoopback)

/-- The port of a listener; nobody listens on port 1. -/
def portOf (names : List String) (name : String) : UInt16 :=
  match names.idxOf? name with
  | some i => (40000 + i).toUInt16
  | none => 1

def addressOf (w : Loopback) (id : PeerId) (names : List String) : PeerAddress :=
  ⟨id, names.map fun name => ⟨.ip home, portOf (w.listeners.map (·.1)) name⟩⟩

def link (w : Loopback) : Link where
  resolve h :=
    match h.host with
    | .ip ip => .ok [ip.socket h.port]
    | .dns _ => .error (.other "failed to lookup address information")
  dial socket :=
    if !w.routed then .error .unreachable
    else
      let names := w.listeners.map (·.1)
      match w.listeners.find? fun l => home.socket (portOf names l.1) = socket with
      | some (_, l) => .ok l.reply
      | none => .error .refused

/-- The sessions write all they can. A text is not worth waiting for. -/
def settle (w : Loopback) : Loopback :=
  let (monitor, subscribed) := w.subscribed.foldl (fun (m, done) s =>
    match s.served with
    | none => (m, done ++ [s])
    | some served =>
      let fuel := served.pipe.capacity
      let (m, served) := Served.serve w.session w.now w.stopped fuel m served
      let (bs, pipe) := served.pipe.read served.pipe.content.length
      (m, done ++ [{ s with received := s.received ++ bs, served := some { served with pipe } }]))
    (w.monitor, [])
  { w with monitor := monitor, subscribed := subscribed }

def fetch (w : Loopback) (address : PeerAddress) : Except ProbeError Document × Loopback :=
  let ((size, result), now, transport) :=
    Transport.probe w.link w.limits w.now w.transport address
  let monitor := w.monitor.recordProbe w.now now address size result
  (result, { w with now := now, transport := transport, monitor := monitor }.settle)

def pass (w : Loopback) (candidates : List Candidate) : Report × Loopback :=
  (Candidate.plan w.discovery.localPeer candidates).foldl (fun (report, w) c =>
    let (result, w) := w.fetch c.address
    (report.count c.origin result, w)) ({}, w)

def bootstrap (w : Loopback) (seeds : List PeerAddress) : Report × Loopback :=
  w.pass (Candidate.ofSeeds seeds)

def tick (w : Loopback) : Report × Loopback :=
  let (report, w) := w.pass (Candidate.ofStore w.monitor.store w.discovery.refreshMs w.now)
  (report, { w with monitor.metrics := w.monitor.metrics.countTick })

def connect (w : Loopback) (address : PeerAddress) : Except ProbeError Unit × Loopback :=
  let (r, transport) := w.transport.connect w.link address
  (r.mapError fun e => .connect address.id e.message, { w with transport := transport })

def openStream (w : Loopback) (address : PeerAddress) (protocol : String) :
    Except ProbeError (List UInt8) × Loopback :=
  let (r, transport) := w.transport.openStream w.link address protocol
  let r := r.mapError fun e => ProbeError.streamOpen address.id protocol e.message
  (r.map Segment.drain, { w with transport := transport })

def upsert (w : Loopback) (address : PeerAddress) (connected : Bool) (document : Option Document) :
    Loopback :=
  { w with monitor := w.monitor.upsert w.now address connected document }.settle

def send (w : Loopback) (text : String) : Except NetError String :=
  if !w.routed then .error (.io .unreachable)
  else match w.proxy with
    | none => .error (.io .refused)
    | some _ =>
      .ok (Handshake.accept w.key [subscriberProtocol] [.bytes (Utf8.ofString text)]).2

def dial (w : Loopback) (key protocol : String) : Except NetError Unit := do
  let sent ← w.send (Handshake.preamble key protocol)
  match Handshake.dial protocol (Segment.putBack (Utf8.ofString sent) []) with
  | .ok _ => return ()
  | .error fault => throw (.handshake fault)

def subscribe (w : Loopback) (name key : String) : Except NetError Unit × Loopback :=
  match w.dial key subscriberProtocol with
  | .error e => (.error e, w)
  | .ok _ =>
    let others := w.subscribed.filter (·.name ≠ name)
    match w.proxy with
    | some (.text bs) => (.ok (), { w with subscribed := others ++ [⟨name, bs, none⟩] })
    | _ =>
      let (served, monitor) := Served.start 1000000000 w.monitor
      let subscribed := others ++ [⟨name, [], some served⟩]
      (.ok (), { w with monitor := monitor, subscribed := subscribed }.settle)

def next (w : Loopback) (name : String) : Option (Except RecordError (Option View)) × Loopback :=
  match w.subscribed.find? (·.name = name) with
  | none => (none, w)
  | some s =>
    let (r, rest) := Client.nextView s.received
    (some r, { w with subscribed := w.subscribed.map fun s =>
      if s.name = name then { s with received := rest } else s })

def drop (w : Loopback) (name : String) : Bool × Loopback :=
  let (gone, others) := w.subscribed.partition (·.name = name)
  let monitor := (gone.filterMap (·.served)).foldl (fun m s => m.release s.session.subscriber)
    w.monitor
  (!gone.isEmpty, { w with monitor := monitor, subscribed := others })

def start (w : Loopback) (proxy : Broadcast) : Loopback :=
  { w with proxy := some proxy, stopped := false }

def stop (w : Loopback) : Loopback := { w with stopped := true, proxy := none }.settle

def take (w : Loopback) (name : String) : Nat → List View × Loopback
  | 0 => ([], w)
  | n + 1 =>
    match w.next name with
    | (some (.ok (some v)), w) =>
      let (views, w) := w.take name n
      (v :: views, w)
    | (_, w) => ([], w)

end Loopback
end PeerWatch
