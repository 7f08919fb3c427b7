import PeerWatch.Chain
import PeerWatch.Net.Handshake
import PeerWatch.Net.Socket
import PeerWatch.Probe.Basic
import PeerWatch.Store.Monitor
import PeerWatch.Stream.Script

/-!
Probing over TCP. A peer counts as connected once one of its addresses has accepted a connection;
the socket is remembered for the identity and every stream is opened on it, until one cannot be
opened.
-/

namespace PeerWatch

inductive LinkFault
  | refused
  | unreachable
  | other (reason : String)
  deriving DecidableEq, Repr

def LinkFault.message : LinkFault → String
  | .refused => "Connection refused (os error 111)"
  | .unreachable => "Network is unreachable (os error 101)"
  | .other reason => reason

inductive NetError
  | io (fault : LinkFault)
  | noAddress (id : PeerId)
  | handshake (fault : Handshake.Fault)
  | notConnected
  deriving DecidableEq

def NetError.message : NetError → String
  | .io fault => s!"I/O error: {fault.message}"
  | .noAddress id => s!"no dialable address for {id.text}"
  | .handshake fault => fault.message
  | .notConnected => "not connected"

/-- What lies between here and the sockets of others: the sockets of a host, and what comes of a
connection to a socket. If it is accepted, what is sent there is answered with a stream. -/
structure Link where
  resolve : HostAddr → Except LinkFault (List SocketAddr)
  dial : SocketAddr → Except LinkFault (String → List Segment)

def Ip.socket (ip : Ip) (port : UInt16) : SocketAddr :=
  match ip with
  | .v4 ip => .v4 ip port
  | .v6 ip => .v6 ip 0 port

structure Transport where
  key : String
  sockets : List (PeerId × SocketAddr) := []

namespace Transport

/-- The sockets to try for an address, in order, or why a host has none. -/
def sockets? (link : Link) (address : PeerAddress) : List (Except LinkFault SocketAddr) :=
  address.hosts.flatMap fun h =>
    match link.resolve h with
    | .ok sockets => sockets.map .ok
    | .error fault => [.error fault]

/-- The first socket that accepts a connection, or why the last one did not. -/
def firstOpen (link : Link) : Option LinkFault → List (Except LinkFault SocketAddr) →
    Except (Option LinkFault) SocketAddr
  | last, [] => .error last
  | _, .error fault :: rest => firstOpen link (some fault) rest
  | _, .ok socket :: rest =>
    match link.dial socket with
    | .ok _ => .ok socket
    | .error fault => firstOpen link (some fault) rest

def reach (link : Link) (address : PeerAddress) : Except NetError SocketAddr :=
  match firstOpen link none (sockets? link address) with
  | .ok socket => .ok socket
  | .error (some fault) => .error (.io fault)
  | .error none => .error (.noAddress address.id)

def isConnected (t : Transport) (id : PeerId) : Bool := (t.sockets.lookup id).isSome

def invalidate (t : Transport) (id : PeerId) : Transport :=
  { t with sockets := t.sockets.filter (·.1 ≠ id) }

def remember (t : Transport) (id : PeerId) (socket : SocketAddr) : Transport :=
  { t with sockets := assign id socket t.sockets }

def connect (link : Link) (t : Transport) (address : PeerAddress) :
    Except NetError Unit × Transport :=
  match reach link address with
  | .ok socket => (.ok (), t.remember address.id socket)
  | .error e => (.error e, t)

def openOn (link : Link) (key protocol : String) (socket : SocketAddr) :
    Except NetError (List Segment) :=
  match link.dial socket with
  | .error fault => .error (.io fault)
  | .ok remote =>
    match Handshake.dial protocol (remote (Handshake.preamble key protocol)) with
    | .ok rest => .ok rest
    | .error fault => .error (.handshake fault)

/-- Opens a stream to a peer on the socket that is remembered, and forgets it if that fails. -/
def openStream (link : Link) (t : Transport) (address : PeerAddress) (protocol : String) :
    Except NetError (List Segment) × Transport :=
  match t.sockets.lookup address.id with
  | none => (.error .notConnected, t)
  | some socket =>
    match openOn link t.key protocol socket with
    | .ok rest => (.ok rest, t)
    | .error e => (.error e, t.invalidate address.id)

def answer {l : FetchLimits} (link : Link) (address : PeerAddress) (s : Transport × Playback) :
    Probe l → Option Reply × Transport × Playback
  | .asking => (some (.connected (s.1.isConnected address.id)), s)
  | .connecting =>
    match s.1.connect link address with
    | (.ok _, t) => (some .done, t, s.2)
    | (.error e, t) => (some (.failed e.message), t, s.2)
  | .opening =>
    match s.1.openStream link address nodeStatusProtocol with
    | (.ok rest, t) => (some .done, t, { s.2 with script := rest })
    | (.error e, t) => (some (.failed e.message), t, s.2)
  | .reading r =>
    let (a, stream) := s.2.read r.room r.patience
    (some (.arrived a), s.1, stream)

def probe (link : Link) (l : FetchLimits) (now : Nat) (t : Transport) (address : PeerAddress) :
    (Option Nat × Except ProbeError Document) × Nat × Transport :=
  let (result, t, stream) :=
    Probe.drive (answer link address) address.id (.asking (l := l)) (t, .start [] now)
  (result, stream.now, t)

end Transport

end PeerWatch
