import PeerWatch.Net.Transport
import PeerWatch.Session.Basic
import Std.Async.DNS
import Std.Async.TCP
import Std.Async.Timer

/-!
Connections to other machines. What comes in is told in the words of the readers and writers that
decide what to make of it; nothing is decided here.
-/

namespace PeerWatch.Live
open Std.Async Std.Net

def endpoint : SocketAddr → SocketAddress
  | .v4 ip port => .v4 ⟨.ofParts ip.a ip.b ip.c ip.d, port⟩
  | .v6 ip _ port => .v6 ⟨⟨⟨ip.groups.toArray, by simp [ip.length_groups]⟩⟩, port⟩

def ipOf : IPAddr → Ip
  | .v4 a => .v4 ⟨a.octets[0], a.octets[1], a.octets[2], a.octets[3]⟩
  | .v6 a => .v6 ⟨a.segments.toList, by simp⟩

def left (deadline : Nat) : IO Nat := do return deadline - (← IO.monoMsNow)

def before {α : Type} (deadline : Nat) (act : Async α) : IO (Option α) := do
  let timer ← Async.block (Sleep.mk (.ofNat (← left deadline)))
  let done : Async (Option α) := do return some (← act)
  let late : Async (Option α) := do
    timer.wait
    return none
  let r ← IO.waitAny [← done.toIO, ← late.toIO]
  timer.stop
  IO.ofExcept r

def resolve (deadline : Nat) (a : HostAddr) : IO (List SocketAddr) := do
  match a.host with
  | .ip ip => return [ip.socket a.port]
  | .dns name =>
    let found ← before deadline (DNS.getAddrInfo name (toString a.port.toNat))
    return ((found.getD #[]).toList.map fun ip => (ipOf ip).socket a.port).eraseDups

def dial (deadline : Nat) (a : SocketAddr) : IO (Option TCP.Socket.Client) :=
  before deadline do
    let s ← TCP.Socket.Client.mk
    s.connect (endpoint a)
    s.noDelay
    return s

def receive (s : TCP.Socket.Client) (room deadline : Nat) : IO Arrival := do
  try
    match ← before deadline (s.recv? room.toUInt64) with
    | some got => return .bytes ((got.map (·.toList)).getD [])
    | none => return .quiet
  catch e => return .failed (toString e)

def send (s : TCP.Socket.Client) (deadline : Nat) (bs : List UInt8) : IO WriteReply := do
  try
    match ← before deadline (s.send ⟨bs.toArray⟩) with
    | some _ => return .accepted bs.length
    | none => return .late
  catch e => return .failed (toString e)

partial def gather (s : TCP.Socket.Client) (deadline : Nat) (enough : List Segment → Bool)
    (said : List UInt8) : IO (List Segment) := do
  let script := Segment.putBack said [.hang]
  if enough script then return script
  match ← receive s Handshake.maxLine deadline with
  | .bytes [] => return Segment.putBack said []
  | .bytes bs => gather s deadline enough (said ++ bs)
  | .failed reason => return Segment.putBack said [.fail reason]
  | .quiet => return script

def ask (s : TCP.Socket.Client) (deadline : Nat) (key protocol : String) :
    IO (Option (List Segment)) := do
  let enough (script : List Segment) : Bool :=
    match Handshake.dial protocol script with
    | .error .stalled => false
    | _ => true
  match ← send s deadline (Utf8.ofString (Handshake.preamble key protocol)) with
  | .failed reason => return some [.fail reason]
  | .late => return none
  | .accepted _ | .flushed =>
    let script ← gather s deadline enough []
    return if enough script then some script else none

def offer (s : TCP.Socket.Client) (deadline : Nat) (key protocol : String) :
    IO (Except Handshake.Fault (List UInt8)) := do
  match ← ask s deadline key protocol with
  | none => return .error .stalled
  | some script => return (Handshake.dial protocol script).map Segment.drain

def answer (s : TCP.Socket.Client) (deadline : Nat) (key : String) (supported : List String) :
    IO Bool := do
  let enough (script : List Segment) : Bool :=
    match Handshake.accept key supported script with
    | (.error .stalled, _) => false
    | _ => true
  let (result, reply) := Handshake.accept key supported (← gather s deadline enough [])
  match ← send s deadline (Utf8.ofString reply), result with
  | .accepted _, .ok _ => return true
  | _, _ => return false

/-- What has come of a network so far: the sockets of hosts, and what those say that were tried. -/
structure Known where
  hosts : List (HostAddr × Except LinkFault (List SocketAddr)) := []
  tried : List (SocketAddr × Except LinkFault (List Segment)) := []

/-- A socket that was not tried is taken to accept, so that whoever looks for one that accepts comes
upon the one to be tried next. -/
def Known.link (k : Known) : Link where
  resolve h := (k.hosts.lookup h).getD (.ok [])
  dial a := ((k.tried.lookup a).getD (.ok [])).map fun script _ => script

def attempt {α : Type} (act : IO α) : IO (Except LinkFault α) := do
  try return .ok (← act)
  catch e => return .error (.other (toString e))

/-- Tries the sockets that a transport comes upon until one accepts or none is left. -/
partial def explore (deadline : Nat) (address : PeerAddress) (k : Known) : IO (Option Known) := do
  match Transport.reach k.link address with
  | .error _ => return if (← left deadline) = 0 then none else some k
  | .ok a =>
    match ← attempt (dial deadline a) with
    | .ok none => return none
    | .ok (some _) => return some k
    | .error fault => explore deadline address { k with tried := (a, .error fault) :: k.tried }

def call (deadline : Nat) (a : SocketAddr) (key protocol : String) :
    IO (Option (TCP.Socket.Client × List Segment)) := do
  match ← dial deadline a with
  | none => return none
  | some s => return (← ask s deadline key protocol).map (s, ·)

end PeerWatch.Live
