import PeerWatch.Net.Ip
import PeerWatch.Peer.Id
import PeerWatch.Text.Cut

/-!
Peer addresses: who a peer is and where it can be reached. An address is written in the long form
`/ip4/<ip>/tcp/<port>/p2p/<id>` (also with `ip6`, `dns`, `dns4`, `dns6`) or in the short form
`<id>@<host>:<port>`; it prints in the long form, with its first host.
-/

namespace PeerWatch

inductive Host
  | ip (addr : Ip)
  | dns (name : String)
  deriving DecidableEq, Repr

def Host.text : Host → String
  | .ip addr => String.ofList addr.text
  | .dns name => name

structure HostAddr where
  host : Host
  port : UInt16
  deriving DecidableEq, Repr

structure PeerAddress where
  id : PeerId
  hosts : List HostAddr
  deriving DecidableEq

namespace HostAddr

def ofText (host : List Char) (port : UInt16) : Except AddressError HostAddr :=
  let host := Text.trim host
  if host.isEmpty then .error (.malformed .emptyHost)
  else if port = 0 then .error (.malformed (.portZeroForHost (String.ofList host)))
  else match Ip.parse? host with
    | some ip => .ok ⟨.ip ip, port⟩
    | none => .ok ⟨.dns (String.ofList host), port⟩

def dialText (a : HostAddr) : String :=
  match a.host with
  | .ip (.v6 ip) => s!"[{String.ofList ip.text}]:{a.port.toNat}"
  | host => s!"{host.text}:{a.port.toNat}"

def protocol (a : HostAddr) : String :=
  match a.host with
  | .ip (.v4 _) => "ip4"
  | .ip (.v6 _) => "ip6"
  | .dns _ => "dns4"

end HostAddr

namespace PeerAddress

def port? (s : List Char) : Option UInt16 :=
  let digits := match s with
    | '+' :: ds => ds
    | ds => ds
  (Text.number? digits).bind fun n => if n < 65536 then some n.toUInt16 else none

def longHost (whole : String) (proto host : List Char) : Except AddressError Host :=
  let proto := String.ofList proto
  if proto = "ip4" ∨ proto = "ip6" then
    match Ip.parse? host with
    | none => .error (.malformed (.badIp whole))
    | some ip =>
      if (proto = "ip4") = (ip.isV4 = true) then .ok (.ip ip)
      else .error (.malformed (.familyMismatch whole))
  else if proto = "dns" ∨ proto = "dns4" ∨ proto = "dns6" then .ok (.dns (String.ofList host))
  else .error (.unsupportedProtocol proto)

def ofLong (s : List Char) : Except AddressError PeerAddress :=
  let whole := String.ofList s
  match (Text.pieces '/' s).tail with
  | [proto, host, transport, port, tag, id] => do
    let host ← longHost whole proto host
    if String.ofList transport ≠ "tcp" then
      throw (.unsupportedProtocol (String.ofList transport))
    let some port := port? port | throw (.malformed (.badPort whole))
    if port = 0 then throw (.malformed (.portZero whole))
    if String.ofList tag ≠ "p2p" ∧ String.ofList tag ≠ "ipfs" then throw (.missingPeerId whole)
    return ⟨← PeerId.ofString (String.ofList id), [⟨host, port⟩]⟩
  | _ => .error (.malformed (.shape whole))

def unbracket (s : List Char) : List Char :=
  Text.dropEndWhile (· = ']') (s.dropWhile (· = '['))

def ofShort (s : List Char) : Except AddressError PeerAddress := do
  let whole := String.ofList s
  let some (id, rest) := Text.cutFirst '@' s | throw (.missingPeerId whole)
  let id ← PeerId.ofString (String.ofList id)
  let some (host, port) := Text.cutLast ':' rest | throw (.malformed (.missingPort whole))
  let some port := port? port | throw (.malformed (.badPort whole))
  return ⟨id, [← HostAddr.ofText (unbracket host) port]⟩

def parse (s : String) : Except AddressError PeerAddress :=
  let s := Text.trim s.toList
  if s.head? = some '/' then ofLong s else ofShort s

/-- The text of an address in the long form, with its first host. -/
def text (a : PeerAddress) : String :=
  match a.hosts with
  | h :: _ => s!"/{h.protocol}/{h.host.text}/tcp/{h.port.toNat}/p2p/{a.id.text}"
  | [] => s!"/p2p/{a.id.text}"

end PeerAddress
end PeerWatch
