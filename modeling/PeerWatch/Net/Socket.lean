import PeerWatch.Net.Ip

/-!
Socket addresses: an address with a port. A version 6 address stands in brackets and may carry a
scope number after a percent sign; scope 0 is the absence of one.
-/

namespace PeerWatch

inductive SocketAddr
  | v4 (ip : Ipv4) (port : UInt16)
  | v6 (ip : Ipv6) (scope : UInt32) (port : UInt16)
  deriving DecidableEq, Repr

namespace SocketAddr

def port : SocketAddr → UInt16
  | .v4 _ p | .v6 _ _ p => p

/-- The address without its port; the version 4 address if a version 6 one carries one. -/
def inner : SocketAddr → Ip
  | .v4 ip _ => .v4 ip
  | .v6 ip _ _ => ((ip.carried?).map Ip.v4).getD (.v6 ip)

def port? (s : List Char) : Option UInt16 :=
  (Text.number? s).bind fun n => if n < 65536 then some n.toUInt16 else none

def scope? (s : List Char) : Option UInt32 :=
  (Text.number? s).bind fun n => if n < 4294967296 then some n.toUInt32 else none

def bracketed? (s : List Char) : Option (Ipv6 × UInt32) :=
  match Text.cutFirst '%' s with
  | none => (Ipv6.parse? s).map fun ip => (ip, 0)
  | some (a, n) => do return (← Ipv6.parse? a, ← scope? n)

def parse? : List Char → Option SocketAddr
  | '[' :: s => do
    let (inside, rest) ← Text.cutFirst ']' s
    let (ip, scope) ← bracketed? inside
    match rest with
    | ':' :: p => return .v6 ip scope (← port? p)
    | _ => none
  | s => do
    let (a, p) ← Text.cutFirst ':' s
    return .v4 (← Ipv4.parse? a) (← port? p)

def text : SocketAddr → List Char
  | .v4 ip port => ip.text ++ ':' :: Text.decimal port.toNat
  | .v6 ip scope port =>
    let zone := if scope = 0 then [] else '%' :: Text.decimal scope.toNat
    '[' :: ip.text ++ zone ++ [']', ':'] ++ Text.decimal port.toNat

end SocketAddr
end PeerWatch
