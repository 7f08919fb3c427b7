import PeerWatch.Json.Reader
import PeerWatch.Json.Record
import PeerWatch.Peer.Address

/-!
The status document that a peer reports of itself, and the adverts of other peers in it. Reading
is tolerant: a field that is missing or `null` has its default, a member of another name is passed
over, and `null` among the adverts is dropped.
-/

namespace PeerWatch

structure Advert where
  host : String
  peerId : String
  port : Int64
  deriving DecidableEq

structure Document where
  ipAddr : String
  peerId : String
  syncStatus : String
  stateHash : String
  gitCommit : String
  uptimeMinutes : Int64
  adverts : List Advert
  blockHashes : List (String × String)
  deriving DecidableEq

namespace Advert

def fieldNames : List String := ["host", "peer_id", "libp2p_port"]

def ofJson? (v : Json) : Option Advert := do
  let fs ← v.fields? fieldNames
  return ⟨← Json.lenient Json.text? "" "host" fs, ← Json.lenient Json.text? "" "peer_id" fs,
    ← Json.lenient Json.int64? 0 "libp2p_port" fs⟩

def toJson (a : Advert) : Json :=
  .ofFields [("host", .ofText a.host), ("peer_id", .ofText a.peerId),
    ("libp2p_port", .ofInt a.port.toInt)]

def address (a : Advert) : Except AddressError PeerAddress := do
  let id ← PeerId.ofString a.peerId
  let n := a.port.toInt
  if n < 0 ∨ 65535 < n then throw (.malformed (.portOutOfRange n))
  return ⟨id, [← HostAddr.ofText a.host.toList n.toNat.toUInt16]⟩

def address? (a : Advert) : Option PeerAddress :=
  match a.address with
  | .ok addr => some addr
  | .error _ => none

end Advert

namespace Document

def empty : Document := ⟨"", "", "", "", "", 0, [], []⟩

def fieldNames : List String :=
  ["node_ip_addr", "node_peer_id", "sync_status", "protocol_state_hash", "git_commit",
    "uptime_minutes", "peers", "k_block_hashes_and_timestamps"]

def pair? : Json → Option (String × String)
  | .array [a, b] => do return (← a.text?, ← b.text?)
  | _ => none

/-- Reads adverts, dropping each `null`. -/
def adverts? (v : Json) : Option (List Advert) :=
  (Json.list? (Json.nullable Advert.ofJson?) v).map fun as => as.filterMap id

def ofJson? (v : Json) : Option Document := do
  let fs ← v.fields? fieldNames
  return {
    ipAddr := ← Json.lenient Json.text? "" "node_ip_addr" fs
    peerId := ← Json.lenient Json.text? "" "node_peer_id" fs
    syncStatus := ← Json.lenient Json.text? "" "sync_status" fs
    stateHash := ← Json.lenient Json.text? "" "protocol_state_hash" fs
    gitCommit := ← Json.lenient Json.text? "" "git_commit" fs
    uptimeMinutes := ← Json.lenient Json.int64? 0 "uptime_minutes" fs
    adverts := ← Json.lenient adverts? [] "peers" fs
    blockHashes := ← Json.lenient (Json.list? pair?) [] "k_block_hashes_and_timestamps" fs }

def parse? (bs : List UInt8) : Option Document := (Json.parse? bs).bind ofJson?

def toJson (d : Document) : Json :=
  .ofFields [("node_ip_addr", .ofText d.ipAddr), ("node_peer_id", .ofText d.peerId),
    ("sync_status", .ofText d.syncStatus), ("protocol_state_hash", .ofText d.stateHash),
    ("git_commit", .ofText d.gitCommit), ("uptime_minutes", .ofInt d.uptimeMinutes.toInt),
    ("peers", .array (d.adverts.map Advert.toJson)),
    ("k_block_hashes_and_timestamps",
      .array (d.blockHashes.map fun (a, b) => .array [.ofText a, .ofText b]))]

def render (d : Document) : List UInt8 := d.toJson.render

end Document
end PeerWatch
