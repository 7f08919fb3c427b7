import PeerWatch.Status.Document
import PeerWatch.Text.Base64

/-!
What subscribers are told of a peer, and the line that tells it. A record is one line: the view's
JSON in Base64. An empty line keeps an idle connection alive and tells nothing.
-/

namespace PeerWatch

/-- What is broadcast of a peer. Its addresses and its adverts are not. -/
structure View where
  connected : Bool
  peerId : PeerId
  syncStatus : String
  stateHash : String
  gitCommit : String
  uptimeMinutes : Int64
  deriving DecidableEq

inductive RecordError
  | base64 (fault : Base64.Fault)
  | json
  deriving DecidableEq

/-- The wording of a record error; the fault of a JSON text is not described. -/
def RecordError.message : RecordError → String
  | .base64 f => s!"invalid base64 record: {f.message}"
  | .json => "invalid JSON record"

namespace View

def make (id : PeerId) (connected : Bool) : Option Document → View
  | none => ⟨connected, id, "", "", "", 0⟩
  | some d => ⟨connected, id, d.syncStatus, d.stateHash, d.gitCommit, d.uptimeMinutes⟩

def fieldNames : List String :=
  ["connected", "peer_id", "sync_status", "protocol_state_hash", "git_commit", "uptime_minutes"]

/-- Reads a view; every field must be there. -/
def ofJson? (v : Json) : Option View := do
  let fs ← v.fields? fieldNames
  return ⟨← Json.required Json.bool? "connected" fs,
    ← (Json.required Json.text? "peer_id" fs).bind PeerId.ofString?,
    ← Json.required Json.text? "sync_status" fs,
    ← Json.required Json.text? "protocol_state_hash" fs,
    ← Json.required Json.text? "git_commit" fs,
    ← Json.required Json.int64? "uptime_minutes" fs⟩

def toJson (v : View) : Json :=
  .ofFields [("connected", .bool v.connected), ("peer_id", .ofText v.peerId.text),
    ("sync_status", .ofText v.syncStatus), ("protocol_state_hash", .ofText v.stateHash),
    ("git_commit", .ofText v.gitCommit), ("uptime_minutes", .ofInt v.uptimeMinutes.toInt)]

def render (v : View) : List UInt8 := v.toJson.render

def record (v : View) : List UInt8 := Base64.encode v.render ++ [10]

/-- The view that a line records, or `none` for a keep-alive. The line may have its end on it. -/
def ofLine (line : List UInt8) : Except RecordError (Option View) :=
  let body := (line.reverse.dropWhile fun b => b = 10 || b = 13).reverse
  if body.isEmpty then .ok none
  else match Base64.decode body with
    | .error f => .error (.base64 f)
    | .ok bs =>
      match (Json.parse? bs).bind ofJson? with
      | some v => .ok (some v)
      | none => .error .json

end View

def keepAlive : List UInt8 := [10]

end PeerWatch
