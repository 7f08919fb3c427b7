import PeerWatch.Json.Reader
import PeerWatch.Json.Record
import PeerWatch.Settings.Basic
import PeerWatch.Yaml.Node

/-!
Reading settings. One reader serves both notations; `Format` says how a notation writes records,
lists, texts and numbers. A field that is not there has its default, and a field of another name
is passed over.
-/

namespace PeerWatch

/-- How a notation writes what settings are made of: `fields?` gives the fields of a record of
these field names, and `absent?` says whether a value stands for none. -/
structure Format (V : Type) where
  fields? : List String → V → Option (List (String × V))
  items? : V → Option (List V)
  text? : V → Option String
  nat? : V → Option Nat
  absent? : V → Option Bool

def Json.nat? (v : Json) : Option Nat := v.int?.bind Int.toNat?

def Format.json : Format Json where
  fields? := Json.fields?
  items? := Json.items?
  text? := Json.text?
  nat? := Json.nat?
  absent?
    | .null => some true
    | _ => some false

namespace Yaml

def text? : Yaml → Option String
  | .scalar _ _ text => some text
  | _ => none

/-- The items of a sequence; a missing value has none. -/
def items? : Yaml → Option (List Yaml)
  | .sequence items => some items
  | .scalar .plain _ "" => some []
  | _ => none

def entries? : Yaml → Option (List (Yaml × Yaml))
  | .mapping entries => some entries
  | .scalar .plain _ "" => some []
  | _ => none

def bases : List (Char × Nat) := [('x', 16), ('o', 8), ('b', 2)]

/-- Reads the digits of a number, with or without a base in front. A decimal number starts with
no idle zero. -/
def digits? (s : List Char) : Option Nat :=
  match s with
  | '0' :: b :: ds => (bases.lookup b).bind fun base => Text.numberIn? base ds
  | _ => Text.number? s

/-- The number that a text is; a plus sign may stand in front. -/
def natIn? (s : List Char) : Option Nat :=
  match s with
  | '+' :: s => digits? s
  | s => digits? s

/-- The number that a scalar is, if it is plain, or a literal block with the tag of integers. -/
def nat? : Yaml → Option Nat
  | .scalar style tag text =>
    if style = .plain ∨ (style = .literal ∧ tag = some (Tag.standard "int")) then natIn? text.toList
    else none
  | _ => none

def absences : List String := ["~", "null", "Null", "NULL"]

/-- Does the value stand for none? The plain scalars that do are the missing one and those that
spell it. With the tag of absent values only a spelling makes sense, and with another tag no value
is absent. -/
def absent? : Yaml → Option Bool
  | .scalar .plain none text => some (text = "" || absences.contains text)
  | .scalar .plain (some tag) text =>
    if tag ≠ Tag.standard "null" then some false
    else if absences.contains text then some true
    else none
  | _ => some false

def Document.fields? (d : Document) (names : List String) (entries : List (Yaml × Yaml)) :
    Option (List (String × Yaml)) := do
  let named ← entries.mapM fun (k, v) => (d.content k).text?.map fun name => (name, v)
  let known := named.filter fun m => names.contains m.1
  if (known.map (·.1)).Nodup then return known else none

end Yaml

/-- YAML: any scalar is a text, and only some can be numbers or absent. -/
def Format.yaml (d : Yaml.Document) : Format Yaml where
  fields? names v := (d.content v).entries?.bind (d.fields? names)
  items? v := (d.content v).items?
  text? v := (d.content v).text?
  nat? v := (d.content v).nat?
  absent? v := (d.content v).absent?

namespace Format
variable {V α : Type}

def field (read : V → Option α) (default : α) (name : String) (fields : List (String × V)) :
    Option α :=
  match fields.lookup name with
  | none => some default
  | some v => read v

def optional (f : Format V) (read : V → Option α) (v : V) : Option (Option α) :=
  (f.absent? v).bind fun absent => if absent then some none else (read v).map some

def list (f : Format V) (read : V → Option α) (v : V) : Option (List α) :=
  (f.items? v).bind fun vs => vs.mapM read

def below (f : Format V) (bound : Nat) (v : V) : Option Nat := (f.nat? v).filter (· < bound)

def uint64 (f : Format V) (v : V) : Option UInt64 :=
  (f.below 18446744073709551616 v).map Nat.toUInt64

def uint32 (f : Format V) (v : V) : Option UInt32 :=
  (f.below 4294967296 v).map Nat.toUInt32

def uint16 (f : Format V) (v : V) : Option UInt16 :=
  (f.below 65536 v).map Nat.toUInt16

def socket (f : Format V) (v : V) : Option SocketAddr :=
  (f.text? v).bind fun s => SocketAddr.parse? s.toList

def discovery (f : Format V) (v : V) : Option DiscoverySettings := do
  let fs ← f.fields? DiscoverySettings.fieldNames v
  let d : DiscoverySettings := {}
  return ⟨← field f.uint64 d.tickSecs "tick_interval_secs" fs,
    ← field f.uint64 d.refreshSecs "refresh_threshold_secs" fs,
    ← field f.uint64 d.maxConcurrent "max_concurrent_probes" fs⟩

def fetch (f : Format V) (v : V) : Option FetchSettings := do
  let fs ← f.fields? FetchSettings.fieldNames v
  let d : FetchSettings := {}
  return ⟨← field f.uint64 d.chunkSize "chunk_size" fs,
    ← field f.uint64 d.maxResponseBytes "max_response_bytes" fs,
    ← field f.uint64 d.connectMs "connect_timeout_ms" fs,
    ← field f.uint64 d.streamMs "stream_timeout_ms" fs,
    ← field f.uint64 d.readMs "read_timeout_ms" fs,
    ← field f.uint64 d.idleMs "read_idle_timeout_ms" fs⟩

def subscriber (f : Format V) (v : V) : Option SubscriberSettings := do
  let fs ← f.fields? SubscriberSettings.fieldNames v
  let d : SubscriberSettings := {}
  return ⟨← field f.uint64 d.keepaliveSecs "keepalive_interval_secs" fs,
    ← field f.uint64 d.queueCapacity "queue_capacity" fs,
    ← field f.uint32 d.maxDrops "max_consecutive_drops" fs,
    ← field f.uint64 d.writeMs "write_timeout_ms" fs,
    ← field f.uint64 d.maxSubscribers "max_subscribers" fs⟩

def settings (f : Format V) (v : V) : Option Settings := do
  let fs ← f.fields? Settings.fieldNames v
  let d : Settings := {}
  return ⟨← field f.socket d.listen "listen" fs,
    ← field (f.optional f.text?) d.peerId "peer_id" fs,
    ← field f.text? d.chainId "chain_id" fs,
    ← field (f.list f.text?) d.seeds "seeds" fs,
    ← field f.discovery d.discovery "discovery" fs,
    ← field f.fetch d.fetch "fetch" fs,
    ← field f.subscriber d.subscriber "subscriber" fs,
    ← field (f.optional f.uint16) d.metricsPort "metrics_port" fs⟩

end Format

def Settings.ofJson? (bs : List UInt8) : Option Settings :=
  (Json.parse? bs).bind Format.json.settings

def Settings.ofYaml? (text : String) : Option Settings :=
  (Yaml.Document.parse? text).bind fun d => (Format.yaml d).settings d.root

end PeerWatch
