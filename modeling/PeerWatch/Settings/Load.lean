import PeerWatch.Settings.Format

/-!
Loading settings: reading them and asking whether they make sense. The first fault in a fixed
order is the one that is told.
-/

namespace PeerWatch

inductive Limit
  | tickInterval | maxConcurrent | chunkSize | keepalive | queueCapacity | maxDrops
  deriving DecidableEq, Repr

def Limit.name : Limit → String
  | .tickInterval => "discovery.tick_interval_secs"
  | .maxConcurrent => "discovery.max_concurrent_probes"
  | .chunkSize => "fetch.chunk_size"
  | .keepalive => "subscriber.keepalive_interval_secs"
  | .queueCapacity => "subscriber.queue_capacity"
  | .maxDrops => "subscriber.max_consecutive_drops"

inductive SettingsFault
  | zero (limit : Limit)
  | chunkAbove (chunk max : Nat)
  | emptyChain
  | peerId (e : AddressError)
  | seed (text : String) (e : AddressError)
  deriving DecidableEq, Repr

def SettingsFault.message : SettingsFault → String
  | .zero limit => s!"{limit.name} must be > 0"
  | .chunkAbove c m => s!"fetch.chunk_size ({c}) must be <= fetch.max_response_bytes ({m})"
  | .emptyChain => "chain_id must not be empty"
  | .peerId e => s!"peer_id: {e.message}"
  | .seed text e => s!"seed {Text.quoted text}: {e.message}"

namespace Settings

def checkLimit (limit : Limit) (n : Nat) : Except SettingsFault Unit :=
  if n = 0 then .error (.zero limit) else .ok ()

def checkSeed (text : String) : Except SettingsFault Unit :=
  match PeerAddress.parse text with
  | .ok _ => .ok ()
  | .error e => .error (.seed text e)

def checkPeer : Option String → Except SettingsFault Unit
  | none => .ok ()
  | some text =>
    match PeerId.ofString text with
    | .ok _ => .ok ()
    | .error e => .error (.peerId e)

def check (s : Settings) : Except SettingsFault Unit := do
  checkLimit .tickInterval s.discovery.tickSecs.toNat
  checkLimit .maxConcurrent s.discovery.maxConcurrent.toNat
  checkLimit .chunkSize s.fetch.chunkSize.toNat
  if s.fetch.maxResponseBytes < s.fetch.chunkSize then
    throw (.chunkAbove s.fetch.chunkSize.toNat s.fetch.maxResponseBytes.toNat)
  checkLimit .keepalive s.subscriber.keepaliveSecs.toNat
  checkLimit .queueCapacity s.subscriber.queueCapacity.toNat
  checkLimit .maxDrops s.subscriber.maxDrops.toNat
  if s.chainId = "" then throw .emptyChain
  checkPeer s.peerId
  s.seeds.forM checkSeed

end Settings

inductive LoadError
  | noFile
  | notText
  | syntaxError
  | invalid (fault : SettingsFault)
  deriving DecidableEq, Repr

/-- The wording of a load error; what is wrong with the text's syntax is not described. -/
def LoadError.message : LoadError → String
  | .noFile => "failed to read config file: No such file or directory (os error 2)"
  | .notText => "failed to read config file: stream did not contain valid UTF-8"
  | .syntaxError => "failed to parse YAML"
  | .invalid fault => s!"invalid config: {fault.message}"

namespace Settings

def checked (s? : Option Settings) : Except LoadError Settings :=
  match s? with
  | none => .error .syntaxError
  | some s =>
    match s.check with
    | .ok _ => .ok s
    | .error fault => .error (.invalid fault)

def load (text : String) : Except LoadError Settings := checked (ofYaml? text)

def loadJson (bs : List UInt8) : Except LoadError Settings := checked (ofJson? bs)

def loadFile : Option (List UInt8) → Except LoadError Settings
  | none => .error .noFile
  | some bs =>
    match Utf8.decode? bs with
    | none => .error .notText
    | some text => load (String.ofList text)

end Settings
end PeerWatch
