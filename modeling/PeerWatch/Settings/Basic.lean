import PeerWatch.Net.Socket
import PeerWatch.Peer.Address
import PeerWatch.Chain
import PeerWatch.Json.Value

/-!
The settings of a proxy: where it listens, which chain and seeds it joins, how it probes peers and
how it serves subscribers. Every setting has a default. Spans of time end in `Secs` or `Ms`.
-/

namespace PeerWatch

structure DiscoverySettings where
  tickSecs : UInt64 := 10
  refreshSecs : UInt64 := 60
  maxConcurrent : UInt64 := 1
  deriving DecidableEq

structure FetchSettings where
  chunkSize : UInt64 := 1048576
  maxResponseBytes : UInt64 := 33554432
  connectMs : UInt64 := 10000
  streamMs : UInt64 := 10000
  readMs : UInt64 := 10000
  idleMs : UInt64 := 500
  deriving DecidableEq

structure SubscriberSettings where
  keepaliveSecs : UInt64 := 10
  queueCapacity : UInt64 := 256
  maxDrops : UInt32 := 64
  writeMs : UInt64 := 10000
  maxSubscribers : UInt64 := 16
  deriving DecidableEq

def mainnetChain : String := "5f704cc0c82e0ed70e873f0893d7e06f148524e3f0bdae2afb02e7819a0c24d1"

def mainnetSeeds : List String := [
  "/dns4/seed-1.mainnet.o1test.net/tcp/10000/p2p/12D3KooWCa1d7G3SkRxy846qTvdAFX69NnoYZ32orWVLqJcDVGHW",
  "/dns4/seed-2.mainnet.o1test.net/tcp/10001/p2p/12D3KooWK4NfthViCTyLgVQa1WvqDC1NccVxGruCXCZUt3GqvFvn",
  "/dns4/seed-3.mainnet.o1test.net/tcp/10002/p2p/12D3KooWNofeYVAJXA3WGg2qCDhs3GEe71kTmKpFQXRbZmCz1Vr7",
  "/dns4/mina-seed.bitcat365.com/tcp/10001/p2p/12D3KooWQzozNTDKL7MqUh6Nh11GMA4pQhRCAsNTRWxCAzAi4VbE",
  "/dns4/mina-seed-1.zkvalidator.com/tcp/8302/p2p/12D3KooWSR7LMBSfEk3LQUudmsX27yuRHe9NUxwLumurGF5P1MNS",
  "/dns4/mina-1.figment.io/tcp/8302/p2p/12D3KooWSkfwArLtqGMht1a9w3z3QiiqA2E6seBRAk378rvanGRZ",
  "/dns4/mina-seed.staker.space/tcp/8302/p2p/12D3KooWCE97fGwuDCicVNK3ZWF8fVzfNezp3uGjmSc8VrRFem6a",
  "/dns4/mina-seed.genesislab.net/tcp/8302/p2p/12D3KooWRcHiFQsbYgjPSxtMg4Y9ifrvmCFtJQ8Qztqd3z4L9buU",
  "/dns4/mina-seed.hashquark.io/tcp/8302/p2p/12D3KooWRqdbJszoX6AB2E47KR45Kex1RptichA2MDkNSCqX5eb4",
  "/ip4/95.217.106.189/tcp/8302/p2p/12D3KooWSxxCtzRLfUzoxgRYW9fTKWPUujdvStuwCPSPUN3629mb",
  "/dns4/mina.cloud.p2pvalidator.org/tcp/8302/p2p/12D3KooW9qa8CcihmpPbKjN1e8da1RsBS67bExgpVDD9sCjzbHfh",
  "/dns4/mina-seed.dsrvlabs.net/tcp/8302/p2p/12D3KooWFTrtiuscobTsJwvShNzBWH56Jt6hWoZTtYqFFyQWFA7c",
  "/dns4/mina-seed-1.nodeasy.com/tcp/10001/p2p/12D3KooWRMXtoYktAqkNFd9LkT1XpAJWryqje88owWf9v9SpaayN",
  "/dns4/earth.mina.kelepool.pro/tcp/8302/p2p/12D3KooWSBRhKVd9r1JXkRTD4qc9SkNd9ACrRCeW9e6GcDakqHjh",
  "/dns4/seed.minaprotocol.fish/tcp/8302/p2p/12D3KooWQHTEXCbS1xxEMFHdALBTA1uLbFPr3okXvUos57d5seHW",
  "/ip4/159.89.96.164/tcp/8302/p2p/12D3KooWCCZkMjQxsBsSLPmAvFC9RGLz4XjKtdvpKmBdr5zpYz6x",
  "/dns4/seed.mina-staked.cloud/tcp/8302/p2p/12D3KooWNbeghjwB9MKgVniTv4pqtCbtHxjWpidiaoRiMhow3Mr1",
  "/ip4/47.242.110.4/tcp/8302/p2p/12D3KooWKsgKQRNsptXF7MDJ37FzJ9sz6uACuzow6zTJkyog3bWq",
  "/dns4/seed.minaexplorer.com/tcp/8302/p2p/12D3KooWR7coZtrMHvsgsfiWq2GESYypac3i29LFGp6EpbtjxBiJ",
  "/ip4/135.181.63.89/tcp/8302/p2p/12D3KooWNtvMGAvzrDEPBAHhiB7YoSWjPgmLcMmEeLCeoomWT8bT",
  "/ip4/135.181.132.212/tcp/8302/p2p/12D3KooWDGUWGrbHWrzft9iASSeytvbU9QmzxMavxAqqDfz8e7xE",
  "/dns4/seed.piconbello.com/tcp/10001/p2p/12D3KooWRFac2AztcTeen2DYNwnTrmVBvwNDsRiFpDVdTkwdFAHP",
  "/dns4/mina-seed.w3m.one/tcp/10001/p2p/12D3KooWFVvahnR3ofaSNX5XZaUQJ1zbrySjNCJP8K1vjBhHWURB"]

structure Settings where
  listen : SocketAddr := .v4 ⟨127, 0, 0, 1⟩ 23333
  peerId : Option String := none
  chainId : String := mainnetChain
  seeds : List String := mainnetSeeds
  discovery : DiscoverySettings := {}
  fetch : FetchSettings := {}
  subscriber : SubscriberSettings := {}
  metricsPort : Option UInt16 := none
  deriving DecidableEq

namespace Settings

/-- The addresses of the seeds that name one. -/
def seedAddresses (s : Settings) : List PeerAddress :=
  s.seeds.filterMap fun seed => (PeerAddress.parse seed).toOption

/-- The identity of the proxy itself, if it is given and valid. -/
def localPeer (s : Settings) : Option PeerId := s.peerId.bind PeerId.ofString?

def tickMs (s : Settings) : Nat := s.discovery.tickSecs.toNat * 1000

/-- The age in milliseconds beyond which an entry is probed again. -/
def refreshMs (s : Settings) : Nat := s.discovery.refreshSecs.toNat * 1000

end Settings

def Json.ofUInt64 (n : UInt64) : Json := .ofNat n.toNat

def Json.ofOption {α : Type} (write : α → Json) : Option α → Json
  | none => .null
  | some a => write a

namespace DiscoverySettings

def fieldNames : List String :=
  ["tick_interval_secs", "refresh_threshold_secs", "max_concurrent_probes"]

def toJson (s : DiscoverySettings) : Json :=
  .ofFields [("tick_interval_secs", .ofUInt64 s.tickSecs),
    ("refresh_threshold_secs", .ofUInt64 s.refreshSecs),
    ("max_concurrent_probes", .ofUInt64 s.maxConcurrent)]

end DiscoverySettings

namespace FetchSettings

def fieldNames : List String :=
  ["chunk_size", "max_response_bytes", "connect_timeout_ms", "stream_timeout_ms",
    "read_timeout_ms", "read_idle_timeout_ms"]

def toJson (s : FetchSettings) : Json :=
  .ofFields [("chunk_size", .ofUInt64 s.chunkSize),
    ("max_response_bytes", .ofUInt64 s.maxResponseBytes),
    ("connect_timeout_ms", .ofUInt64 s.connectMs), ("stream_timeout_ms", .ofUInt64 s.streamMs),
    ("read_timeout_ms", .ofUInt64 s.readMs), ("read_idle_timeout_ms", .ofUInt64 s.idleMs)]

end FetchSettings

namespace SubscriberSettings

def fieldNames : List String :=
  ["keepalive_interval_secs", "queue_capacity", "max_consecutive_drops", "write_timeout_ms",
    "max_subscribers"]

def toJson (s : SubscriberSettings) : Json :=
  .ofFields [("keepalive_interval_secs", .ofUInt64 s.keepaliveSecs),
    ("queue_capacity", .ofUInt64 s.queueCapacity),
    ("max_consecutive_drops", .ofNat s.maxDrops.toNat), ("write_timeout_ms", .ofUInt64 s.writeMs),
    ("max_subscribers", .ofUInt64 s.maxSubscribers)]

end SubscriberSettings

namespace Settings

def fieldNames : List String :=
  ["listen", "peer_id", "chain_id", "seeds", "discovery", "fetch", "subscriber", "metrics_port"]

def toJson (s : Settings) : Json :=
  .ofFields [("listen", .ofText (String.ofList s.listen.text)),
    ("peer_id", .ofOption .ofText s.peerId), ("chain_id", .ofText s.chainId),
    ("seeds", .array (s.seeds.map .ofText)), ("discovery", s.discovery.toJson),
    ("fetch", s.fetch.toJson), ("subscriber", s.subscriber.toJson),
    ("metrics_port", .ofOption (fun p => .ofNat p.toNat) s.metricsPort)]

end Settings
end PeerWatch
