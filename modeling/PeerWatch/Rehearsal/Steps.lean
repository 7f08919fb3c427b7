import PeerWatch.Rehearsal.Clock

/-!
What can be asked of a rehearsal: passes and probes, loops, cancellation, subscriptions and
sessions. After each step everything that can go on at the present time has done so.
-/

namespace PeerWatch.Rehearsal.World
variable {c : Setup}

def dump (w : World c) : List String :=
  let f := c.fetch
  let d := c.discovery
  let localPeer := match d.localPeer with
    | some id => s!"Some({id.dump})"
    | none => "None"
  let record (name : String) (fields : List (String × String)) (more : Bool) : String :=
    let all := fields.map (fun (k, v) => k ++ ": " ++ v) ++ if more then [".."] else []
    name ++ " \x7b " ++ ", ".intercalate all ++ " \x7d"
  let fetch := record "FetchConfig"
    [("chunk_size", toString f.chunkSize), ("max_response_bytes", toString f.maxBytes),
      ("connect_timeout", Text.spanText f.connectMs), ("stream_timeout", Text.spanText f.streamMs),
      ("read_timeout", Text.spanText f.readMs), ("read_idle_timeout", Text.spanText f.idleMs)] false
  let discovery := record "DiscoveryConfig"
    [("tick_interval", Text.spanText d.tickMs), ("refresh_threshold", Text.spanText d.refreshMs),
      ("max_concurrent_probes", toString d.maxConcurrent), ("local_peer_id", localPeer)] false
  [record "NodeWatch" [("peers", toString w.monitor.store.size),
      ("subscribers", toString w.monitor.store.registry.active)] true,
    record "StatusFetcher" [("config", fetch)] true,
    record "Discovery" [("config", discovery)] true,
    record "ChaosTransport" [] true, record "ProxyMetrics" [] true]

def fetch (w : World c) (address : PeerAddress) (token : String) :
    Option (Except ProbeError Document) × World c :=
  let (number, w) := w.startWalk token .direct { waiting := [⟨address, .advertised⟩] }
  let (walk?, w) := w.finish number
  (walk?.bind (·.last), w)

def pass (w : World c) (token : String) (purpose : Purpose) (pass : Pass) : Report × World c :=
  let (number, w) := w.startWalk token purpose pass
  let (walk?, w) := w.finish number
  (walk?.elim {} (·.pass.report), w)

def bootstrap (w : World c) (seeds : List PeerAddress) (token : String) : Report × World c :=
  w.pass token .direct (.ofSeeds c.discovery seeds)

def tick (w : World c) (token : String) : Report × World c :=
  if w.isCancelled token then ({}, w.settle)
  else w.pass token .tick (.ofStore c.discovery w.monitor.store w.now)

def addLoop (w : World c) (token : String) : World c :=
  let (moment, w) := w.moment w.now
  let l : Loop := ⟨w.loops.length, token, .start c.discovery.tickMs w.now, .waiting moment⟩
  { w with loops := w.loops ++ [l] }

def spawn (w : World c) (token : String) : World c := (w.addLoop token).settle

def loopsEnded (w : World c) : List Bool := w.loops.map (·.state = .ended)

def cancelAfter (w : World c) (token : String) : Option Nat → World c
  | none => (w.cancel token).settle
  | some ms =>
    let (moment, w) := w.moment (w.now + ms)
    { w with cancels := w.cancels ++ [(moment, token)] }.settle

def upsert (w : World c) (address : PeerAddress) (connected : Bool) (document : Option Document) :
    Option Entry × World c :=
  let monitor := w.monitor.upsert w.now address connected document
  (monitor.store.get? address.id, { w with monitor := monitor }.settle)

def alter (w : World c) (f : Network → Network) : World c :=
  { w with network := f w.network }.settle

/-- Is a peer connected, as the disturbed network says and as the network itself does? -/
def isConnected (w : World c) (id : PeerId) : (Bool × Bool) × World c :=
  let (outer, network) := w.network.asks w.now id
  let (inner, network) := network.asksInner w.now id
  ((outer, inner), { w with network := network }.settle)

def takeCalls (w : World c) : List (Nat × Call) × World c :=
  (w.network.calls.reverse, { w with network.calls := [] })

def subscription? (w : World c) (name : String) : Option NamedSubscription :=
  w.subscriptions.find? (·.name = name)

def unsubscribe (w : World c) (name : String) : Bool × World c :=
  match w.subscription? name with
  | none => (false, w.settle)
  | some s =>
    let subscriptions := w.subscriptions.filter (·.name ≠ name)
    (true, { w with monitor := w.monitor.release s.id, subscriptions := subscriptions }.settle)

/-- Subscribes under a name. An older subscription of the name ends if this one is accepted. -/
def subscribe (w : World c) (name : String) : Option Nat × World c :=
  match w.monitor.subscribe with
  | (none, monitor) => (none, { w with monitor := monitor }.settle)
  | (some (id, views), monitor) =>
    let (_, w) := { w with monitor := monitor }.unsubscribe name
    let s : NamedSubscription := ⟨⟨id, views⟩, name⟩
    (some id, { w with subscriptions := w.subscriptions ++ [s] }.settle)

def takeSnapshot (w : World c) (name : String) : Option (List View) × World c :=
  let emptied := w.subscriptions.map fun s =>
    if s.name = name then { s with toSubscription := s.take.2 } else s
  ((w.subscription? name).map (·.take.1), { w with subscriptions := emptied }.settle)

/-- Takes up to `max` updates from a subscriber's queue; then tells whether the queue was empty or
closed, or neither because `max` were taken. -/
def drain (id : Nat) : Nat → Monitor → (List View × Option Received) × Monitor
  | 0, m => (([], none), m)
  | n + 1, m =>
    match m.receive id with
    | (.view v, m) =>
      let ((views, last), m) := drain id n m
      ((v :: views, last), m)
    | (other, m) => (([], some other), m)

def receive (w : World c) (name : String) (max : Nat) :
    Option (List View × Option Received) × World c :=
  match w.subscription? name with
  | none => (none, w.settle)
  | some s =>
    let (taken, monitor) := drain s.id max w.monitor
    (some taken, { w with monitor := monitor }.settle)

def clear (w : World c) (id : Nat) : Bool × World c :=
  let (removed, monitor) := w.monitor.clear id
  (removed, { w with monitor := monitor }.settle)

def served? (w : World c) (name : String) : Option Served :=
  (w.sessions.find? (·.name = some name)).map (·.served)

def modifyPipe (w : World c) (name : String) (f : Pipe → Pipe) : World c :=
  { w with sessions := w.sessions.map fun s =>
      if s.name = some name then { s with served.pipe := f s.served.pipe } else s }

/-- Starts a session over a pipe that holds `capacity` bytes. An older one of the name loses its
reader. -/
def serveOver (w : World c) (name : String) (capacity : Nat) (token : String) : World c :=
  let w := w.modifyPipe name Pipe.close
  let others := w.sessions.map fun s => if s.name = some name then { s with name := none } else s
  let (served, monitor) := Served.start capacity w.monitor
  let s : Serving := { name := some name, token, served }
  { w with monitor, sessions := others ++ [s] }.settle

/-- Reads up to `max` bytes from the pipe of a session, which goes on in between. Answers them and
whether they were followed by the end. From a closed pipe nothing comes, not even an end. -/
def readWithin (name : String) : Nat → Nat → World c → (List UInt8 × Bool) × World c
  | 0, _, w => (([], false), w)
  | fuel + 1, max, w =>
    match w.served? name with
    | none => (([], false), w)
    | some s =>
      if max = 0 then (([], false), w)
      else
        let (bs, pipe) := s.pipe.read max
        if bs.isEmpty then (([], s.ended.isSome && !s.pipe.closed), w)
        else
          let w := (w.modifyPipe name fun _ => pipe).settle
          let ((more, eof), w) := readWithin name fuel (max - bs.length) w
          ((bs ++ more, eof), w)

def read (w : World c) (name : String) (max : Nat) : (List UInt8 × Bool) × World c :=
  readWithin name (max + 1) max w.settle

def close (w : World c) (name : String) : World c :=
  (w.modifyPipe name Pipe.close).settle

def disband (w : World c) : World c :=
  let ids := w.subscriptions.map (·.id) ++
    ((w.sessions.map (·.served)).filter (·.ended.isNone)).map (·.session.subscriber)
  { w with monitor := ids.foldl Monitor.release w.monitor, subscriptions := [], sessions := [] }

end PeerWatch.Rehearsal.World
