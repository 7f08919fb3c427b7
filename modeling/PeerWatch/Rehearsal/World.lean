import PeerWatch.Discovery.Pass
import PeerWatch.Probe.Basic
import PeerWatch.Rehearsal.Network
import PeerWatch.Session.Served
import PeerWatch.Store.Hub

/-!
A rehearsal: probes, passes, loops and sessions over a scripted network in virtual time. Everything
that waits knows the moment at which it goes on. Of those that go on at the same time the step of
the rehearsal itself comes first, and then the one that began to wait first; each goes on as far as
it can before the next one does.
-/

namespace PeerWatch.Rehearsal

structure Setup where
  fetch : FetchLimits := {}
  discovery : DiscoveryPolicy := {}
  session : SessionPolicy := {}
  notify : NotifyPolicy := {}

/-- When something goes on, and its place among all that go on then. -/
structure Moment where
  due : Nat
  place : Nat
  deriving DecidableEq, Repr

def Moment.either (m n : Moment) : Moment :=
  if m.due < n.due then m
  else if n.due < m.due then n
  else ⟨m.due, min m.place n.place⟩

/-- What a probe waits for: to begin, to get past the disturbance and be answered by a deadline,
the network's answer (with the reason if it is a failure), the end of a wait in its stream before
a deadline, or a reply from elsewhere. -/
inductive Awaited
  | start
  | passage (deadline : Moment) (fails : Bool)
  | answer (failure : Option String)
  | lull (deadline : Moment)
  | reply (r : Reply)

/-- A probe under way on behalf of the pass numbered `owner`. `held` is the end of the wait that
its stream stands in. -/
structure Errand (l : FetchLimits) where
  owner : Nat
  candidate : Candidate
  started : Nat
  probe : Probe l
  stream : List Segment := []
  held : Option Moment := none
  moment : Moment
  awaited : Awaited := .start

/-- Who wants a pass: whoever waits for its result, a single tick, or a loop. -/
inductive Purpose
  | direct | tick | loop (number : Nat)
  deriving DecidableEq

structure Walk where
  number : Nat
  token : String
  purpose : Purpose
  pass : Pass
  last : Option (Except ProbeError Document) := none

inductive LoopState
  | waiting (moment : Moment)
  | walking
  | ended
  deriving DecidableEq

structure Loop where
  number : Nat
  token : String
  interval : Interval
  state : LoopState

/-- A session under the name of its reader, unless a younger one has the name, with the token that
cancels it. `keepalive` and `deadline` are the moments at which it goes on by itself while it rests
and while it writes. -/
structure Serving where
  name : Option String
  token : String
  served : Served
  keepalive : Option Moment := none
  deadline : Option Moment := none

def Serving.moment? (s : Serving) : Option Moment :=
  if s.served.ended.isSome then none
  else if !s.served.session.writing then s.keepalive
  else s.deadline

/-- Who goes on: the step of the rehearsal itself, a loop, a session, or a cancellation to come. -/
inductive Agent
  | self | loop (number : Nat) | session (number : Nat) | cancel (token : String)
  deriving DecidableEq

structure NamedSubscription extends Subscription where
  name : String

/-- The state of a rehearsal; `turn` is who goes on now. -/
structure World (c : Setup) where
  now : Nat := 0
  turn : Agent := .self
  places : Nat := 0
  walkCount : Nat := 0
  network : Network := {}
  monitor : Monitor := { store := .empty c.notify }
  cancelled : List String := []
  cancels : List (Moment × String) := []
  errands : List (Errand c.fetch) := []
  walks : List Walk := []
  loops : List Loop := []
  subscriptions : List NamedSubscription := []
  sessions : List Serving := []

namespace World
variable {c : Setup}

/-- The last place among all that go on at `due`. -/
def moment (w : World c) (due : Nat) : Moment × World c :=
  (⟨due, w.places⟩, { w with places := w.places + 1 })

def isCancelled (w : World c) (token : String) : Bool := w.cancelled.contains token

def walk? (w : World c) (number : Nat) : Option Walk := w.walks.find? (·.number = number)

def modifyWalk (w : World c) (number : Nat) (f : Walk → Walk) : World c :=
  { w with walks := w.walks.map fun p => if p.number = number then f p else p }

def modifyLoop (w : World c) (number : Nat) (f : Loop → Loop) : World c :=
  { w with loops := w.loops.map fun l => if l.number = number then f l else l }

/-- A probe of a pass starts, which leaves it as `pass`. -/
def dispatch (w : World c) (number : Nat) (candidate : Candidate) (pass : Pass) : World c :=
  let (moment, w) := (w.modifyWalk number fun p => { p with pass := pass }).moment w.now
  let errand : Errand c.fetch :=
    { owner := number, candidate, started := w.now, probe := .asking, moment }
  { w with errands := w.errands ++ [errand] }

def startErrands (number : Nat) : Nat → World c → World c
  | 0, w => w
  | n + 1, w =>
    match (w.walk? number).bind fun p => p.pass.start? (Pass.width c.discovery) with
    | none => w
    | some (candidate, pass) => startErrands number n (w.dispatch number candidate pass)

/-- A loop has ended its pass: it ends if it was cancelled and else waits for its next tick. -/
def rest (w : World c) (number : Nat) : World c :=
  match w.loops.find? (·.number = number) with
  | none => w
  | some l =>
    if w.isCancelled l.token then w.modifyLoop number fun l => { l with state := .ended }
    else
      let (moment, w) := w.moment (max w.now l.interval.due)
      w.modifyLoop number fun l => { l with state := .waiting moment }

/-- Starts the probes of a pass that there is room for, and ends the pass if all have ended. -/
def tend (w : World c) (number : Nat) : World c :=
  let w := startErrands number (Pass.width c.discovery) w
  match w.walk? number with
  | some walk =>
    if walk.pass.isOver && walk.purpose ≠ .direct then
      let w := { w with monitor.metrics := w.monitor.metrics.countTick }
      match walk.purpose with
      | .loop n => { w with walks := w.walks.filter (·.number ≠ number) }.rest n
      | _ => w
    else w
  | none => w

def startWalk (w : World c) (token : String) (purpose : Purpose) (pass : Pass) : Nat × World c :=
  let number := w.walkCount
  let walk : Walk := ⟨number, token, purpose, pass, none⟩
  (number, { w with walkCount := number + 1, walks := w.walks ++ [walk] }.tend number)

/-- An errand goes on at a moment. One that goes on at once keeps its place. -/
def await (w : World c) (e : Errand c.fetch) (m : Moment) (awaited : Awaited) : World c :=
  let moment := if m.due ≤ w.now then e.moment else m
  { w with errands := w.errands ++ [{ e with moment, awaited }] }

def resume (w : World c) (e : Errand c.fetch) (awaited : Awaited) : World c :=
  w.await e e.moment awaited

def awaitBy (w : World c) (e : Errand c.fetch) (m deadline : Moment) (awaited : Awaited) :
    World c :=
  w.await e (m.either deadline) (if m.due ≤ deadline.due then awaited else .reply .late)

def callKind? {l : FetchLimits} : Probe l → Option CallKind
  | .connecting => some .connect
  | .opening => some .openStream
  | _ => none

def forward (w : World c) (e : Errand c.fetch) (k : CallKind) (deadline : Moment) : World c :=
  let address := e.candidate.address
  let act := w.network.act k address.id
  let e := { e with stream := w.network.body address.id, held := none }
  let w := { w with network := w.network.note w.now (k.toCall address) }
  if act.hang then w.await e deadline (.reply .late)
  else
    let (m, w) := w.moment (w.now + act.delay)
    w.awaitBy e m deadline (.answer act.fail)

def call (w : World c) (e : Errand c.fetch) : World c :=
  let d := w.network.disturbance
  if w.network.isIsolated e.candidate.id then w.resume e (.reply (.failed isolatedReason))
  else
    let (m, w) := w.moment (w.now + d.latency)
    let (deadline, w) := w.moment (w.now + e.probe.patience)
    w.awaitBy e m deadline (.passage deadline d.fails)

/-- A probe reads up to `room` bytes until the deadline. A wait in its stream goes on from read to
read. -/
def listen (w : World c) (e : Errand c.fetch) (room : Nat) (deadline : Moment) : World c :=
  match e.stream with
  | .hang :: _ => w.await e deadline (.reply .late)
  | .wait ms :: _ =>
    let (m, w) := match e.held with
      | some m => (m, w)
      | none => w.moment (w.now + ms)
    w.awaitBy { e with held := some m } m deadline (.lull deadline)
  | stream =>
    let (arrival, playback) := (Playback.start stream w.now).read room 0
    w.resume { e with stream := playback.script } (.reply (.arrived arrival))

def proceed (w : World c) (e : Errand c.fetch) : World c :=
  match callKind? e.probe, e.probe with
  | some _, _ => w.call e
  | none, .reading r =>
    let (deadline, w) := w.moment (w.now + r.patience)
    w.listen e r.room deadline
  | none, _ => w.resume e .start

/-- The outcome of a probe is written down, and its pass goes on without it. -/
def writeDown (w : World c) (e : Errand c.fetch) (size : Option Nat)
    (result : Except ProbeError Document) : World c :=
  let monitor := w.monitor.recordProbe e.started w.now e.candidate.address size result
  { w with monitor := monitor }.modifyWalk e.owner fun p =>
    { p with pass := p.pass.finish e.candidate result, last := some result }

def conclude (w : World c) (e : Errand c.fetch) (size : Option Nat)
    (result : Except ProbeError Document) : World c :=
  (w.writeDown e size result).tend e.owner

def deliver (w : World c) (e : Errand c.fetch) (r : Reply) : World c :=
  match e.probe.step e.candidate.id r with
  | .going p => w.proceed { e with probe := p }
  | .ended size result => w.conclude e size result

def goOn (w : World c) (e : Errand c.fetch) : World c :=
  let id := e.candidate.id
  if (w.walk? e.owner).any fun p => w.isCancelled p.token then
    w.conclude e none (.error (.cancelled id))
  else match e.awaited, callKind? e.probe with
    | .start, _ =>
      let (connected, network) := w.network.asks w.now id
      { w with network := network }.deliver e (.connected connected)
    | .passage deadline fails, some k =>
      if fails then w.resume e (.reply (.failed randomReason)) else w.forward e k deadline
    | .answer none, some k =>
      { w with network := w.network.settle k id true }.deliver e .done
    | .answer (some reason), some k =>
      { w with network := w.network.settle k id false }.deliver e (.failed reason)
    | .lull deadline, none =>
      match e.probe with
      | .reading r => w.listen { e with stream := e.stream.drop 1, held := none } r.room deadline
      | _ => w.deliver e .late
    | .reply r, _ => w.deliver e r
    | _, _ => w.deliver e .late

def beat (w : World c) (l : Loop) : World c :=
  if w.isCancelled l.token then w.modifyLoop l.number fun l => { l with state := .ended }
  else
    let w := w.modifyLoop l.number fun l =>
      { l with state := .walking, interval := l.interval.take w.now }
    (w.startWalk l.token (.loop l.number) (.ofStore c.discovery w.monitor.store w.now)).2

def isUnder (w : World c) (token : String) (number : Nat) : Bool :=
  (w.walk? number).any (·.token = token)

/-- Cancels a token. All that wait under it go on now. -/
def cancel (w : World c) (token : String) : World c :=
  { w with
    cancelled := token :: w.cancelled
    errands := w.errands.map fun e =>
      if w.isUnder token e.owner then { e with moment.due := w.now } else e
    loops := w.loops.map fun l =>
      match l.state with
      | .waiting m =>
        if l.token = token then { l with state := .waiting { m with due := w.now } } else l
      | _ => l }

/-- Notes when a session goes on by itself. A moment that was noted before keeps its place. -/
def renew (w : World c) (s : Serving) : Serving × World c :=
  let session := s.served.session
  let note (old : Option Moment) (due : Nat) : Moment × World c :=
    match old.filter (·.due = due) with
    | some m => (m, w)
    | none => w.moment due
  if s.served.ended.isSome then (s, w)
  else if !session.writing then
    match session.keepalive with
    | some k =>
      let (m, w) := note s.keepalive k.due
      ({ s with keepalive := some m }, w)
    | none => (s, w)
  else
    let (m, w) := note s.deadline session.deadline
    ({ s with deadline := some m }, w)

/-- More than any rehearsal takes: a bound on the steps at one moment, and on the moments. -/
@[irreducible] def bound : Nat := 1000000000

def serve (w : World c) (number : Nat) : World c :=
  match w.sessions[number]? with
  | none => w
  | some s =>
    let (monitor, served) :=
      Served.serve c.session w.now (w.isCancelled s.token) bound w.monitor s.served
    let (s, w) := { w with monitor := monitor }.renew { s with served := served }
    { w with sessions := w.sessions.set number s }

/-- Something that can go on; a cancellation to come has a place of its own. -/
inductive Ready (c : Setup)
  | errand (e : Errand c.fetch)
  | loop (l : Loop)
  | session (number : Nat)
  | cancel (place : Nat) (token : String)

def waiting (w : World c) : List (Moment × Ready c) :=
  w.errands.map (fun e => (e.moment, .errand e)) ++
    w.loops.filterMap (fun l => match l.state with
      | .waiting m => some (m, .loop l)
      | _ => none) ++
    w.sessions.zipIdx.filterMap (fun (s, n) => s.moment?.map fun m => (m, .session n)) ++
    w.cancels.map fun (m, token) => (m, .cancel m.place token)

def agent (w : World c) : Ready c → Agent
  | .errand e =>
    match (w.walk? e.owner).map Walk.purpose with
    | some (.loop n) => .loop n
    | _ => .self
  | .loop l => .loop l.number
  | .session n => .session n
  | .cancel _ token => .cancel token

/-- How many kinds of agents come before one: whose turn it is comes first, and then the step of
the rehearsal itself. -/
def rank (w : World c) (a : Agent) : Nat :=
  if a = w.turn then 0 else if a = .self then 1 else 2

/-- Does something go on before something else, by rank and place? -/
def precedes (w : World c) (x y : Moment × Ready c) : Bool :=
  let r := w.rank (w.agent x.2)
  let s := w.rank (w.agent y.2)
  r < s || (r = s && x.1.place < y.1.place)

def first (w : World c) : List (Moment × Ready c) → Option (Moment × Ready c)
  | [] => none
  | x :: xs =>
    match first w xs with
    | none => some x
    | some y => if w.precedes y x then some y else some x

/-- Takes an errand off those that wait. For each peer a pass has one at most. -/
def takeUp (w : World c) (e : Errand c.fetch) : World c :=
  { w with errands := w.errands.filter fun f =>
      f.owner ≠ e.owner || f.candidate.id ≠ e.candidate.id }

def go (w : World c) (ready : Ready c) : World c :=
  let w := { w with turn := w.agent ready }
  match ready with
  | .errand e => (w.takeUp e).goOn e
  | .loop l => w.beat l
  | .session n => w.serve n
  | .cancel place token =>
    { w with cancels := w.cancels.filter (·.1.place ≠ place) }.cancel token

def step (w : World c) : Option (World c) :=
  (w.first (w.waiting.filter fun x => x.1.due ≤ w.now)).map fun x => w.go x.2

end World
end PeerWatch.Rehearsal
