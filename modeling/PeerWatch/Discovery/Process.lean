import PeerWatch.Discovery.Round
import PeerWatch.Probe.Basic

/-!
A process around one hub: fetches, first passes and ticks go on side by side, and in between the hub
is asked other things. Whatever is under way may be the next to go on, and every fetch may be
cancelled at any time.
-/

namespace PeerWatch

structure Fetching where
  limits : FetchLimits
  candidate : Candidate
  started : Nat
  pass? : Option Nat := none
  probe : Probe limits := .asking

/-- A pass under way. A tick is counted when it is over. -/
structure Sweep where
  policy : DiscoveryPolicy
  isTick : Bool
  pass : Pass

structure Process where
  hub : Hub
  fetches : List Fetching := []
  sweeps : List Sweep := []

def Act.isRecord : Act → Bool
  | .record .. => true
  | _ => false

/-- What can be asked of a hub by those who do not probe. -/
abbrev Request := { a : Act // a.isRecord = false }

/-- What happens in a process: a fetch or a pass begins, a pass hands out its next candidate, a probe
has a reply or is cancelled, or the hub is asked something. -/
inductive Happening
  | fetch (l : FetchLimits) (address : PeerAddress) (now : Nat)
  | bootstrap (p : DiscoveryPolicy) (seeds : List PeerAddress)
  | tick (p : DiscoveryPolicy) (now : Nat)
  | handOut (sweep : Nat) (l : FetchLimits) (now : Nat)
  | reply (n now : Nat) (r : Reply)
  | cancel (n now : Nat)
  | ask (a : Request)

namespace Process

def start (policy : NotifyPolicy) : Process := { hub := .start policy }

/-- Counts a tick if the pass of a number is one that is over now. -/
def tend (P : Process) (sweep : Nat) : Process :=
  if (P.sweeps[sweep]?).any fun w => w.isTick && w.pass.isOver then
    { P with hub.monitor.metrics := P.hub.monitor.metrics.countTick }
  else P

def addSweep (P : Process) (w : Sweep) : Process :=
  { P with sweeps := P.sweeps ++ [w] }.tend P.sweeps.length

/-- A pass starts a fetch of its next candidate, if there is room for one more. -/
def handOut (P : Process) (sweep : Nat) (l : FetchLimits) (now : Nat) : Process :=
  match P.sweeps[sweep]? with
  | none => P
  | some w =>
    match w.pass.start? (Pass.width w.policy) with
    | none => P
    | some (candidate, pass) =>
      { P with
        fetches := P.fetches ++ [{ limits := l, candidate, started := now, pass? := some sweep }]
        sweeps := P.sweeps.set sweep { w with pass } }

def outcome (f : Fetching) (now : Nat) (size : Option Nat)
    (result : Except ProbeError Document) : Act :=
  .record f.started now f.candidate.address size result

def conclude (P : Process) (n : Nat) (f : Fetching) (now : Nat) (size : Option Nat)
    (result : Except ProbeError Document) : Process :=
  let P := { P with
    hub := (P.hub.step (outcome f now size result)).2
    fetches := P.fetches.eraseIdx n }
  match f.pass? with
  | none => P
  | some sweep =>
    { P with sweeps := P.sweeps.modify sweep fun w =>
        { w with pass := w.pass.finish f.candidate result } }.tend sweep

def reply (P : Process) (n now : Nat) (r : Reply) : Process :=
  match P.fetches[n]? with
  | none => P
  | some f =>
    match f.probe.step f.candidate.id r with
    | .going probe => { P with fetches := P.fetches.set n { f with probe } }
    | .ended size result => P.conclude n f now size result

def cancel (P : Process) (n now : Nat) : Process :=
  match P.fetches[n]? with
  | none => P
  | some f => P.conclude n f now none (.error (.cancelled f.candidate.id))

def step (P : Process) : Happening → Process
  | .fetch l address now =>
    { P with fetches := P.fetches ++
        [{ limits := l, candidate := ⟨address, .advertised⟩, started := now }] }
  | .bootstrap p seeds => P.addSweep ⟨p, false, .ofSeeds p seeds⟩
  | .tick p now => P.addSweep ⟨p, true, .ofStore p P.hub.store now⟩
  | .handOut sweep l now => P.handOut sweep l now
  | .reply n now r => P.reply n now r
  | .cancel n now => P.cancel n now
  | .ask a => { P with hub := (P.hub.step a.1).2 }

def run (P : Process) (es : List Happening) : Process := es.foldl step P

end Process
end PeerWatch
