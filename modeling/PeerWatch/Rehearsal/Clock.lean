import PeerWatch.Rehearsal.World

/-!
The passing of time. At each time everything that can go on does so, and then the sessions write
what they can; only then comes the next time at which something goes on.
-/

namespace PeerWatch.Rehearsal.World
variable {c : Setup}

def serveAll (w : World c) : World c := (List.range w.sessions.length).foldl serve w

def settleWithin : Nat → World c → World c
  | 0, w => w
  | fuel + 1, w =>
    match w.step with
    | some w => settleWithin fuel w
    | none => w.serveAll

/-- Everything that can go on now does so, however much it is. -/
def settle (w : World c) : World c := settleWithin bound w

def nextDue (w : World c) : Option Nat := (w.waiting.map (·.1.due)).min?

/-- The time comes at which something goes on, and everything that can go on then does so. -/
def reach (w : World c) (due : Nat) : World c :=
  { w with now := max w.now due, turn := .self }.settle

def passWithin (target : Nat) : Nat → World c → World c
  | 0, w => w
  | fuel + 1, w =>
    match w.nextDue.filter (· ≤ target) with
    | some due => passWithin target fuel (w.reach due)
    | none => w.reach target

def sleep (w : World c) (ms : Nat) : World c := passWithin (w.now + ms) bound w.settle

/-- Lets time pass until a pass is over, if it ever is. Answers it and forgets it. -/
def finishWithin (number : Nat) : Nat → World c → Option Walk × World c
  | 0, w => (none, w)
  | fuel + 1, w =>
    match w.walk? number with
    | none => (none, w)
    | some walk =>
      if walk.pass.isOver then
        (some walk, { w with walks := w.walks.filter (·.number ≠ number) })
      else match w.nextDue with
        | some due => finishWithin number fuel (w.reach due)
        | none => (none, w)

def finish (w : World c) (number : Nat) : Option Walk × World c :=
  finishWithin number bound w.settle

end PeerWatch.Rehearsal.World
