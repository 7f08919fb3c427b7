import PeerWatch.Rehearsal.Steps

/-!
Rehearsals in any order. Whatever waits may be the next to go on, whenever that is, and in between
anything can be asked.
-/

namespace PeerWatch.Rehearsal.World
variable {c : Setup}

/-- What may come next: something that waits goes on, a session writes, time passes, peers are to be
probed, a pass or a loop starts, a token is cancelled, a pass that is over is forgotten, or something
else happens to the network, the monitor, the subscriptions, the sessions or the cancellations to
come. -/
inductive Next (w : World c) : World c → Prop
  | go {m : Moment} {ready : Ready c} (waits : (m, ready) ∈ w.waiting) : Next w (w.go ready)
  | serve (number : Nat) : Next w (w.serve number)
  | time {now : Nat} (turn : Agent) (later : w.now ≤ now) : Next w { w with now, turn }
  | ask (token : String) {cs : List Candidate} (distinct : (cs.map Candidate.id).Nodup) :
      Next w (w.startWalk token .direct { waiting := cs }).2
  | tick {token : String} (active : w.isCancelled token = false) :
      Next w (w.startWalk token .tick (.ofStore c.discovery w.monitor.store w.now)).2
  | spawn (token : String) : Next w (w.addLoop token)
  | cancel (token : String) : Next w (w.cancel token)
  | forget {number : Nat} {p : Walk} (found : w.walk? number = some p)
      (ended : p.pass.isOver = true) :
      Next w { w with walks := w.walks.filter (·.number ≠ number) }
  | other (places : Nat) (network : Network) (monitor : Monitor)
      (subscriptions : List NamedSubscription) (sessions : List Serving)
      (cancels : List (Moment × String)) :
      Next w { w with places, network, monitor, subscriptions, sessions, cancels }

end PeerWatch.Rehearsal.World
