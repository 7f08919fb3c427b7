import PeerWatch.Session.Basic
import PeerWatch.Store.Monitor

/-!
The course of a session, one step after the other. Between two records it is the session's turn;
while a record is being written the writer has its say. Whatever ends the session ends its
subscription too.
-/

namespace PeerWatch

structure Course where
  session : Session
  ended : Option SessionEnd := none

inductive SessionEvent
  | turn (cancelled : Bool) (now : Nat)
  | reply (r : WriteReply)

namespace Course

def start (s : Nat × List View) : Course := { session := { subscriber := s.1, snapshot := s.2 } }

def finish (c : Course) (e : SessionEnd) (m : Monitor) : Monitor × Course :=
  (m.release c.session.subscriber, { c with ended := some e })

def turn (p : SessionPolicy) (cancelled : Bool) (now : Nat) (m : Monitor) (c : Course) :
    Monitor × Course :=
  let (turn, registry, session) := c.session.turn p cancelled now m.store.registry
  let m := m.withRegistry false registry
  let c := { c with session := session }
  match turn with
  | .stop e => c.finish e m
  | .write | .wait => (m, c)

def reply (p : SessionPolicy) (r : WriteReply) (m : Monitor) (c : Course) : Monitor × Course :=
  match c.session.wrote p r with
  | .ok session => (m, { c with session := session })
  | .error e => c.finish e m

/-- Goes a step further. What comes out of turn changes nothing, nor does what comes after the
end. -/
def step (p : SessionPolicy) (m : Monitor) (c : Course) (e : SessionEvent) : Monitor × Course :=
  if c.ended.isSome then (m, c)
  else match e, c.session.writing with
    | .turn cancelled now, false => c.turn p cancelled now m
    | .reply r, true => c.reply p r m
    | _, _ => (m, c)

end Course
end PeerWatch
