import PeerWatch.Session.Course
import PeerWatch.Stream.Pipe

/-!
A session that writes into a pipe.
-/

namespace PeerWatch

structure Served extends Course where
  pipe : Pipe

namespace Served

def start (capacity : Nat) (m : Monitor) : Served × Monitor :=
  match m.subscribe with
  | (some s, m) => (⟨.start s, { capacity }⟩, m)
  | (none, m) =>
    let e := SessionEnd.refused m.store.registry.policy.maxSubscribers
    (⟨⟨{ subscriber := 0, snapshot := [] }, some e⟩, { capacity }⟩, m)

/-- What the pipe says to the bytes that are still to be written, if it says anything now, and how
it is afterwards. A pipe has nothing to flush. -/
def reply? (s : Served) (now : Nat) : Option (WriteReply × Pipe) :=
  if s.session.unsent.isEmpty then some (.flushed, s.pipe)
  else if s.pipe.closed then some (.failed "broken pipe", s.pipe)
  else
    let (taken, pipe) := s.pipe.write s.session.unsent
    if 0 < taken then some (.accepted taken, pipe)
    else if s.session.deadline ≤ now then some (.late, s.pipe)
    else none

def serve (p : SessionPolicy) (now : Nat) (cancelled : Bool) :
    Nat → Monitor → Served → Monitor × Served
  | 0, m, s => (m, s)
  | fuel + 1, m, s =>
    if s.ended.isSome then (m, s)
    else if s.session.writing then
      match s.reply? now with
      | none => (m, s)
      | some (reply, pipe) =>
        let (m, c) := s.toCourse.step p m (.reply reply)
        serve p now cancelled fuel m ⟨c, pipe⟩
    else
      let (m, c) := s.toCourse.step p m (.turn cancelled now)
      let s : Served := ⟨c, s.pipe⟩
      if s.session.writing then serve p now cancelled fuel m s else (m, s)

end Served
end PeerWatch
