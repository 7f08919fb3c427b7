import PeerWatch.Session.Course
import PeerWatch.Store.Hub

/-!
A session among all else that goes on at its hub. Its subscription is in the hands of the session
alone: nobody else receives from it or gives it up.
-/

namespace PeerWatch

def Act.byHolder (id : Nat) : Act → Bool
  | .takeSnapshot i | .receive i | .release i => i = id
  | _ => false

def Course.accepts (c : Course) : SessionEvent → List UInt8
  | .reply (.accepted n) =>
    if c.ended.isNone && c.session.writing then c.session.unsent.take n else []
  | _ => []

/-- A session goes a step further. Once it has ended nobody holds its subscription. -/
def Hub.serve (p : SessionPolicy) (h : Hub) (c : Course) (e : SessionEvent) : Hub × Course :=
  let (m, c') := c.step p h.monitor e
  let held := if c'.ended.isSome then h.held.filter (·.id ≠ c.session.subscriber) else h.held
  (⟨m, held⟩, c')

structure Scene where
  hub : Hub
  course : Course
  accepted : List UInt8 := []

inductive Incident
  | session (e : SessionEvent)
  | other (a : Act)

namespace Scene

/-- A session starts, unless it is refused. Its subscription is held, without the snapshot, which
the session has taken. -/
def start? (h : Hub) : Option Scene :=
  match h.monitor.subscribe with
  | (some s, m) => some { hub := ⟨m, h.held ++ [⟨s.1, []⟩]⟩, course := .start s }
  | (none, _) => none

def id (s : Scene) : Nat := s.course.session.subscriber

/-- Lets something happen. Others cannot ask what is up to the session. -/
def step (p : SessionPolicy) (s : Scene) : Incident → Scene
  | .session e =>
    let (h, c) := s.hub.serve p s.course e
    ⟨h, c, s.accepted ++ s.course.accepts e⟩
  | .other a => if a.byHolder s.id then s else { s with hub := (s.hub.step a).2 }

def run (p : SessionPolicy) (s : Scene) (is : List Incident) : Scene := is.foldl (step p) s

end Scene
end PeerWatch
