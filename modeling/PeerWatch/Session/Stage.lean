import PeerWatch.Session.Scene

/-!
All sessions of a hub together, and whatever else is asked of it. Each session has its subscription
for itself.
-/

namespace PeerWatch

structure Stage where
  hub : Hub
  sessions : List (Course × List UInt8) := []

inductive Cue
  | enter
  | session (number : Nat) (e : SessionEvent)
  | other (a : Act)

namespace Stage

def start (policy : NotifyPolicy) : Stage := { hub := .start policy }

def enter (s : Stage) : Answer × Stage :=
  match Scene.start? s.hub with
  | some t => (.subscribed t.id, ⟨t.hub, s.sessions ++ [(t.course, t.accepted)]⟩)
  | none => (.refused, { s with hub := s.hub.subscribe.2 })

def proceed (p : SessionPolicy) (s : Stage) (number : Nat) (e : SessionEvent) : Stage :=
  match s.sessions[number]? with
  | some (c, accepted) =>
    let (h, c') := s.hub.serve p c e
    ⟨h, s.sessions.set number (c', accepted ++ c.accepts e)⟩
  | none => s

def reserves (s : Stage) (a : Act) : Bool :=
  s.sessions.any fun t => a.byHolder t.1.session.subscriber

/-- Lets something happen. Nobody else can ask what is up to a session. -/
def step (p : SessionPolicy) (s : Stage) : Cue → Answer × Stage
  | .enter => s.enter
  | .session number e => (.done, s.proceed p number e)
  | .other a =>
    if s.reserves a then (.unheld, s)
    else
      let (answer, h) := s.hub.step a
      (answer, { s with hub := h })

def run (p : SessionPolicy) (s : Stage) (cues : List Cue) : Stage :=
  cues.foldl (fun s c => (s.step p c).2) s

end Stage
end PeerWatch
