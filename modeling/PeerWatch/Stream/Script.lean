import PeerWatch.Probe.Response
import PeerWatch.Stream.Segment

/-!
Reading scripted streams in virtual time. A read takes at most one segment of bytes and leaves what
it has no room for; a wait holds reads back from when one first reaches it.
-/

namespace PeerWatch

/-- A scripted stream being read at the time `now`; `reads` counts the reads that took bytes. -/
structure Playback where
  script : List Segment
  now : Nat
  reads : Nat

namespace Playback

def start (script : List Segment) (now : Nat) : Playback := ⟨script, now, 0⟩

def expire (p : Playback) (deadline : Nat) (rest : List Segment) : Arrival × Playback :=
  (.quiet, { p with script := rest, now := deadline })

/-- Reads up to `room` bytes until the deadline. What comes at the deadline still comes in time. -/
def readBy (p : Playback) (room deadline : Nat) : List Segment → Arrival × Playback
  | [] => (.bytes [], { p with script := [] })
  | .bytes bs :: rest =>
    (.bytes (bs.take room),
      { p with script := Segment.putBack (bs.drop room) rest, reads := p.reads + 1 })
  | .fail reason :: rest => (.failed reason, { p with script := rest })
  | .hang :: rest => p.expire deadline (.hang :: rest)
  | .wait ms :: rest =>
    if p.now + ms ≤ deadline then readBy { p with now := p.now + ms } room deadline rest
    else p.expire deadline (.wait (p.now + ms - deadline) :: rest)

def read (p : Playback) (room ms : Nat) : Arrival × Playback :=
  p.readBy room (p.now + ms) p.script

def response (l : FetchLimits) (p : Playback) : Except ReadFault (Array UInt8) × Playback :=
  (Reader.start l).readAll read p

end Playback

end PeerWatch
