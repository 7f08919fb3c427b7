import PeerWatch.Probe.Response
import PeerWatch.Stream.Segment

/-!
What a stream brings, byte by byte, and when. How the bytes are shared out among the reads is not
part of it: a read may give any number of those that are there.
-/

namespace PeerWatch

/-- What a stream brings next, after so many milliseconds: a byte, its end or a failure; or it brings
nothing more. -/
inductive Beat
  | byte (wait : Nat) (b : UInt8)
  | ended (wait : Nat)
  | failed (wait : Nat) (reason : String)
  | never
  deriving DecidableEq

inductive Stop
  | ended | paused | failed
  deriving DecidableEq, Repr

namespace Beat

def byte? : Beat → Option UInt8
  | .byte _ b => some b
  | _ => none

def isWithin (ms : Nat) : Beat → Bool
  | .byte w _ | .ended w | .failed w _ => w ≤ ms
  | .never => false

/-- Does it end a message that is waited for no longer than the limit, if there is one? -/
def stop? (limit : Option Nat) (b : Beat) : Option Stop :=
  if limit.any fun ms => !b.isWithin ms then some .paused
  else match b with
    | .byte .. | .never => none
    | .ended _ => some .ended
    | .failed .. => some .failed

end Beat

/-- All that a stream brings. What comes after its end is without meaning. -/
abbrev Timeline := Nat → Beat

def Segment.beats (wait : Nat) : List Segment → Timeline
  | [], _ => .ended wait
  | .bytes bs :: script, i =>
    if bs.isEmpty then .ended wait
    else match bs[i]? with
      | some b => .byte (if i = 0 then wait else 0) b
      | none => beats 0 script (i - bs.length)
  | .fail reason :: _, _ => .failed wait reason
  | .hang :: _, _ => .never
  | .wait ms :: script, i => beats (wait + ms) script i

namespace Timeline

def drop (t : Timeline) (n : Nat) : Timeline := fun i => t (i + n)

def bytes (t : Timeline) (n : Nat) : List UInt8 := (List.range n).filterMap fun i => (t i).byte?

/-- How long the beat of a number may be waited for: the first one may have a limit of its own. -/
def limit (first : Option Nat) (idle i : Nat) : Option Nat := if i = 0 then first else some idle

def Carries (t : Timeline) (first : Option Nat) (idle n : Nat) : Prop :=
  ∀ i < n, (t i).byte?.isSome = true ∧ (t i).stop? (limit first idle i) = none

instance (t : Timeline) (first : Option Nat) (idle n : Nat) : Decidable (t.Carries first idle n) :=
  inferInstanceAs (Decidable (∀ i < n, _ ∧ _))

/-- Is it a message of `n` bytes that comes, and what ends it? -/
def Ends (t : Timeline) (first : Option Nat) (idle n : Nat) (stop : Stop) : Prop :=
  t.Carries first idle n ∧ (t n).stop? (limit first idle n) = some stop

instance (t : Timeline) (first : Option Nat) (idle n : Nat) (stop : Stop) :
    Decidable (t.Ends first idle n stop) :=
  inferInstanceAs (Decidable (_ ∧ _))

/-- Does a byte, or the end, come in time? -/
def StartsBy (t : Timeline) (ms : Nat) : Prop :=
  ∃ w, w ≤ ms ∧ (t 0 = .ended w ∨ ∃ b, t 0 = .byte w b)

/-- What a read of up to `room` bytes within `ms` milliseconds may give, and what comes after it. If
anything comes in time it gives that, or any number of bytes that come together. -/
inductive Delivers (t : Timeline) (room ms : Nat) : Arrival → Timeline → Prop
  | bytes {n : Nat} (some : 0 < n) (fits : n ≤ room) (within : (t 0).isWithin ms = true)
      (together : t.Carries none 0 n) : Delivers t room ms (.bytes (t.bytes n)) (t.drop n)
  | ended {w : Nat} {rest : Timeline} (beat : t 0 = .ended w) (within : w ≤ ms) :
      Delivers t room ms (.bytes []) rest
  | failed {w : Nat} {reason : String} {rest : Timeline} (beat : t 0 = .failed w reason)
      (within : w ≤ ms) : Delivers t room ms (.failed reason) rest
  | quiet {rest : Timeline} (late : (t 0).isWithin ms = false) : Delivers t room ms .quiet rest

end Timeline

structure Feed (σ : Type) where
  read : σ → Nat → Nat → Arrival × σ
  timeline : σ → Timeline
  delivers : ∀ s room ms, 0 < room →
    (timeline s).Delivers room ms (read s room ms).1 (timeline (read s room ms).2)

end PeerWatch
