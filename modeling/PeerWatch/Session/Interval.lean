/-!
Ticks at regular intervals. A tick that is taken hardly late keeps the rhythm; one taken later
delays those after it.
-/

namespace PeerWatch

/-- The next tick is due at `due`. Times are in milliseconds. -/
structure Interval where
  period : Nat
  due : Nat
  deriving DecidableEq, Repr

namespace Interval

/-- An interval whose first tick is due at once. -/
def start (period now : Nat) : Interval := ⟨period, now⟩

/-- How late a tick may be taken without delaying the next one. -/
def tolerance : Nat := 5

def isDue (i : Interval) (now : Nat) : Bool := i.due ≤ now

def take (i : Interval) (now : Nat) : Interval :=
  { i with due := (if now ≤ i.due + tolerance then i.due else now) + i.period }

end Interval
end PeerWatch
