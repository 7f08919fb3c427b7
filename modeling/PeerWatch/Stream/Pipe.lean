/-!
A pipe that holds a limited number of bytes between a writer and a reader.
-/

namespace PeerWatch

/-- A pipe with what was written and is not yet read; `closed` tells that nobody reads from it. -/
structure Pipe where
  capacity : Nat
  content : List UInt8 := []
  closed : Bool := false

namespace Pipe

def room (p : Pipe) : Nat := p.capacity - p.content.length

def write (p : Pipe) (bs : List UInt8) : Nat × Pipe :=
  let taken := bs.take p.room
  (taken.length, { p with content := p.content ++ taken })

def read (p : Pipe) (n : Nat) : List UInt8 × Pipe :=
  (p.content.take n, { p with content := p.content.drop n })

def close (p : Pipe) : Pipe := { p with content := [], closed := true }

end Pipe
end PeerWatch
