/-!
Scripted streams: what they bring, part by part, and when.
-/

namespace PeerWatch

/-- A part of a scripted stream: bytes that one read may take, a wait, a failed read, or silence
for ever. After the last part the stream has ended; a read of no bytes is an end too. -/
inductive Segment
  | bytes (bs : List UInt8)
  | wait (ms : Nat)
  | fail (reason : String)
  | hang
  deriving DecidableEq

namespace Segment

def putBack (bs : List UInt8) (script : List Segment) : List Segment :=
  if bs.isEmpty then script else .bytes bs :: script

/-- All bytes up to an end, a failure or silence, however long they take. -/
def drain : List Segment → List UInt8
  | .bytes (b :: bs) :: script => b :: bs ++ drain script
  | .wait _ :: script => drain script
  | _ => []

end Segment
end PeerWatch
