import PeerWatch.Net.Handshake

/-!
A dialer and a listener over a pair of byte streams. What is written is under way for a while and
read in parts of any size; nothing is lost, and a write never fails. What a party has read so far is
a script that then hangs: while the preamble stalls over it, the party waits. A listener that fails
closes its stream at once; one that has agreed may write on, and close when it likes.
-/

namespace PeerWatch

structure Parties where
  dialKey : String
  protocol : String
  listenKey : String
  supported : List String

/-- How far the parties are: what the dialer has still to write, what is under way to the listener,
what the listener's reads have brought; the same for the way back, with what the listener has
written after its reply and whether it has closed. A read of no bytes tells that. -/
structure Meeting where
  unsent : List UInt8
  onward : List UInt8 := []
  heard : List (List UInt8) := []
  back : List UInt8 := []
  seen : List (List UInt8) := []
  said : List UInt8 := []
  closed : Bool := false
  deriving DecidableEq

/-- What happens: the dialer writes, the listener reads, writes more than its reply, or closes, and
the dialer reads. -/
inductive Deed
  | send (n : Nat)
  | hear (n : Nat)
  | say (bs : List UInt8)
  | close
  | read (n : Nat)
  deriving DecidableEq

def Deed.isHandshake : Deed → Bool
  | .send _ | .hear _ | .read _ => true
  | .say _ | .close => false

namespace Meeting
open Handshake

def start (p : Parties) : Meeting := { unsent := Utf8.ofString (preamble p.dialKey p.protocol) }

def soFar (reads : List (List UInt8)) : List Segment := reads.map .bytes ++ [.hang]

def settled? {α : Type} : Except Fault α → Option (Except Fault α)
  | .error .stalled => none
  | r => some r

def accept (p : Parties) (m : Meeting) : Except Fault (String × List Segment) × String :=
  Handshake.accept p.listenKey p.supported (soFar m.heard)

def listener? (p : Parties) (m : Meeting) : Option (Except Fault (String × List Segment)) :=
  settled? (m.accept p).1

def dialer? (p : Parties) (m : Meeting) : Option (Except Fault (List Segment)) :=
  if m.unsent.isEmpty then settled? (dial p.protocol (soFar m.seen)) else none

def reply (p : Parties) (m : Meeting) : Meeting :=
  match m.listener? p with
  | none => m
  | some r => { m with back := m.back ++ Utf8.ofString (m.accept p).2, closed := !r.isOk }

def isOpen (p : Parties) (m : Meeting) : Bool := (m.accept p).1.isOk && !m.closed

def step? (p : Parties) (m : Meeting) : Deed → Option Meeting
  | .send n =>
    if 0 < n ∧ n ≤ m.unsent.length then
      some { m with onward := m.onward ++ m.unsent.take n, unsent := m.unsent.drop n }
    else none
  | .hear n =>
    if m.listener? p = none ∧ 0 < n ∧ n ≤ m.onward.length then
      some (reply p { m with heard := m.heard ++ [m.onward.take n], onward := m.onward.drop n })
    else none
  | .say bs =>
    if m.isOpen p then some { m with back := m.back ++ bs, said := m.said ++ bs } else none
  | .close => if m.isOpen p then some { m with closed := true } else none
  | .read n =>
    if m.unsent = [] ∧ m.dialer? p = none ∧
        (0 < n ∧ n ≤ m.back.length ∨ m.back = [] ∧ m.closed = true) then
      some { m with seen := m.seen ++ [m.back.take n], back := m.back.drop n }
    else none

def run? (p : Parties) : Meeting → List Deed → Option Meeting
  | m, [] => some m
  | m, d :: ds => (m.step? p d).bind fun m => run? p m ds

end Meeting
end PeerWatch
