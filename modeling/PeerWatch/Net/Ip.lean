import PeerWatch.Text.Cut
import PeerWatch.Text.Decimal

/-!
Internet addresses and their text. A version 4 address is four decimal bytes. A version 6 address
is eight hexadecimal groups; one `::` stands for one group of zeros or more, and four decimal
bytes may stand for the last two groups. Writing shortens the first longest run of two or more
zero groups, and shows an address that carries a version 4 one with decimal bytes.
-/

namespace PeerWatch

structure Ipv4 where
  a : UInt8
  b : UInt8
  c : UInt8
  d : UInt8
  deriving DecidableEq, Repr

structure Ipv6 where
  groups : List UInt16
  length_groups : groups.length = 8
  deriving DecidableEq, Repr

inductive Ip
  | v4 (addr : Ipv4)
  | v6 (addr : Ipv6)
  deriving DecidableEq, Repr

namespace Ipv4

def byte? (s : List Char) : Option UInt8 :=
  if s.length ≤ 3 ∧ (s.length = 1 ∨ s.head? ≠ some '0') then
    (Text.number? s).bind fun n => if n < 256 then some n.toUInt8 else none
  else none

def parse? (s : List Char) : Option Ipv4 :=
  match Text.pieces '.' s with
  | [a, b, c, d] => do return ⟨← byte? a, ← byte? b, ← byte? c, ← byte? d⟩
  | _ => none

def text (ip : Ipv4) : List Char :=
  Text.join ['.'] ([ip.a, ip.b, ip.c, ip.d].map fun b => Text.decimal b.toNat)

end Ipv4

namespace Ipv6

def group? (s : List Char) : Option UInt16 :=
  if s.length ≤ 4 then (Text.numberIn? 16 s).map Nat.toUInt16 else none

def pair (hi lo : UInt8) : UInt16 := (256 * hi.toNat + lo.toNat).toUInt16

/-- Reads groups; the last piece may write two groups as four decimal bytes if `tail` says so. -/
def groups? (tail : Bool) : List (List Char) → Option (List UInt16)
  | [] => some []
  | [p] =>
    match if tail then Ipv4.parse? p else none with
    | some ip => some [pair ip.a ip.b, pair ip.c ip.d]
    | none => (group? p).map ([·])
  | p :: ps => do return (← group? p) :: (← groups? tail ps)

/-- The groups of a text with colons between them; the empty text has none. -/
def side? (tail : Bool) (s : List Char) : Option (List UInt16) :=
  if s.isEmpty then some [] else groups? tail (Text.pieces ':' s)

def cutGap : List Char → Option (List Char × List Char)
  | ':' :: ':' :: s => some ([], s)
  | [] => none
  | c :: s => (cutGap s).map fun (p, q) => (c :: p, q)

def ofGroups? (gs : List UInt16) : Option Ipv6 :=
  if h : gs.length = 8 then some ⟨gs, h⟩ else none

/-- Reads eight groups, or fewer around one `::`. -/
def parse? (s : List Char) : Option Ipv6 :=
  match cutGap s with
  | none => (side? true s).bind ofGroups?
  | some (head, tail) => do
    let front ← side? false head
    let back ← side? true tail
    if front.length + back.length ≤ 7 then
      ofGroups? (front ++ List.replicate (8 - front.length - back.length) 0 ++ back)
    else none

def leadingZeros (gs : List UInt16) : Nat := (gs.takeWhile (· = 0)).length

/-- Where the first longest run of zero groups starts and how long it is. -/
def longestRun : List UInt16 → Nat × Nat
  | [] => (0, 0)
  | g :: gs =>
    let here := leadingZeros (g :: gs)
    let (i, n) := longestRun gs
    if n ≤ here then (0, here) else (i + 1, n)

def groupsText (gs : List UInt16) : List Char :=
  Text.join [':'] (gs.map fun g => Text.hexadecimal g.toNat)

/-- The version 4 address that a version 6 address carries in its last two groups. -/
def carried? (ip : Ipv6) : Option Ipv4 :=
  match ip.groups with
  | [0, 0, 0, 0, 0, 0xFFFF, g, h] =>
    some ⟨(g.toNat / 256).toUInt8, (g.toNat % 256).toUInt8, (h.toNat / 256).toUInt8,
      (h.toNat % 256).toUInt8⟩
  | _ => none

def isUnspecified (ip : Ipv6) : Bool := ip.groups == [0, 0, 0, 0, 0, 0, 0, 0]

def isLoopback (ip : Ipv6) : Bool := ip.groups == [0, 0, 0, 0, 0, 0, 0, 1]

def text (ip : Ipv6) : List Char :=
  match ip.carried? with
  | some inner => "::ffff:".toList ++ inner.text
  | none =>
    let (i, n) := longestRun ip.groups
    if 1 < n then
      groupsText (ip.groups.take i) ++ [':', ':'] ++ groupsText (ip.groups.drop (i + n))
    else groupsText ip.groups

end Ipv6

namespace Ip

def parse? (s : List Char) : Option Ip :=
  match Ipv4.parse? s with
  | some ip => some (.v4 ip)
  | none => (Ipv6.parse? s).map .v6

def text : Ip → List Char
  | .v4 ip => ip.text
  | .v6 ip => ip.text

def isV4 : Ip → Bool
  | .v4 _ => true
  | .v6 _ => false

end Ip
end PeerWatch
