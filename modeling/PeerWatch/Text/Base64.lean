/-!
Base64 in the standard alphabet without padding. Writing takes three bytes to four symbols, and
one or two bytes at the end to two or three. Reading is strict: it accepts exactly what writing
produces, and says of anything else what is wrong with it first.
-/

namespace PeerWatch.Base64

def symbol (n : Nat) : UInt8 :=
  if n < 26 then (65 + n).toUInt8
  else if n < 52 then (71 + n).toUInt8
  else if n < 62 then (n - 4).toUInt8
  else if n = 62 then 43
  else 47

def value? (b : UInt8) : Option Nat :=
  let n := b.toNat
  if 65 ≤ n ∧ n ≤ 90 then some (n - 65)
  else if 97 ≤ n ∧ n ≤ 122 then some (n - 71)
  else if 48 ≤ n ∧ n ≤ 57 then some (n + 4)
  else if n = 43 then some 62
  else if n = 47 then some 63
  else none

/-- The values below 64 that stand for bytes. -/
def sextets : List UInt8 → List Nat
  | [] => []
  | [a] => [a.toNat / 4, a.toNat % 4 * 16]
  | [a, b] => [a.toNat / 4, a.toNat % 4 * 16 + b.toNat / 16, b.toNat % 16 * 4]
  | a :: b :: c :: rest =>
    a.toNat / 4 :: (a.toNat % 4 * 16 + b.toNat / 16) :: (b.toNat % 16 * 4 + c.toNat / 64) ::
      c.toNat % 64 :: sextets rest

def encode (bs : List UInt8) : List UInt8 := (sextets bs).map symbol

/-- The bytes that values below 64 stand for; `none` where unused bits are set or a value is
left alone at the end. -/
def unsextets : List Nat → Option (List UInt8)
  | [] => some []
  | [_] => none
  | [a, b] => if b % 16 = 0 then some [(4 * a + b / 16).toUInt8] else none
  | [a, b, c] =>
    if c % 4 = 0 then some [(4 * a + b / 16).toUInt8, (b % 16 * 16 + c / 4).toUInt8] else none
  | a :: b :: c :: d :: rest =>
    (unsextets rest).map fun bs =>
      (4 * a + b / 16).toUInt8 :: (b % 16 * 16 + c / 4).toUInt8 :: (c % 4 * 64 + d).toUInt8 :: bs

inductive Fault
  | invalidByte (byte : UInt8) (offset : Nat)
  | strayCharacter
  | padding
  | lastSymbol (byte : UInt8) (offset : Nat)
  deriving DecidableEq, Repr

def Fault.message : Fault → String
  | .invalidByte b i => s!"Invalid byte {b.toNat}, offset {i}."
  | .strayCharacter => "Encoded text cannot have a 6-bit remainder."
  | .padding => "Invalid padding"
  | .lastSymbol b i => s!"Invalid last symbol {b.toNat}, offset {i}."

/-- The padding sign, which has no place in a text but is reported in its own ways. -/
def pad : UInt8 := 61

/-- The first byte outside the alphabet, from offset `i` on. -/
def foreign? (i : Nat) : List UInt8 → Option Fault
  | [] => none
  | b :: bs => if (value? b).isNone then some (.invalidByte b i) else foreign? (i + 1) bs

/-- The first fault in the last block, whose byte `i` has offset `start + i`; `padded` is the
offset of the first padding sign seen. A sign after two or three symbols of a group of four may
stand until the end and is then reported as padding. -/
def blockFault? (start i : Nat) (padded : Option Nat) : List UInt8 → Option Fault
  | [] => padded.map fun _ => .padding
  | b :: bs =>
    if b = pad then
      let first := padded.getD (start + i)
      if i % 4 < 2 then some (.invalidByte pad first) else blockFault? start (i + 1) (some first) bs
    else match padded with
      | some first => some (.invalidByte pad first)
      | none =>
        if (value? b).isNone then some (.invalidByte b (start + i))
        else blockFault? start (i + 1) none bs

/-- Where the last block starts: blocks are of eight symbols, and the last one is not empty. -/
def lastBlock (n : Nat) : Nat := (n - 1) / 8 * 8

/-- The first fault of a text other than unused bits that are set. -/
def fault? (bs : List UInt8) : Option Fault :=
  let n := bs.length
  let start := lastBlock n
  let last := bs.getLastD 0
  if n % 4 = 1 then
    some (if last ≠ pad ∧ (value? last).isNone then .invalidByte last (n - 1) else .strayCharacter)
  else match foreign? 0 (bs.take start) with
    | some f => some f
    | none => blockFault? start 0 none (bs.drop start)

def decode (bs : List UInt8) : Except Fault (List UInt8) :=
  match fault? bs with
  | some f => .error f
  | none =>
    match unsextets (bs.filterMap value?) with
    | some out => .ok out
    | none => .error (.lastSymbol (bs.getLastD 0) (bs.length - 1))

end PeerWatch.Base64
