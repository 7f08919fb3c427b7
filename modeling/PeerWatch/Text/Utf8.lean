/-!
UTF-8. Encoding is a function on characters; decoding reads one character at a time and refuses
at the first byte that no encoded text could hold there, saying how much of the text was valid.
-/

namespace PeerWatch.Utf8

def encodeNat (n : Nat) : List UInt8 :=
  if n < 0x80 then [n.toUInt8]
  else if n < 0x800 then [(0xC0 + n / 64).toUInt8, (0x80 + n % 64).toUInt8]
  else if n < 0x10000 then
    [(0xE0 + n / 4096).toUInt8, (0x80 + n / 64 % 64).toUInt8, (0x80 + n % 64).toUInt8]
  else
    [(0xF0 + n / 262144).toUInt8, (0x80 + n / 4096 % 64).toUInt8, (0x80 + n / 64 % 64).toUInt8,
      (0x80 + n % 64).toUInt8]

def encodeChar (c : Char) : List UInt8 := encodeNat c.toNat

def encode (s : List Char) : List UInt8 := s.flatMap encodeChar

def ofString (s : String) : List UInt8 := encode s.toList

/-- Why bytes are no text: `valid` bytes of it are, and then either `bad` bytes could not stand
there, or the bytes end inside a character (`none`). -/
structure Fault where
  valid : Nat
  bad : Option Nat
  deriving DecidableEq, Repr

def Fault.message (e : Fault) : String :=
  match e.bad with
  | some n => s!"invalid utf-8 sequence of {n} bytes from index {e.valid}"
  | none => s!"incomplete utf-8 byte sequence from index {e.valid}"

/-- How many continuation bytes follow a first byte, and the bounds of the next one. -/
def lead? (b : Nat) : Option (Nat × Nat × Nat) :=
  if b < 0x80 then some (0, 0x80, 0xBF)
  else if 0xC2 ≤ b ∧ b ≤ 0xDF then some (1, 0x80, 0xBF)
  else if b = 0xE0 then some (2, 0xA0, 0xBF)
  else if b = 0xED then some (2, 0x80, 0x9F)
  else if 0xE1 ≤ b ∧ b ≤ 0xEF then some (2, 0x80, 0xBF)
  else if b = 0xF0 then some (3, 0x90, 0xBF)
  else if 0xF1 ≤ b ∧ b ≤ 0xF3 then some (3, 0x80, 0xBF)
  else if b = 0xF4 then some (3, 0x80, 0x8F)
  else none

/-- Where a decoder stands: between characters, or inside one with `owed` bytes to come, the next
of them between `lo` and `hi`, the bits so far in `bits` and `seen` bytes taken. -/
inductive Place
  | between
  | inside (owed lo hi bits seen : Nat)
  deriving DecidableEq, Repr

def leadBits (n b : Nat) : Nat :=
  if n = 0 then b else if n = 1 then b % 32 else if n = 2 then b % 16 else b % 8

/-- Reads bytes onto the characters `done` of the first `valid` bytes. -/
def decodeFrom (done : List Char) (valid : Nat) : Place → List UInt8 → Except Fault (List Char)
  | .between, [] => .ok done.reverse
  | .inside .., [] => .error ⟨valid, none⟩
  | .between, b :: bs =>
    match lead? b.toNat with
    | none => .error ⟨valid, some 1⟩
    | some (0, _, _) => decodeFrom (Char.ofNat b.toNat :: done) (valid + 1) .between bs
    | some (n + 1, lo, hi) =>
      decodeFrom done valid (.inside (n + 1) lo hi (leadBits (n + 1) b.toNat) 1) bs
  | .inside owed lo hi bits seen, b :: bs =>
    if lo ≤ b.toNat ∧ b.toNat ≤ hi then
      let bits := 64 * bits + b.toNat % 64
      if owed ≤ 1 then decodeFrom (Char.ofNat bits :: done) (valid + seen + 1) .between bs
      else decodeFrom done valid (.inside (owed - 1) 0x80 0xBF bits (seen + 1)) bs
    else .error ⟨valid, some seen⟩

def decode (bs : List UInt8) : Except Fault (List Char) := decodeFrom [] 0 .between bs

def decode? (bs : List UInt8) : Option (List Char) :=
  match decode bs with
  | .ok s => some s
  | .error _ => none

end PeerWatch.Utf8
