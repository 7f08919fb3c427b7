/-!
Decimal and hexadecimal digits: writing a natural number with the fewest digits, and reading a
non-empty run of digits, where leading zeros do no harm.
-/

namespace PeerWatch.Text

def digitChar (d : Nat) : Char :=
  if d < 10 then Char.ofNat (48 + d) else Char.ofNat (87 + d)

/-- The digits of `n` in base `b + 2`, the most significant first. -/
def digitsIn (b n : Nat) : List Char :=
  if h : n < b + 2 then [digitChar n]
  else
    have : n / (b + 2) < n := Nat.div_lt_self (by omega) (by omega)
    digitsIn b (n / (b + 2)) ++ [digitChar (n % (b + 2))]

def decimal (n : Nat) : List Char := digitsIn 8 n

def hexadecimal (n : Nat) : List Char := digitsIn 14 n

def decimalInt : Int → List Char
  | .ofNat n => decimal n
  | .negSucc n => '-' :: decimal (n + 1)

/-- The value of a digit of either case, in any base up to sixteen. -/
def digitValue? (c : Char) : Option Nat :=
  if '0' ≤ c ∧ c ≤ '9' then some (c.toNat - 48)
  else if 'a' ≤ c ∧ c ≤ 'f' then some (c.toNat - 87)
  else if 'A' ≤ c ∧ c ≤ 'F' then some (c.toNat - 55)
  else none

def digitIn? (b : Nat) (c : Char) : Option Nat :=
  (digitValue? c).filter (· < b)

/-- Reads digits of base `b` onto the number read so far. -/
def readDigits (b : Nat) : Nat → List Char → Option Nat
  | n, [] => some n
  | n, c :: s => (digitIn? b c).bind fun d => readDigits b (b * n + d) s

/-- The number that a non-empty run of digits of base `b` writes. -/
def numberIn? (b : Nat) (s : List Char) : Option Nat :=
  if s.isEmpty then none else readDigits b 0 s

def number? (s : List Char) : Option Nat := numberIn? 10 s

def byteHex (b : UInt8) : List Char :=
  [digitChar (b.toNat / 16), digitChar (b.toNat % 16)]

def bytesHex (bs : List UInt8) : List Char := bs.flatMap byteHex

end PeerWatch.Text
