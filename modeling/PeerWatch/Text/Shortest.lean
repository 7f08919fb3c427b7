import PeerWatch.Text.Decimal

/-!
The shortest decimal of a floating-point number: the fewest digits that are nearer to it than to
any other one. Among the decimals of that length the nearest is taken, and of two equally near ones
the greater. It is written without an exponent.
-/

namespace PeerWatch.Text

/-- A positive rational `num / den` and how far it reaches: all numbers from `num - below` to
`num + above`, over the same denominator, round to it, and the ends do where `closed` holds. -/
structure Rounded where
  num : Nat
  den : Nat
  below : Nat
  above : Nat
  closed : Bool
  deriving DecidableEq, Repr

/-- What the bits of a positive finite number stand for. The numbers below a power of two are
twice as dense as those above it. -/
def Rounded.ofBits (bits : UInt64) : Rounded :=
  let e := (bits >>> 52 &&& 0x7FF).toNat
  let f := (bits &&& 0xFFFFFFFFFFFFF).toNat
  let m := if e = 0 then f else 4503599627370496 + f
  let up := Nat.pow 2 (e - 1075)
  let down := Nat.pow 2 (1075 - max e 1)
  ⟨4 * m * up, 4 * down, if f = 0 ∧ 1 < e then up else 2 * up, 2 * up, m % 2 = 0⟩

def Rounded.reaches (x : Rounded) (a scale : Nat) : Bool :=
  let lo := (x.num - x.below) * scale
  let hi := (x.num + x.above) * scale
  if x.closed then lo ≤ a && a ≤ hi else lo < a && a < hi

/-- The number of digits before the point, or minus the number of zeros right after it. -/
def Rounded.magnitude (x : Rounded) : Int :=
  if x.den ≤ x.num then (decimal (x.num / x.den)).length
  else 1 - (decimal ((x.den - 1) / x.num)).length

/-- A number of `10 ^ e`: ten of them are one of the next place. -/
def carried (n : Nat) (e : Int) : Nat × Int := if n = 10 then (1, e + 1) else (n, e)

/-- The decimal of a multiple of `10 ^ e` that rounds to the number and is nearest to it, if there
is one: its digits and the exponent of the last one. -/
def Rounded.onGrid (x : Rounded) (e : Int) : Option (Nat × Int) :=
  let scale := Nat.pow 10 (-e).toNat
  let unit := x.den * Nat.pow 10 e.toNat
  let d := x.num * scale / unit
  let low := x.reaches (d * unit) scale
  let high := x.reaches ((d + 1) * unit) scale
  if low && (!high || 2 * (x.num * scale) < (2 * d + 1) * unit) then some (d, e)
  else if high then some (carried (d + 1) e)
  else none

/-- The shortest decimal: its digits and the exponent of the last one. -/
def Rounded.shortest (x : Rounded) : Nat × Int :=
  ((List.range 1100).findSome? fun n : Nat => x.onGrid (x.magnitude - (n + 1 : Nat))).getD (0, 0)

/-- Writes `n * 10 ^ e` without an exponent. -/
def positional (n : Nat) (e : Int) : List Char :=
  let digits := decimal n
  if 0 ≤ e then digits ++ List.replicate e.toNat '0'
  else
    let places := (-e).toNat
    let digits := List.replicate (places + 1 - digits.length) '0' ++ digits
    digits.take (digits.length - places) ++ '.' :: digits.drop (digits.length - places)

def floatText (x : Float) : String :=
  if x.isNaN then "NaN"
  else
    let bits := x.toBits
    let magnitude := bits &&& 0x7FFFFFFFFFFFFFFF
    let body :=
      if x.isInf then "inf".toList
      else if magnitude = 0 then ['0']
      else
        let (n, e) := (Rounded.ofBits magnitude).shortest
        positional n e
    String.ofList (if bits = magnitude then body else '-' :: body)

end PeerWatch.Text
