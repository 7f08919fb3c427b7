import PeerWatch.Text.Blank
import PeerWatch.Text.Decimal

/-!
The text of a span of time. Spans are whole milliseconds: none is `0ns`, one below a second is
written in milliseconds, a longer one in seconds with no more decimal places than it needs.
-/

namespace PeerWatch.Text

def threeDigits (n : Nat) : List Char :=
  [digitChar (n / 100), digitChar (n / 10 % 10), digitChar (n % 10)]

def spanText (ms : Nat) : String :=
  if ms = 0 then "0ns"
  else if ms < 1000 then String.ofList (decimal ms) ++ "ms"
  else
    let fraction := dropEndWhile (· = '0') (threeDigits (ms % 1000))
    let point := if fraction.isEmpty then [] else '.' :: fraction
    String.ofList (decimal (ms / 1000) ++ point) ++ "s"

end PeerWatch.Text
