import PeerWatch.Stream.Segment
import PeerWatch.Text.Quoted
import PeerWatch.Text.Utf8

/-!
The preamble of a stream. The dialer sends the key of its network and a protocol, each on a line;
the listener answers with the protocol, or refuses it. A listener with another key says nothing.
A line has at most 512 bytes with its newline.
-/

namespace PeerWatch.Handshake

def refusal : String := "na"

def maxLine : Nat := 512

inductive Fault
  | io (reason : String)
  | stalled
  | closed
  | badLine
  | unexpectedReply (reply : String)
  | networkMismatch
  | refused (protocol : String)
  deriving DecidableEq, Repr

def Fault.message : Fault → String
  | .io reason => s!"I/O error: {reason}"
  | .stalled => "handshake failed: nothing more was said"
  | .closed => "handshake failed: connection closed during handshake"
  | .badLine => "handshake failed: preamble line too long or truncated"
  | .unexpectedReply reply => s!"handshake failed: unexpected reply {Text.quoted reply}"
  | .networkMismatch => "network key mismatch"
  | .refused protocol => s!"protocol {protocol} refused"

/-- Takes the bytes up to a newline, to an end or to `room` bytes, whatever the reads bring at a
time. -/
def takeLine : Nat → List Segment → Except Fault (List UInt8 × List Segment)
  | _, [] => .ok ([], [])
  | _, .fail reason :: _ => .error (.io reason)
  | _, .hang :: _ => .error .stalled
  | room, .wait _ :: script => takeLine room script
  | room, .bytes bs :: script =>
    if bs.isEmpty then .ok ([], script)
    else
      let seen := bs.take room
      let word := seen.takeWhile (· ≠ 10)
      if word.length < seen.length then
        .ok (word ++ [10], Segment.putBack (bs.drop (word.length + 1)) script)
      else if room ≤ bs.length then .ok (seen, Segment.putBack (bs.drop room) script)
      else do
        let (line, script) ← takeLine (room - bs.length) script
        return (bs ++ line, script)

def lineText (line : List Char) : Option String :=
  match line.reverse with
  | '\n' :: '\r' :: r | '\n' :: r => some (String.ofList r.reverse)
  | _ => none

def readLine (script : List Segment) : Except Fault (String × List Segment) := do
  let (line, rest) ← takeLine maxLine script
  match Utf8.decode line with
  | .error fault => throw (.io fault.message)
  | .ok chars =>
    if chars.isEmpty then throw .closed
    match lineText chars with
    | none => throw .badLine
    | some text => return (text, rest)

def preamble (key protocol : String) : String := s!"{key}\n{protocol}\n"

/-- Reads the reply to a preamble. Answers what follows it. -/
def dial (protocol : String) (script : List Segment) : Except Fault (List Segment) := do
  let (reply, rest) ← readLine script
  if reply = protocol then return rest
  else if reply = refusal then throw (.refused protocol)
  else throw (.unexpectedReply reply)

/-- Reads a preamble. Answers the protocol and what follows it, and the reply that is sent. -/
def accept (key : String) (supported : List String) (script : List Segment) :
    Except Fault (String × List Segment) × String :=
  match readLine script with
  | .error fault => (.error fault, "")
  | .ok (theirs, script) =>
    if theirs ≠ key then (.error .networkMismatch, "")
    else match readLine script with
      | .error fault => (.error fault, "")
      | .ok (protocol, rest) =>
        if supported.contains protocol then (.ok (protocol, rest), s!"{protocol}\n")
        else (.error (.refused protocol), s!"{refusal}\n")

end PeerWatch.Handshake
