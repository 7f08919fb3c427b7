import PeerWatch.Text.Blank
import PeerWatch.Text.Quoted

/-!
Peer identities and what can be wrong with an address. A peer id is a token that can stand inside
an address: not empty, and free of white space, `/` and `@`.
-/

namespace PeerWatch

def isIdChar (c : Char) : Bool := !(Text.isBlank c || c == '/' || c == '@')

structure PeerId where
  text : String
  text_ne : text ≠ ""
  isIdChar_text : text.toList.all isIdChar = true
  deriving DecidableEq

inductive Malformation
  | shape (address : String)
  | badIp (address : String)
  | familyMismatch (address : String)
  | badPort (address : String)
  | portZero (address : String)
  | missingPort (address : String)
  | emptyHost
  | portZeroForHost (host : String)
  | portOutOfRange (port : Int)
  deriving DecidableEq, Repr

def Malformation.message : Malformation → String
  | .shape s => s
  | .badIp s => s!"bad ip in {s}"
  | .familyMismatch s => s!"ip family mismatch in {s}"
  | .badPort s => s!"bad port in {s}"
  | .portZero s => s!"port 0 in {s}"
  | .missingPort s => s!"missing port in {s}"
  | .emptyHost => "empty host"
  | .portZeroForHost h => s!"port 0 for host {h}"
  | .portOutOfRange n => s!"port {n} out of range"

inductive AddressError
  | emptyPeerId
  | invalidPeerId (id : String)
  | missingPeerId (address : String)
  | unsupportedProtocol (protocol : String)
  | malformed (what : Malformation)
  deriving DecidableEq, Repr

def AddressError.message : AddressError → String
  | .emptyPeerId => "empty peer id"
  | .invalidPeerId id => s!"invalid peer id: {Text.quoted id}"
  | .missingPeerId s => s!"address has no peer id: {s}"
  | .unsupportedProtocol p => s!"unsupported address protocol: {p}"
  | .malformed what => s!"malformed address: {what.message}"

namespace PeerId

def ofString (s : String) : Except AddressError PeerId :=
  if h : s = "" then .error .emptyPeerId
  else if h' : s.toList.all isIdChar = true then .ok ⟨s, h, h'⟩
  else .error (.invalidPeerId s)

def ofString? (s : String) : Option PeerId :=
  match ofString s with
  | .ok id => some id
  | .error _ => none

def dump (id : PeerId) : String := s!"PeerId({id.text})"

def le (a b : PeerId) : Bool := !(b.text < a.text)

/-- Peer ids in their order, each once. -/
def ordered (ids : List PeerId) : List PeerId :=
  (ids.mergeSort le).foldr (fun a rest => if rest.head? = some a then rest else a :: rest) []

end PeerId
end PeerWatch
