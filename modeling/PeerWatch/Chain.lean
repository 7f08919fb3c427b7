import PeerWatch.Hash.Blake2b
import PeerWatch.Text.Decimal
import PeerWatch.Text.Utf8

/-!
The chain that a network serves. Peers of one chain meet under its rendezvous string, and the
digest of that string is the key that keeps other networks out.
-/

namespace PeerWatch

def nodeStatusProtocol : String := "/mina/node-status"

def subscriberProtocol : String := "/mina-proxy/node-status"

def rendezvous (chain : String) : String := "/coda/0.0.1/" ++ chain

def networkKey (chain : String) : List UInt8 := Blake2b.digest (Utf8.ofString (rendezvous chain))

def networkKeyHex (chain : String) : String := String.ofList (Text.bytesHex (networkKey chain))

end PeerWatch
