import PeerWatch.Net.Loopback
import PeerWatch.Settings.Load

/-!
The command line. Without `watch` the first argument names the settings of a proxy to run; with it
the second names a proxy to watch and the third the settings. Settings that do not load are
replaced by the defaults.
-/

namespace PeerWatch

inductive Command
  | serve (settings : String)
  | watch (proxy settings : String)
  | usage
  deriving DecidableEq, Repr

namespace Command

def defaultFile : String := "config.yaml"

def ofArgs : List String → Command
  | "watch" :: rest =>
    match rest with
    | [] => .usage
    | proxy :: rest => .watch proxy (rest.headD defaultFile)
  | args => .serve (args.headD defaultFile)

def usageText : String := "usage: nodewatch watch <proxy-addr> [config.yaml]"

def settingsOf (file : Option (List UInt8)) : Settings := (Settings.loadFile file).toOption.getD {}

/-- How a command that nobody interrupts ends, if it ends: with this exit code. A proxy ends only
if it cannot listen, and watching only if the proxy is not there. -/
def outcome (file : String → Option (List UInt8)) (reachable : String → Bool)
    (canListen : SocketAddr → Bool) : Command → Option Nat
  | .usage => some 1
  | .watch proxy _ => if reachable proxy then none else some 1
  | .serve settings => if canListen (settingsOf (file settings)).listen then none else some 1

def line (v : View) : String := String.ofList ((Utf8.decode? v.render).getD [])

end Command

namespace Loopback

/-- Watches the machine's proxy under the chain of the settings while the updates are written down,
until it stops. Answers the lines that are printed and the exit code. -/
def watch (w : Loopback) (s : Settings) (updates : Loopback → Loopback) : List String × Nat :=
  match w.subscribe "watch" (networkKeyHex s.chainId) with
  | (.error _, _) => ([], 1)
  | (.ok _, w) =>
    let w := (updates w).stop
    let bound := w.subscribed.foldl (fun n c => n + c.received.length) 0
    ((w.take "watch" bound).1.map Command.line, 0)

/-- Runs a proxy with the settings while a subscriber of the machine's key takes `n` views, and
then interrupts it. Answers the views and the exit code. A proxy that cannot listen ends at once. -/
def run (w : Loopback) (s : Settings) (n : Nat) : List View × Nat :=
  if !w.admits s.listen then ([], 1) else
  let own := { w with
    discovery := s.discoveryPolicy
    limits := s.fetch.limits
    session := s.subscriber.sessionPolicy
    monitor := { store := .empty s.subscriber.policy } }
  let key := own.key
  let ownKey := networkKeyHex s.chainId
  let own := { own with key := ownKey, transport := { key := ownKey } }
  let (_, own) := (own.start .store).subscribe "views" key
  let (_, own) := own.bootstrap s.seedAddresses
  let (_, own) := own.tick
  ((own.take "views" n).1, 0)

end Loopback
end PeerWatch
