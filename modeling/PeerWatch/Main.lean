import PeerWatch.Live.Proxy
import Std.Async.Signal

/-!
The program: it runs a proxy, or watches one and prints a line for every view, until it is
interrupted.
-/

namespace PeerWatch.Live
open Std.Async

def readSettings (file : String) : IO Settings := do
  try return Command.settingsOf (some (← IO.FS.readBinFile file).toList)
  catch _ => return Command.settingsOf none

def socketsOf (deadline : Nat) (text : String) : IO (List SocketAddr) := do
  match SocketAddr.parse? text.toList with
  | some a => return [a]
  | none =>
    let (port, host) := (text.toList.reverse.takeWhile (· ≠ ':'),
      (text.toList.reverse.dropWhile (· ≠ ':')).drop 1)
    match SocketAddr.port? port.reverse with
    | some p => resolve deadline ⟨.dns (String.ofList host.reverse), p⟩
    | none => throw (.userError "invalid socket address")

def never : Nat := 1000000000000

def printView (line : List UInt8) : IO Unit := do
  match View.ofLine line with
  | .ok none => return
  | .ok (some v) =>
    IO.println (Command.line v)
    (← IO.getStdout).flush
  | .error e => throw (.userError e.message)

/-- Prints the views that come over a connection; `held` is what has come and is not yet read. -/
partial def printViews (s : TCP.Socket.Client) (held : List UInt8) : Async Unit := do
  if held.contains 10 then
    printView (held.takeWhile (· ≠ 10))
    printViews s ((held.dropWhile (· ≠ 10)).drop 1)
  else
    match ← s.recv? 65536 with
    | some bs => printViews s (held ++ bs.toList)
    | none => printView held

def dialAny (last : IO.Error) : List SocketAddr → IO TCP.Socket.Client
  | [] => throw last
  | a :: rest => do
    try
      match ← dial never a with
      | some s => return s
      | none => dialAny last rest
    catch e => dialAny e rest

def watch (proxy : String) (settings : Settings) : IO (AsyncTask Unit) := do
  let s ← dialAny (.userError "no socket to connect to") (← socketsOf never proxy)
  match ← offer s never (networkKeyHex settings.chainId) subscriberProtocol with
  | .ok held => (printViews s held).toIO
  | .error fault => throw (.userError fault.message)

def exitCode : Except IO.Error Unit → IO UInt32
  | .ok _ => return 0
  | .error e => do
    IO.eprintln s!"Error: {e}"
    return 1

def untilInterrupted (task : AsyncTask Unit) : IO (Except IO.Error Unit) := do
  let interrupt ← (← Signal.Waiter.mk .sigint false).wait
  IO.waitAny [task, interrupt.map fun _ => ()]

def perform : Command → IO Unit
  | .usage => throw (.userError Command.usageText)
  | .watch proxy file => do
    IO.ofExcept (← untilInterrupted (← watch proxy (← readSettings file)))
  | .serve file => do
    let proxy ← Proxy.start (← readSettings file)
    let task ← IO.asTask proxy.serve .dedicated
    let r ← untilInterrupted task
    proxy.stopped.set true
    discard (IO.wait task)
    IO.ofExcept r

end PeerWatch.Live

open PeerWatch in
def main (args : List String) : IO UInt32 := do
  Live.exitCode (← (Live.perform (Command.ofArgs args)).toBaseIO)
