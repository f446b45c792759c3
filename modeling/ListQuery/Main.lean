/-
This file is the outer layer of the command line tool: it hands the surroundings
to the library, exchanges a call for an answer over a connection, and prints what
the library says.
-/

import ListQuery.Client.Wire
import ListQuery.Command
import Std.Async

namespace ListQuery

namespace Command

open Std Async Net

/-- The address of a host, which is given in digits or has to be looked up. -/
def addressOf (host : String) : Async IPAddr := do
  if let some address := IPv4Addr.ofString host then return .v4 address
  let found ← DNS.getAddrInfo host "http"
  match found[0]? with
  | some address => return address
  | none => throw (IO.userError s!"no address for {host}")

/-- The address of a service by its number on a host. -/
def socketAddress (address : IPAddr) (number : UInt16) : SocketAddress :=
  match address with
  | .v4 address => .v4 ⟨address, number⟩
  | .v6 address => .v6 ⟨address, number⟩

/-- Everything that a connection still brings. -/
partial def receive (socket : TCP.Socket.Client) (before : ByteArray) : Async ByteArray := do
  match ← socket.recv? 65536 with
  | some bytes => receive socket (before ++ bytes)
  | none => return before

/-- Sends a call over a connection of its own, which is not encrypted. -/
def exchange (call : Call) : Async (Except HttpFault Answer) := do
  if call.secure then
    return .error (.connection "TLS required, but transport is unsecured")
  let (host, number) := match call.host.splitOn ":" with
    | [host, number] => (host, (number.toNat?.getD 80).toUInt16)
    | _ => (call.host, 80)
  let socket ← TCP.Socket.Client.mk
  socket.connect (socketAddress (← addressOf host) number)
  socket.send (Wire.call call).toUTF8
  let bytes ← receive socket ByteArray.empty
  match Wire.answer? bytes.toList with
  | some answer => return .ok answer
  | none => return .error (.connection "protocol: malformed answer")

/-- Sends a call and waits for the answer no longer than the timeout. -/
def exchangeWithin (timeoutMs : Count) (call : Call) : IO (Except HttpFault Answer) := do
  let late : Async (Except HttpFault Answer) := do
    sleep (Std.Time.Millisecond.Offset.ofNat timeoutMs.toNat)
    return .error (.connection "timeout: global")
  try
    (Async.race (exchange call) late).block
  catch fault =>
    return .error (.connection s!"io: {fault}")

/-- Prints the outcome of a run. -/
def report (outcome : Outcome) : IO UInt32 := do
  IO.print outcome.output
  IO.eprint outcome.complaint
  return outcome.code.toUInt32

/-- What the tool finds when it starts, given the arguments that follow its name. -/
def surroundings (arguments : List String) : IO Surroundings := do
  let input := String.fromUTF8? (← (← IO.getStdin).readBinToEnd)
  let baseUrl ← IO.getEnv Settings.baseUrlVariable
  let timeout ← IO.getEnv Settings.timeoutVariable
  let environment (name : String) : Option String :=
    if name = Settings.baseUrlVariable then baseUrl
    else if name = Settings.timeoutVariable then timeout
    else none
  return { input, arguments := some "nestq-fetch" :: arguments.map some, environment }

end Command

end ListQuery

open ListQuery Command in
/-- The command line tool. -/
def main (arguments : List String) : IO UInt32 := do
  match prepare (← surroundings arguments) with
  | .error fault => report (outcome (.error fault))
  | .ok (.print document) => report (outcome (.ok document))
  | .ok (.send call timeoutMs) =>
    report (outcome (conclude (← exchangeWithin timeoutMs call)))
  | .ok .panic => report .panic
