import DistributedSns.Server.Model

/-!
# The servers and the coordinator together

An RPC runs the receiver's handler to its end before it returns, together with everything the handler
propagates. The result lists the addresses at which the handler has been executed, in their order. An RPC to
a process which does not listen fails, a fault ends the process, and `propogateHelper` ignores both.
-/

namespace DistributedSns.System

open Coordinator (SNSCoordinator ServerInfo)
open Server (SNSServer Request Message StreamId TimeZone)
open Server.SNSServer (Method)

/-- The server processes by the address they listen at. -/
structure Network where
  coordinator : SNSCoordinator
  servers : Str → Option SNSServer

def Network.setServer (n : Network) (addr : Str) (s : Option SNSServer) : Network :=
  { n with servers := Function.update n.servers addr s }

/-- The address `propogateHelper` makes of an entry of the server list. -/
def address (s : ServerInfo) : Str := s.hostname ++ ":".toList ++ s.port

inductive Destination where
  | COUNTERPARTS
  | OTHER_MASTERS
  deriving DecidableEq

def serverList (c : SNSCoordinator) (serverInfo : ServerInfo) : Destination → Except Fault (List ServerInfo)
  | .COUNTERPARTS => c.getCounterparts serverInfo
  | .OTHER_MASTERS => c.getOtherClusterMasters serverInfo

/-- An RPC to an address: the network after it, and where handlers have been executed. -/
abbrev Rpc := Network → Str → Except Fault (Network × List Str)

/-- The loop of `propogateHelper`. -/
def sendAll (rpc : Rpc) : Network → List Str → Except Fault (Network × List Str)
  | n, [] => .ok (n, [])
  | n, addr :: addrs => do
    let (n, executed) ← rpc n addr
    let (n, executed') ← sendAll rpc n addrs
    return (n, executed ++ executed')

def propogateHelper (rpc : Rpc) (n : Network) (serverInfo : ServerInfo) (destination : Destination) :
    Except Fault (Network × List Str) := do
  let servers ← serverList n.coordinator serverInfo destination
  sendAll rpc n (servers.map address)

def propogate (rpc : Request → Rpc) (n : Network) (s : SNSServer) (request : Request) :
    Except Fault (Network × List Str) :=
  if s.master then do
    let newRequest := { request with from_server := true }
    let (n, executed) ← propogateHelper (rpc newRequest) n s.serverInfo .COUNTERPARTS
    if !request.from_server then do
      let (n, executed') ← propogateHelper (rpc newRequest) n s.serverInfo .OTHER_MASTERS
      return (n, executed ++ executed')
    else return (n, executed)
  else .ok (n, [])

/-- A request to a server. The fuel bounds the depth of nested calls. -/
def call (tz : TimeZone) (method : Method) : (fuel : Nat) → Request → Rpc
  | 0, _, _, _ => .error .outOfFuel
  | fuel + 1, request, n, addr =>
    match n.servers addr with
    | none => .ok (n, [])
    | some s =>
      match s.handle tz method request with
      | .error _ => .ok (n.setServer addr none, [addr])
      | .ok (s', _) =>
        -- `AddPost` does not propagate
        if method = .ADD_POST then .ok (n.setServer addr s', [addr])
        else do
          let (n, executed) ← propogate (call tz method fuel) (n.setServer addr s') s' request
          return (n, addr :: executed)

/-- One round of the loop of `Timeline` at the server at `addr`. -/
def post (tz : TimeZone) (fuel : Nat) (stream : StreamId) (message : Message) : Rpc := fun n addr =>
  match n.servers addr with
  | none => .ok (n, [])
  | some s =>
    match s.timeline tz stream message with
    | .error _ => .ok (n.setServer addr none, [])
    | .ok (s', none) => .ok (n.setServer addr s', [])
    | .ok (s', some message) => propogate (call tz .ADD_POST fuel) (n.setServer addr s') s' { message }

end DistributedSns.System
