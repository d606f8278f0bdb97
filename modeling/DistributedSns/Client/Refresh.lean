import DistributedSns.Coordinator.Model

/-!
# The client and its coordinator (`client.cpp`)

`connect` gets an id from the coordinator. From then on `getServerInfo` is called over and over by `refreshServer`, and
each call is one step here: the coordinator handles `GetServer`, and the client takes the answer. After the first of
them `connect` logs in, and the program ends if it cannot. What the client does with its server meanwhile is in
`Client.Model`.
-/

namespace DistributedSns.Client.Refresh

open Lib Coordinator

/-! ## The client -/

def MAX_RETRIES : Nat := 3
def SERVER_UNAVAILABLE : Str := "Server unavailable. Retrying...\n".toList
def CANNOT_REACH_SERVER : Str := "Cannot reach server. Exiting.\n".toList
def CONNECTION_FAILED : Str := "Connection failed: -1\n".toList

/-- A client's process, with the fields which `connect` and `getServerInfo` use. `stub_` is the address of its channel;
there is none before the first `getServerInfo`. The process is connected once `connect` has returned. -/
structure Process where
  id : Int
  server : ServerInfo := {}
  stub_ : Option Str := none
  retries : Nat := 0
  connected : Bool := false
  output : Str := []
  exited : Bool := false
  deriving DecidableEq

namespace Process

def print (client : Process) (text : Str) : Process := { client with output := client.output ++ text }

def displayReConnectionMessage (host port : Str) : Str :=
  "Connecting to ".toList ++ host ++ ":".toList ++ port ++ "...\n".toList

/-- The end of `getServerInfo`. -/
def newStub (client : Process) : Process :=
  let serverHostname := client.server.hostname
  let serverPort := client.server.port
  let client :=
    if client.server.changed then client.print (displayReConnectionMessage serverHostname serverPort) else client
  { client with stub_ := some (serverHostname ++ ":".toList ++ serverPort) }

/-- The answer of a failed call carries no message, and `server` stays as it was. -/
def getServerInfo (client : Process) (answer : Status × ServerInfo) : Process :=
  let (status, server) := answer
  if status.code ≠ .ok then
    if status.code = .unavailable ∧ client.retries < MAX_RETRIES then
      newStub { client.print SERVER_UNAVAILABLE with retries := client.retries + 1 }
    else { client.print CANNOT_REACH_SERVER with exited := true }
  else newStub { client with server, retries := 0 }

/-- `connect` is about to call `Login`. -/
def awaitsLogin (client : Process) : Bool := client.stub_.isSome && !client.connected

/-- The end of `connect`, and what `run` makes of it. -/
def endConnect (client : Process) (success : Bool) : Process :=
  if success then { client with connected := true } else { client.print CONNECTION_FAILED with exited := true }

end Process

/-! ## The coordinator with its clients -/

/-- Why a call has not come to the coordinator. -/
structure Failure where
  status : Status
  ne_ok : status.code ≠ .ok

/-- The clients are numbered in the order in which they connect. -/
structure System where
  coordinator : SNSCoordinator
  clients : List Process

/-- A call whose answer is lost is a step of the coordinator alone, followed by one which fails. -/
inductive Event where
  /-- what the coordinator does for anyone else -/
  | coordinator (e : SNSCoordinator.Event)
  | connect
  | refresh (n : Nat) (failure : Option Failure)
  /-- the `Login` of `connect` comes to an end, whether the server accepts it or not -/
  | login (n : Nat) (success : Bool)

namespace System

def init (numClusters : Int) : System where
  coordinator := .init numClusters
  clients := []

/-- The client whose process is still there. -/
def running (s : System) (n : Nat) : Option Process := s.clients[n]?.filter fun client => !client.exited

def getServer (s : System) (id : Int) : Option Failure → Except Fault (SNSCoordinator × Status × ServerInfo)
  | some failure => .ok (s.coordinator, failure.status, {})
  | none => s.coordinator.getServer id

def handle (s : System) : Event → Except Fault System
  | .coordinator e => return { s with coordinator := ← s.coordinator.handle e }
  | .connect =>
    let (coordinator, id) := s.coordinator.getUniqueClientID
    return { coordinator, clients := s.clients ++ [{ id }] }
  | .refresh n failure =>
    match s.running n with
    | none => return s
    | some client => do
      let (coordinator, answer) ← s.getServer client.id failure
      return { coordinator, clients := s.clients.set n (client.getServerInfo answer) }
  | .login n success =>
    match (s.running n).filter Process.awaitsLogin with
    | none => return s
    | some client => return { s with clients := s.clients.set n (client.endConnect success) }

/-- Any number of clients, and a coordinator which handles their calls, the servers' calls and its checks. -/
def machine (numClusters : Int) : Machine System Event := .ofFun (· = init numClusters) handle

end System

end DistributedSns.Client.Refresh
