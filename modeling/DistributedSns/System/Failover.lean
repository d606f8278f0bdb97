import DistributedSns.Coordinator.Lemmas.Invariant
import DistributedSns.Server.Graph
import DistributedSns.System.Heartbeats

/-!
# Requests to a cluster whose master changes

Account requests are handled and propagated in small steps, between which heartbeats and checks may come. The
calls of one request are nested, so what its handlers have still to do is a stack. The processes have their
addresses as their names.
-/

namespace DistributedSns.System.Failover

open Lib (Machine)
open Coordinator (SNSCoordinator)
open Server
open Server.SNSServer (Method)

/-- What a handler has still to do. -/
inductive Task where
  | call (caller addr : Str) (method : Method) (request : Request)
  | propogate (addr : Str) (method : Method) (request : Request)
  | propogateHelper (addr : Str) (method : Method) (request : Request) (destination : Destination)
  deriving DecidableEq

/-- The process whose handler it is. -/
def Task.process : Task → Str
  | .call caller _ _ _ => caller
  | .propogate addr _ _ => addr
  | .propogateHelper addr _ _ _ => addr

/-- The innermost call is the first of the tasks. -/
structure State where
  cluster : Heartbeats.State
  tasks : List Task

namespace State

def servers (c : State) (addr : Str) : Option SNSServer := c.cluster.network.servers addr

def setServer (c : State) (addr : Str) (s : Option SNSServer) : State :=
  { c with cluster := c.cluster.setServer addr s }

/-- The handler of a request runs up to the call of `propogate`; a fault ends the process. -/
def handle (c : State) (tz : TimeZone) (addr : Str) (method : Method) (request : Request) : State × List Task :=
  match c.servers addr with
  | none => (c, [])
  | some s =>
    match s.handle tz method request with
    | .error _ => (c.setServer addr none, [])
    | .ok (s', _) => (c.setServer addr s', [.propogate addr method request])

/-- What is left to do at the call of `propogate`. -/
def propogations (s : SNSServer) (addr : Str) (method : Method) (request : Request) : List Task :=
  if s.master then
    .propogateHelper addr method request .COUNTERPARTS ::
      if !request.from_server then [.propogateHelper addr method request .OTHER_MASTERS] else []
  else []

/-- The handler goes on, and leaves further tasks. -/
def perform (c : State) (tz : TimeZone) (s : SNSServer) : Task → Except Fault (State × List Task)
  | .call _ addr method request => .ok (c.handle tz addr method request)
  | .propogate addr method request => .ok (c, propogations s addr method request)
  | .propogateHelper addr method request destination => do
    let servers ← serverList c.cluster.network.coordinator s.serverInfo destination
    return (c, servers.map fun s => .call addr (address s) method { request with from_server := true })

end State

inductive Event where
  | heartbeat (e : Heartbeats.Event)
  | accept (addr : Str) (method : Method) (request : Request)
  | run
  deriving DecidableEq

/-- A client's account request to a process, which is handled when the one before has been propagated. -/
structure Accepts (c : State) (addr : Str) (method : Method) (request : Request) : Prop where
  account : method ≠ .ADD_POST
  client : request.from_server = false
  quiet : c.tasks = []
  process : (c.servers addr).isSome = true

instance (c : State) (addr : Str) (method : Method) (request : Request) :
    Decidable (Accepts c addr method request) :=
  decidable_of_iff (method ≠ .ADD_POST ∧ request.from_server = false ∧ c.tasks = [] ∧
      (c.servers addr).isSome = true)
    ⟨fun h => ⟨h.1, h.2.1, h.2.2.1, h.2.2.2⟩, fun h => ⟨h.account, h.client, h.quiet, h.process⟩⟩

def isStart : Heartbeats.Event → Bool
  | .start _ _ _ _ _ => true
  | _ => false

/-- No process starts. A process which has ended leaves its tasks undone. -/
def State.step (tz : TimeZone) (c : State) : Event → Except Fault State
  | .heartbeat e =>
    if isStart e then .error .outOfRange
    else do
      let cluster ← c.cluster.step e
      return { c with cluster }
  | .accept addr method request =>
    if Accepts c addr method request then
      let (c, tasks) := c.handle tz addr method request
      .ok { c with tasks }
    else .error .outOfRange
  | .run =>
    match c.tasks with
    | [] => .error .outOfRange
    | task :: rest =>
      match c.servers task.process with
      | none => .ok { c with tasks := rest }
      | some s => do
        let (c, tasks) ← c.perform tz s task
        return { c with tasks := tasks ++ rest }

/-- All processes belong to the cluster with index `i`, are registered and have the same social graph; nothing
is in flight. -/
structure Start (i : Nat) (g : Graph) (c : State) : Prop where
  inv : Coordinator.Inv c.cluster.network.coordinator
  cluster : ∀ (j : Nat) (k : Int) (z : Coordinator.ZNode), c.cluster.zNode? j k = some z → j = i
  clusterid : ∀ (addr : Str) (s : SNSServer), c.servers addr = some s → s.serverInfo.clusterid = i + 1
  registered : ∀ (addr : Str) (s : SNSServer), c.servers addr = some s → s.serverInfo.registered = true ∧
    address s.serverInfo = addr ∧ ∃ z, c.cluster.zNode? i s.serverInfo.serverid = some z ∧ z.getAddress = addr
  wellFormed : ∀ (addr : Str) (s : SNSServer), c.servers addr = some s → WellFormed s
  graph : ∀ (addr : Str) (s : SNSServer), c.servers addr = some s → s.graph = g
  quiet : ∀ addr, c.cluster.inFlight addr = .nothing
  tasks : c.tasks = []

def machine (tz : TimeZone) (i : Nat) (g : Graph) : Machine State Event :=
  .ofFun (Start i g) (State.step tz)

/-! ## Histories -/

/-- The account request handled for a client in this step, with the status of the reply. -/
def acceptedIn (tz : TimeZone) (c : State) : Event → Option ((Method × Request) × SNSStatus)
  | .accept addr method request =>
    match c.servers addr with
    | some s =>
      match s.handle tz method request with
      | .ok (_, reply) => some ((method, request), reply.status)
      | .error _ => none
    | none => none
  | _ => none

def accepted (tz : TimeZone) (tr : List (State × Event)) : List ((Method × Request) × SNSStatus) :=
  tr.filterMap fun x => acceptedIn tz x.1 x.2

/-- The requests the clients have a reply to: a handler replies when it has propagated. -/
def answered (tz : TimeZone) (tr : List (State × Event)) (c : State) : List ((Method × Request) × SNSStatus) :=
  if c.tasks = [] then accepted tz tr else (accepted tz tr).dropLast

/-- The requests with the reply `SUCCESS`. -/
def succeeded (l : List ((Method × Request) × SNSStatus)) : List (Method × Request) :=
  (l.filter fun x => x.2 = .SUCCESS).map Prod.fst

/-- The graph after these requests. -/
def applied (g : Graph) (l : List (Method × Request)) : Graph := l.foldl (Lib.update write) g

/-- The coordinator counts a server with this address as active. -/
def State.isActive (c : State) (addr : Str) : Bool :=
  c.cluster.network.coordinator.clusters.any fun cluster =>
    cluster.entries.any fun e => e.2.getAddress = addr && e.2.isActive

/-- The process does not miss a client's request by this task: the handler which propagates it is alive, takes
itself for the master, and finds the process among the active servers unless it is its own. -/
def Task.serves (addr : Str) (c : State) : Task → Bool
  | .call caller addr' _ _ => addr' ≠ addr || (c.servers caller).isSome
  | .propogate root _ request => request.from_server || (c.servers root).any (·.master)
  | .propogateHelper root _ request .COUNTERPARTS =>
    request.from_server || (c.servers root).isSome && (addr = root || c.isActive addr)
  | .propogateHelper _ _ _ .OTHER_MASTERS => true

def serves (addr : Str) (c : State) : Event → Bool
  | .run => c.tasks.head?.all fun task => task.serves addr c
  | _ => true

end DistributedSns.System.Failover
