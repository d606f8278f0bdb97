import DistributedSns.Server.Lemmas.Initialize
import DistributedSns.System.Delivery
import DistributedSns.System.Heartbeats

/-!
# A slave joins its cluster

The main thread of the joining process registers at the coordinator, copies the files of the master, replays them and
only then begins to listen. Meanwhile the master handles requests. A handler takes two steps: it changes the master,
and later it propagates the request, also to the joining process once it is registered. Of the other servers nothing is
kept.
-/

namespace DistributedSns.System.Join

open Lib (Machine update)
open Coordinator (SNSCoordinator)
open Server
open Server.SNSServer (Method)

/-! ## State -/

/-- How far the joining process has come. It has exited if the join fails, and crashed if a fault ends it later. -/
inductive Phase where
  | starting
  | registered
  | synchronized (userinfo posts : Str)
  | initialized
  | listening
  | exited
  | crashed
  deriving DecidableEq

/-- `serverAddress` is where the process will listen. `pending` are the requests which the master has applied and not
propagated yet. -/
structure State where
  coordinator : SNSCoordinator
  master : SNSServer
  slave : SNSServer
  serverAddress : Str
  phase : Phase := .starting
  pending : List (Method × Request) := []

inductive Event where
  | heartbeat (now : Int)
  | getLog
  | initializeData
  | listen
  /-- `Login`, `Follow` or `UnFollow` at the master -/
  | accept (method : Method) (request : Request)
  /-- one round of `Timeline` at the master -/
  | message (stream : StreamId) (message : Message)
  | propogate (i : Nat)

namespace State

/-- One RPC of `propogateHelper`. It fails unless a process listens at the address; the failure is ignored. -/
def rpc (c : State) (tz : TimeZone) (method : Method) (request : Request) (addr : Str) : State :=
  if addr = c.serverAddress ∧ c.phase = .listening then
    -- a slave does not propagate
    match c.slave.handle tz method (forwarded request) with
    | .ok (slave, _) => { c with slave }
    | .error _ => { c with phase := .crashed }
  else c

/-- The slave's join has no successor where the coordinator makes it master or sends it to another server, and the
master's handlers have none where they fault. -/
def step (tz : TimeZone) (c : State) : Event → Except Fault State
  | .heartbeat now =>
    match c.phase with
    | .starting => do
      let (coordinator, status, path) ← c.coordinator.heartbeat now c.slave.serverInfo
      match Heartbeats.received c.slave status path with
      | some slave =>
        if path.master = false ∧ path.syncAddress = address c.master.serverInfo then
          return { c with coordinator, slave, phase := .registered }
        else .error .outOfRange
      | none => return { c with coordinator, phase := .exited }
    | _ => .error .outOfRange
  | .getLog =>
    match c.phase with
    | .registered => .ok { c with phase := .synchronized c.master.getLog.1 c.master.getLog.2 }
    | _ => .error .outOfRange
  | .initializeData =>
    match c.phase with
    | .synchronized userinfo posts =>
      match c.slave.initializeData tz userinfo posts with
      | .ok slave => .ok { c with slave, phase := .initialized }
      | .error _ => .ok { c with phase := .exited }
    | _ => .error .outOfRange
  | .listen =>
    match c.phase with
    | .initialized => .ok { c with phase := .listening }
    | _ => .error .outOfRange
  | .accept method request => do
    if method = .ADD_POST then .error .outOfRange
    else
      let (master, _) ← c.master.handle tz method request
      return { c with master, pending := c.pending ++ [(method, request)] }
  | .message stream message => do
    let (master, post) ← c.master.timeline tz stream message
    let request := post.map fun message => (Method.ADD_POST, ({ message } : Request))
    return { c with master, pending := c.pending ++ request.toList }
  | .propogate i =>
    match c.pending[i]? with
    | some (method, request) => do
      let addrs ← recipients c.coordinator c.master request
      return addrs.foldl (fun c addr => c.rpc tz method request addr) { c with pending := c.pending.eraseIdx i }
    | none => .error .outOfRange

/-- A running master, and a process of the same cluster which has not registered yet. No other server has its
address. -/
structure Start (tz : TimeZone) (c : State) : Prop where
  inv : Coordinator.Inv c.coordinator
  stored : Stored tz c.master
  master : c.master.master = true
  cluster : ∃ i : Nat, c.master.serverInfo.clusterid = i + 1 ∧ i < c.coordinator.clusters.length
  clusterid : c.slave.serverInfo.clusterid = c.master.serverInfo.clusterid
  serverid : c.slave.serverInfo.serverid ≠ c.master.serverInfo.serverid
  serverAddress : c.serverAddress = address c.slave.serverInfo
  unused : ∀ (j : Nat) (k : Int) (z : Coordinator.ZNode), c.coordinator.zNode? j k = some z →
    z.getAddress = c.serverAddress → c.slave.serverInfo.clusterid = j + 1 ∧ c.slave.serverInfo.serverid = k
  fresh : Fresh c.slave
  posts : c.slave.all_posts = []
  phase : c.phase = .starting
  pending : c.pending = []

end State

def machine (tz : TimeZone) : Machine State Event := .ofFun (State.Start tz) (State.step tz)

/-! ## Histories -/

/-- Has `GetLog` returned? -/
def Phase.copied : Phase → Bool
  | .starting | .registered => false
  | _ => true

/-- Is the join complete? -/
def Phase.joined : Phase → Bool
  | .listening | .crashed => true
  | _ => false

/-- The request the master applies in this step. -/
def appliedIn (tz : TimeZone) (c : State) : Event → Option (Method × Request)
  | .accept method request => some (method, request)
  | .message stream message =>
    match c.master.timeline tz stream message with
    | .ok (_, some message) => some (.ADD_POST, { message })
    | _ => none
  | _ => none

def appliedBefore (tz : TimeZone) (tr : List (State × Event)) : List (Method × Request) :=
  tr.filterMap fun x => if x.1.phase.copied then none else appliedIn tz x.1 x.2

def appliedAfter (tz : TimeZone) (tr : List (State × Event)) : List (Method × Request) :=
  tr.filterMap fun x => if x.1.phase.copied then appliedIn tz x.1 x.2 else none

/-- The request the master propagates in this step. -/
def propogatedIn (c : State) : Event → Option (Method × Request)
  | .propogate i => c.pending[i]?
  | _ => none

/-- What has been propagated while the process listens. -/
def received (tr : List (State × Event)) : List (Method × Request) :=
  tr.filterMap fun x => if x.1.phase = .listening then propogatedIn x.1 x.2 else none

/-- What has been propagated while the process does not listen. -/
def missed (tr : List (State × Event)) : List (Method × Request) :=
  tr.filterMap fun x => if x.1.phase = .listening then none else propogatedIn x.1 x.2

/-- What the formats of the files presuppose of a step at the master. -/
def Clean (tz : TimeZone) (c : State) (e : Event) : Prop :=
  ∀ x ∈ appliedIn tz c e, Storable tz x.1 x.2

/-! ## Agreement -/

/-- A post without its time, which the snapshot has in seconds only. -/
def content (post : Post) : Str × Str := (post.username, post.data)

/-- The joined slave has what the master has. -/
structure Agrees (c : State) : Prop where
  listening : c.phase = .listening
  users : ∀ u, c.slave.hasUser u = c.master.hasUser u
  edges : ∀ a b, c.slave.follows a b = c.master.follows a b
  posts : (c.slave.all_posts.map content).Perm (c.master.all_posts.map content)

/-- The posts which are made by requests. -/
def postsOf (l : List (Method × Request)) : List Post :=
  l.filterMap fun e => if e.1 = .ADD_POST then some (.ofMessage e.2.message) else none

/-- What was received makes up for what was applied after the snapshot. The graph is that before all these requests. -/
structure Covers (g : Graph) (before after received : List (Method × Request)) : Prop where
  /-- whoever is named in a request is in the snapshot or has been received before it -/
  known : findUsers (before.foldl (update write) g) received = true
  /-- a user who has logged in after the snapshot is in the snapshot or is received -/
  users : ∀ request, (Method.LOGIN, request) ∈ after →
    (before ++ received).foldl (update write) g (.user request.username) = true
  /-- the last requests about an edge ask for the same -/
  edges : ∀ a b, (before ++ received).foldl (update write) g (.follows a b) =
    (before ++ after).foldl (update write) g (.follows a b)
  /-- as many posts of each content -/
  posts : ((postsOf received).map content).Perm ((postsOf after).map content)

end DistributedSns.System.Join
