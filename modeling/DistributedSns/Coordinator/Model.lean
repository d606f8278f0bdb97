import DistributedSns.FSWrapper.Memory
import DistributedSns.Lib.Machine

/-!
# The coordinator (`SNSCoordinator`)

Every RPC handler and every check of one server is one step here. A `zNode` is never taken out of its
cluster, so a shared pointer to it is the index of the cluster and the key of the server. Logging is left
out.
-/

namespace DistributedSns.Coordinator

open Lib FSWrapper

/-! ## Messages (`coordinator.proto`) -/

structure ServerInfo where
  serverid : Int := 0
  clusterid : Int := 0
  hostname : Str := []
  port : Str := []
  type : Str := []
  registered : Bool := false
  changed : Bool := false
  deriving DecidableEq

structure Path where
  path : Str := []
  master : Bool := false
  syncAddress : Str := []
  deriving DecidableEq

inductive StatusCode where
  | ok
  | invalidArgument
  | alreadyExists
  | unavailable
  deriving DecidableEq

structure Status where
  code : StatusCode
  message : Str := []
  deriving DecidableEq

def Status.OK : Status := { code := .ok }

/-! ## `zNode` -/

/-- The counter of missed heartbeats is unbounded: the source's `int` would need 2³¹ checks in a row without
a heartbeat to overflow. -/
structure ZNode where
  serverId : Int := -1
  clusterId : Int := -1
  hostname : Str := []
  port : Str := []
  type : Str := []
  path : Str := []
  master : Bool := false
  lastHeartbeat : Int := 0
  missedHeartbeats : Nat := 0
  deriving DecidableEq

namespace ZNode

/-- Leeway of 2 missed heartbeats. -/
def isActive (z : ZNode) : Bool := z.missedHeartbeats ≤ 2

def updateHeartbeat (z : ZNode) (now : Int) : ZNode :=
  { z with lastHeartbeat := now, missedHeartbeats := 0 }

/-- Does not set path and master. -/
def setFromServerInfo (z : ZNode) (now : Int) (s : ServerInfo) : ZNode :=
  { z with
    serverId := s.serverid
    clusterId := s.clusterid
    hostname := s.hostname
    port := s.port
    type := s.type }.updateHeartbeat now

def setServerInfo (z : ZNode) (s : ServerInfo) : ServerInfo :=
  { s with
    serverid := z.serverId
    clusterid := z.clusterId
    hostname := z.hostname
    port := z.port
    type := z.type }

def getAddress (z : ZNode) : Str := z.hostname ++ ":".toList ++ z.port

end ZNode

/-! ## State -/

/-- A shared pointer to a `zNode`. -/
structure ZRef where
  clusterIdx : Nat
  serverId : Int
  deriving DecidableEq

structure SNSCoordinator where
  filesys : FSMemory
  clusters : List (OrdMap Int ZNode)
  clientAssignments : OrdMap Int (Option ZRef)

def maxHeartbeatDelay : Int := 10

def CLUSTER : Str := "/cluster".toList
def MASTER : Str := "/master".toList
def SLAVE : Str := "/slave".toList

def getMasterFilepath (clusterId : Int) : Str := CLUSTER ++ str clusterId ++ MASTER

def getSlaveFilepath (clusterId serverId : Int) : Str :=
  CLUSTER ++ str clusterId ++ SLAVE ++ str serverId

/-- IDs are 1-based, indices are 0-based. The ids are `int32`, whose least value has no predecessor. -/
def idToIndex (id : Int) : Except Fault Int :=
  if id ≤ -2 ^ 31 then .error .overflow else .ok (id - 1)

namespace SNSCoordinator

/-- The constructor; `numClusters` comes from the command line. -/
def init (numClusters : Int) : SNSCoordinator where
  filesys := .init true
  clusters := List.replicate numClusters.toNat .empty
  clientAssignments := .empty

/-- `clusters[clusterIdx]`. -/
def clusterAt (c : SNSCoordinator) (clusterIdx : Int) : Except Fault (OrdMap Int ZNode) :=
  if clusterIdx < 0 then .error .outOfRange
  else
    match c.clusters[clusterIdx.toNat]? with
    | some cluster => .ok cluster
    | none => .error .outOfRange

def zNode? (c : SNSCoordinator) (clusterIdx : Nat) (serverId : Int) : Option ZNode :=
  c.clusters[clusterIdx]?.bind (·.find? serverId)

/-- The coordinator after a change of one `zNode`, or with a new one. -/
def setZNode (c : SNSCoordinator) (clusterIdx : Nat) (serverId : Int) (z : ZNode) : SNSCoordinator :=
  { c with clusters := c.clusters.modify clusterIdx (·.insert serverId z) }

def withFilesys (c : SNSCoordinator) (filesys : FSMemory) : SNSCoordinator :=
  { c with filesys := filesys }

/-! ## Heartbeats -/

/-- The first entry of a cluster whose server is master. -/
def masterOf (cluster : OrdMap Int ZNode) : Option (Int × ZNode) :=
  cluster.entries.find? (·.2.master)

/-- The first available master of another cluster than the given one. -/
def getFirstAvailableClusterMaster (c : SNSCoordinator) (clusterIdx : Nat) : Option ZNode :=
  c.clusters.zipIdx.findSome? fun (cluster, i) =>
    if i ≠ clusterIdx then (masterOf cluster).map (·.2) else none

/-- The end of a leader election: the server's path and flag, and the reply. -/
def conclude (c : SNSCoordinator) (clusterIdx : Nat) (serverId : Int) (server : ZNode) (rawPath : Str)
    (master : Bool) (syncAddress : Str) : SNSCoordinator × Status × Path :=
  let server := { server with path := rawPath, master := if master then true else server.master }
  (c.setZNode clusterIdx serverId server, .OK, { path := rawPath, master, syncAddress })

/-- The leader election of `Heartbeat`. -/
def elect (c : SNSCoordinator) (clusterIdx : Nat) (server : ZNode) (serverInfo : ServerInfo) :
    Except Fault (SNSCoordinator × Status × Path) := do
  let clusterId := serverInfo.clusterid
  let serverId := serverInfo.serverid
  let address := server.getAddress
  let masterFilepath := getMasterFilepath clusterId
  if ← c.filesys.fileExists masterFilepath then
    let rawPath := getSlaveFilepath clusterId serverId
    let (filesys, _) ← c.filesys.write rawPath address false true
    let (_, syncAddress) ← filesys.read masterFilepath [] 0
    return conclude (c.withFilesys filesys) clusterIdx serverId server rawPath false syncAddress
  else
    let (filesys, success) ← c.filesys.create masterFilepath false true
    if success < 0 then
      -- someone else became the leader in the meantime
      let (_, syncAddress) ← filesys.read masterFilepath [] 0
      return conclude (c.withFilesys filesys) clusterIdx serverId server [] false syncAddress
    else
      let (filesys, _) ← filesys.write masterFilepath address false true
      let syncAddress :=
        if !serverInfo.registered then
          ((c.getFirstAvailableClusterMaster clusterIdx).map (·.getAddress)).getD []
        else []
      return conclude (c.withFilesys filesys) clusterIdx serverId server masterFilepath true syncAddress

def invalidClusterId (size : Nat) : Status where
  code := .invalidArgument
  message := "Invalid cluster ID specificied. Specify an ID between 1 and ".toList ++ str size

def registrationFailed : Status where
  code := .alreadyExists
  message := ("Server registration failed. There is already" ++
    "an active server with the specified cluster and server id.").toList

/-- Is there an active server with the ids of a server which is not registered yet? -/
def registrationClash (found : Option ZNode) (serverInfo : ServerInfo) : Bool :=
  match found with
  | some server => !serverInfo.registered && server.isActive
  | none => false

def heartbeat (c : SNSCoordinator) (now : Int) (serverInfo : ServerInfo) :
    Except Fault (SNSCoordinator × Status × Path) := do
  let clusterIdx ← idToIndex serverInfo.clusterid
  let serverId := serverInfo.serverid
  if clusterIdx < 0 || clusterIdx ≥ c.clusters.length then
    return (c, invalidClusterId c.clusters.length, {})
  let found := c.zNode? clusterIdx.toNat serverId
  if registrationClash found serverInfo then
    return (c, registrationFailed, {})
  let server := (found.getD {}).setFromServerInfo now serverInfo
  let c := c.setZNode clusterIdx.toNat serverId server
  if server.master then
    return (c, .OK, { path := server.path, master := true })
  c.elect clusterIdx.toNat server serverInfo

/-- One server's turn in the loop of `checkHeartbeats`. -/
def checkServer (c : SNSCoordinator) (now : Int) (clusterIdx : Nat) (serverId : Int) :
    Except Fault SNSCoordinator :=
  match c.zNode? clusterIdx serverId with
  | none => .ok c
  | some server =>
    if now - server.lastHeartbeat > maxHeartbeatDelay then do
      let server := { server with missedHeartbeats := server.missedHeartbeats + 1 }
      if server.missedHeartbeats = 2 then
        let server := { server with master := false }
        let (filesys, _) ← c.filesys.remove server.path
        return (c.withFilesys filesys).setZNode clusterIdx serverId server
      else return c.setZNode clusterIdx serverId server
    else .ok c

/-- One pass of the loop of `checkHeartbeats` over all servers. The clock goes on during a pass: `time` says when the turn
of a server comes. -/
def checkHeartbeats (c : SNSCoordinator) (time : Nat → Int → Int) : Except Fault SNSCoordinator :=
  c.clusters.zipIdx.foldlM (fun c (cluster, i) =>
    cluster.entries.foldlM (fun c entry => c.checkServer (time i entry.1) i entry.1) c) c

/-! ## Queries of the servers -/

def getCounterparts (c : SNSCoordinator) (masterInfo : ServerInfo) : Except Fault (List ServerInfo) := do
  let cluster ← c.clusterAt (← idToIndex masterInfo.clusterid)
  -- Don't include self or inactive servers
  return cluster.entries.filterMap fun (key, server) =>
    if masterInfo.serverid ≠ key ∧ server.isActive then some (server.setServerInfo {}) else none

def getOtherClusterMasters (c : SNSCoordinator) (masterInfo : ServerInfo) :
    Except Fault (List ServerInfo) := do
  let clusterIdx ← idToIndex masterInfo.clusterid
  return c.clusters.zipIdx.filterMap fun (cluster, i) =>
    if (i : Int) ≠ clusterIdx then (masterOf cluster).map (·.2.setServerInfo {}) else none

/-! ## Client API -/

/-- `int rawId = clientAssignments.size()`, which is taken modulo 2³². -/
def rawId (c : SNSCoordinator) : Int := (c.clientAssignments.size + 2147483648) % 4294967296 - 2147483648

def getUniqueClientID (c : SNSCoordinator) : SNSCoordinator × Int :=
  let rawId := c.rawId
  ({ c with clientAssignments := c.clientAssignments.insert rawId none }, rawId)

/-- The loop of `getActiveMaster` over the remaining clusters. -/
def searchMaster (c : SNSCoordinator) : (remainingClusters : Nat) → (clusterIdx : Nat) → Option ZRef
  | 0, _ => none
  | remainingClusters + 1, clusterIdx =>
    match c.clusters[clusterIdx]?.bind masterOf with
    | some (serverId, _) => some { clusterIdx, serverId }
    | none => c.searchMaster remainingClusters ((clusterIdx + 1) % c.clusters.length)

def getActiveMaster (c : SNSCoordinator) (clientId : Int) : Except Fault (Option ZRef) :=
  let numClusters := c.clusters.length
  if numClusters = 0 then .error .divisionByZero
  else
    -- the remainder has the sign of the id
    let clusterIdx := clientId.tmod numClusters
    if clusterIdx < 0 then .error .outOfRange
    else .ok (c.searchMaster numClusters clusterIdx.toNat)

def deref (c : SNSCoordinator) (ref : ZRef) : Option ZNode := c.zNode? ref.clusterIdx ref.serverId

def noServersAvailable : Status where
  code := .unavailable
  message := "No servers available to serve the request.".toList

/-- The reply to a client whose server is `server`. -/
def serverReply (c : SNSCoordinator) (server : ZRef) (changed : Bool) : ServerInfo :=
  { ((c.deref server).getD {}).setServerInfo {} with changed }

def getServer (c : SNSCoordinator) (rawId : Int) : Except Fault (SNSCoordinator × Status × ServerInfo) := do
  -- `clientAssignments[rawId]` makes the entry if there is none
  let assigned := (c.clientAssignments.find? rawId).join
  let c := { c with clientAssignments := c.clientAssignments.insert rawId assigned }
  match assigned.filter (fun ref => ((c.deref ref).map (·.master)).getD false) with
  | some server => return (c, .OK, c.serverReply server false)
  | none =>
    match ← c.getActiveMaster rawId with
    | none => return (c, noServersAvailable, {})
    | some server =>
      let c := { c with clientAssignments := c.clientAssignments.insert rawId (some server) }
      return (c, .OK, c.serverReply server true)

/-! ## Runs -/

/-- The RPCs and the checks, with the time at which they are handled. -/
inductive Event where
  | heartbeat (now : Int) (serverInfo : ServerInfo)
  | check (now : Int) (clusterIdx : Nat) (serverId : Int)
  | getCounterparts (masterInfo : ServerInfo)
  | getOtherClusterMasters (masterInfo : ServerInfo)
  | getUniqueClientID
  | getServer (id : Int)

def handle (c : SNSCoordinator) : Event → Except Fault SNSCoordinator
  | .heartbeat now serverInfo => return (← c.heartbeat now serverInfo).1
  | .check now clusterIdx serverId => c.checkServer now clusterIdx serverId
  | .getCounterparts masterInfo => do
    let _ ← c.getCounterparts masterInfo
    return c
  | .getOtherClusterMasters masterInfo => do
    let _ ← c.getOtherClusterMasters masterInfo
    return c
  | .getUniqueClientID => .ok c.getUniqueClientID.1
  | .getServer id => return (← c.getServer id).1

/-- The coordinator with handlers and checks as atomic steps. -/
def machine (numClusters : Int) : Machine SNSCoordinator Event :=
  .ofFun (· = init numClusters) handle

end SNSCoordinator

end DistributedSns.Coordinator
