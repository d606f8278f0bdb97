import DistributedSns.Coordinator.Model

/-!
# Handlers and the check loop, step by step

Handlers of `Heartbeat` run in parallel with each other and with the check loop. One step is one call of
the lock service, one assignment to a field of a `zNode`, or the reads between two of these. Looking the
server up, with the registration check and the entry for a new server, is one step too.
-/

namespace DistributedSns.Coordinator

open Lib FSWrapper SNSCoordinator

/-! ## Handlers -/

/-- The next step of a handler, with the local variables still needed. -/
inductive Pc where
  | lookup
  | assign (field : Nat)
  | testMaster
  | getAddress
  | testLock (address : Str)
  | writeSlave (address : Str)
  | readMaster
  | createMaster (address : Str)
  | readWinner
  | writeMaster (address : Str)
  | findOther
  | setPath (rawPath : Str) (master : Bool) (syncAddress : Str)
  | setMaster (rawPath syncAddress : Str)
  | returned (status : Status) (path : Path)
  deriving DecidableEq

def Pc.done : Pc → Bool
  | .returned _ _ => true
  | _ => false

structure Handler where
  now : Int
  info : ServerInfo
  pc : Pc := .lookup
  deriving DecidableEq

/-- The assignments of `setFromServerInfo` and `updateHeartbeat`, in their order. -/
def assignments (now : Int) (s : ServerInfo) : List (ZNode → ZNode) :=
  [fun z => { z with serverId := s.serverid },
    fun z => { z with clusterId := s.clusterid },
    fun z => { z with hostname := s.hostname },
    fun z => { z with port := s.port },
    fun z => { z with type := s.type },
    fun z => { z with lastHeartbeat := now },
    fun z => { z with missedHeartbeats := 0 }]

theorem foldl_assignments (z : ZNode) (now : Int) (s : ServerInfo) :
    (assignments now s).foldl (fun z f => f z) z = z.setFromServerInfo now s := rfl

namespace Handler

def clusterIdx (h : Handler) : Nat := (h.info.clusterid - 1).toNat

def serverId (h : Handler) : Int := h.info.serverid

def masterFilepath (h : Handler) : Str := getMasterFilepath h.info.clusterid

def slaveFilepath (h : Handler) : Str := getSlaveFilepath h.info.clusterid h.info.serverid

/-- The `zNode` the handler points to once it has looked it up. -/
def server (h : Handler) (c : SNSCoordinator) : ZNode := (c.zNode? h.clusterIdx h.serverId).getD {}

def setServer (h : Handler) (c : SNSCoordinator) (z : ZNode) : SNSCoordinator :=
  c.setZNode h.clusterIdx h.serverId z

def lookup (h : Handler) (c : SNSCoordinator) : Except Fault (SNSCoordinator × Pc) := do
  let clusterIdx ← idToIndex h.info.clusterid
  if clusterIdx < 0 || clusterIdx ≥ c.clusters.length then
    return (c, .returned (invalidClusterId c.clusters.length) {})
  if registrationClash (c.zNode? h.clusterIdx h.serverId) h.info then
    return (c, .returned registrationFailed {})
  return (h.setServer c (h.server c), .assign 0)

def step (h : Handler) (c : SNSCoordinator) : Except Fault (SNSCoordinator × Pc) :=
  match h.pc with
  | .lookup => h.lookup c
  | .assign field =>
    match (assignments h.now h.info)[field]? with
    | some assignment => .ok (h.setServer c (assignment (h.server c)), .assign (field + 1))
    | none => .ok (c, .testMaster)
  | .testMaster =>
    if (h.server c).master then .ok (c, .returned .OK { path := (h.server c).path, master := true })
    else .ok (c, .getAddress)
  | .getAddress => .ok (c, .testLock (h.server c).getAddress)
  | .testLock address => do
    let found ← c.filesys.fileExists h.masterFilepath
    return (c, if found then .writeSlave address else .createMaster address)
  | .writeSlave address => do
    let (filesys, _) ← c.filesys.write h.slaveFilepath address false true
    return (c.withFilesys filesys, .readMaster)
  | .readMaster => do
    let (_, syncAddress) ← c.filesys.read h.masterFilepath [] 0
    return (c, .setPath h.slaveFilepath false syncAddress)
  | .createMaster address => do
    let (filesys, success) ← c.filesys.create h.masterFilepath false true
    return (c.withFilesys filesys, if success < 0 then .readWinner else .writeMaster address)
  | .readWinner => do
    let (_, syncAddress) ← c.filesys.read h.masterFilepath [] 0
    return (c, .setPath [] false syncAddress)
  | .writeMaster address => do
    let (filesys, _) ← c.filesys.write h.masterFilepath address false true
    return (c.withFilesys filesys, .findOther)
  | .findOther =>
    let syncAddress :=
      if !h.info.registered then
        ((c.getFirstAvailableClusterMaster h.clusterIdx).map (·.getAddress)).getD []
      else []
    .ok (c, .setPath h.masterFilepath true syncAddress)
  | .setPath rawPath master syncAddress =>
    .ok (h.setServer c { h.server c with path := rawPath },
      if master then .setMaster rawPath syncAddress
      else .returned .OK { path := rawPath, master := false, syncAddress })
  | .setMaster rawPath syncAddress =>
    .ok (h.setServer c { h.server c with master := true },
      .returned .OK { path := rawPath, master := true, syncAddress })
  | .returned status path => .ok (c, .returned status path)

end Handler

/-! ## The check loop -/

/-- The next step of `checkHeartbeats` for the server it has come to. -/
inductive CheckPc where
  | idle
  | count (clusterIdx : Nat) (serverId : Int)
  | test (clusterIdx : Nat) (serverId : Int)
  | clear (clusterIdx : Nat) (serverId : Int)
  | release (clusterIdx : Nat) (serverId : Int)
  deriving DecidableEq

/-! ## The system -/

structure System where
  coordinator : SNSCoordinator
  handlers : List Handler := []
  check : CheckPc := .idle

/-- A message arrives, a handler takes its next step, the check loop comes to a server or takes its next
step there. -/
inductive Action where
  | arrive (now : Int) (info : ServerInfo)
  | run (handler : Nat)
  | check (now : Int) (clusterIdx : Nat) (serverId : Int)
  | proceed
  deriving DecidableEq

namespace System

def zNode (s : System) (clusterIdx : Nat) (serverId : Int) : ZNode :=
  (s.coordinator.zNode? clusterIdx serverId).getD {}

def withZNode (s : System) (clusterIdx : Nat) (serverId : Int) (z : ZNode) (check : CheckPc) : System :=
  { s with coordinator := s.coordinator.setZNode clusterIdx serverId z, check }

def proceed (s : System) : Except Fault System :=
  match s.check with
  | .idle => .ok s
  | .count i k =>
    let server := s.zNode i k
    .ok (s.withZNode i k { server with missedHeartbeats := server.missedHeartbeats + 1 } (.test i k))
  | .test i k =>
    .ok { s with check := if (s.zNode i k).missedHeartbeats = 2 then .clear i k else .idle }
  | .clear i k => .ok (s.withZNode i k { s.zNode i k with master := false } (.release i k))
  | .release i k => do
    let (filesys, _) ← s.coordinator.filesys.remove (s.zNode i k).path
    return { s with coordinator := s.coordinator.withFilesys filesys, check := .idle }

def step (s : System) : Action → Except Fault System
  | .arrive now info => .ok { s with handlers := s.handlers ++ [{ now, info }] }
  | .run n =>
    match s.handlers[n]? with
    | some h => do
      let (coordinator, pc) ← h.step s.coordinator
      return { s with coordinator, handlers := s.handlers.set n { h with pc } }
    | none => .ok s
  | .check now i k =>
    match s.check, s.coordinator.zNode? i k with
    | .idle, some server =>
      if now - server.lastHeartbeat > maxHeartbeatDelay then .ok { s with check := .count i k } else .ok s
    | _, _ => .ok s
  | .proceed => s.proceed

/-- No handler and no check is in progress. -/
def Quiescent (s : System) : Prop :=
  (∀ h ∈ s.handlers, h.pc.done = true) ∧ s.check = .idle

instance (s : System) : Decidable s.Quiescent :=
  inferInstanceAs (Decidable (_ ∧ _))

end System

end DistributedSns.Coordinator
