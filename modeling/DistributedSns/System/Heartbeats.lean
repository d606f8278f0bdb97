import DistributedSns.System.Network

/-!
# Heartbeats as messages

A process learns its role from the replies to its heartbeats only. It waits for a reply before it sends the
next heartbeat, so at most one message is in flight between a process and the coordinator. The coordinator
handles the messages and makes its checks in any order, and a reply is received at any later time.
-/

namespace DistributedSns.System.Heartbeats

open Lib (Machine)
open Coordinator (SNSCoordinator ServerInfo Status Path)
open Server (SNSServer)

/-- What is in flight between a process and the coordinator. -/
inductive InFlight where
  | nothing
  | request (serverInfo : ServerInfo)
  | reply (status : Status) (path : Path)
  deriving DecidableEq

/-- The processes have names. Where they call each other a process has its address as its name. -/
structure State where
  network : Network
  inFlight : Str → InFlight

namespace State

def zNode? (c : State) (i : Nat) (k : Int) : Option Coordinator.ZNode := c.network.coordinator.zNode? i k

def setServer (c : State) (p : Str) (s : Option SNSServer) : State :=
  { c with network := c.network.setServer p s }

def setInFlight (c : State) (p : Str) (m : InFlight) : State :=
  { c with inFlight := Function.update c.inFlight p m }

def setCoordinator (c : State) (coordinator : SNSCoordinator) : State :=
  { c with network := { c.network with coordinator } }

end State

def SERVER : Str := "SERVER".toList

/-- `serverInfo` when `connectToCoordinator` sends the first heartbeat. -/
def unregistered (hostname port : Str) (clusterId serverId : Int) : ServerInfo :=
  { clusterid := clusterId, serverid := serverId, hostname, port, type := SERVER, registered := false }

/-- A process with the reply to a heartbeat; an error ends it. -/
def received (s : SNSServer) (status : Status) (path : Path) : Option SNSServer :=
  if status.code = .ok then
    some { s with serverInfo := { s.serverInfo with registered := true }, master := path.master }
  else none

inductive Event where
  | start (p hostname port : Str) (clusterId serverId : Int)
  | sendHeartbeat (p : Str)
  | handle (now : Int) (p : Str)
  | receive (p : Str)
  | check (now : Int) (clusterIdx : Nat) (serverId : Int)
  | exit (p : Str)
  deriving DecidableEq

/-- An event which is not possible in a state has no successor. -/
def State.step (c : State) : Event → Except Fault State
  | .start p hostname port clusterId serverId =>
    match c.network.servers p, c.inFlight p with
    | none, .nothing =>
      let serverInfo := unregistered hostname port clusterId serverId
      .ok ((c.setServer p (some { serverInfo })).setInFlight p (.request serverInfo))
    | _, _ => .error .outOfRange
  | .sendHeartbeat p =>
    match c.network.servers p, c.inFlight p with
    | some s, .nothing => .ok (c.setInFlight p (.request s.serverInfo))
    | _, _ => .error .outOfRange
  | .handle now p =>
    match c.inFlight p with
    | .request serverInfo => do
      let (coordinator, status, path) ← c.network.coordinator.heartbeat now serverInfo
      return (c.setCoordinator coordinator).setInFlight p (.reply status path)
    | _ => .error .outOfRange
  | .receive p =>
    match c.inFlight p with
    | .reply status path =>
      let s := (c.network.servers p).bind fun s => received s status path
      .ok ((c.setServer p s).setInFlight p .nothing)
    | _ => .error .outOfRange
  | .check now clusterIdx serverId => do
    let coordinator ← c.network.coordinator.checkServer now clusterIdx serverId
    return c.setCoordinator coordinator
  | .exit p => .ok (c.setServer p none)

/-- Before any process has started. -/
def State.init (numClusters : Int) : State where
  network := { coordinator := .init numClusters, servers := fun _ => none }
  inFlight _ := .nothing

def machine (numClusters : Int) : Machine State Event :=
  .ofFun (· = .init numClusters) State.step

/-! ## Histories -/

def State.IsMaster (c : State) (i : Nat) (k : Int) : Prop := ∃ z, c.zNode? i k = some z ∧ z.master = true

/-- The check counts the second missed heartbeat of a master. -/
def Expires (c : State) (e : Event) (i : Nat) (k : Int) : Prop :=
  ∃ now z, e = .check now i k ∧ c.zNode? i k = some z ∧ z.master = true ∧
    now - z.lastHeartbeat > Coordinator.maxHeartbeatDelay ∧ z.missedHeartbeats = 1

/-- A server was master and has expired, and `Q` holds of what has happened since. -/
def ExpiredSince (tr : List (State × Event)) (i : Nat) (k : Int) (Q : List Event → Prop) : Prop :=
  ∃ tr₁ c e tr₂, tr = tr₁ ++ (c, e) :: tr₂ ∧ Expires c e i k ∧ Q (tr₂.map Prod.snd)

/-- The process has received the reply to a heartbeat which was handled among these events. -/
def Heard (p : Str) (l : List Event) : Prop :=
  ∃ now l₁ l₂ l₃, l = l₁ ++ .handle now p :: l₂ ++ .receive p :: l₃

/-- The server has lost the lock, and the process has not heard from the coordinator since. -/
def Superseded (tr : List (State × Event)) (p : Str) (i : Nat) (k : Int) : Prop :=
  ExpiredSince tr i k fun l => ¬ Heard p l

/-- The first heartbeat of a process is handled when the server with its ids is inactive. -/
def Replaces (c : State) (e : Event) (p : Str) (i : Nat) (k : Int) : Prop :=
  ∃ now serverInfo z, e = .handle now p ∧ c.inFlight p = .request serverInfo ∧
    serverInfo.registered = false ∧ c.zNode? i k = some z ∧ z.isActive = false

/-- One of two processes was registered when the server with its ids was inactive. -/
def Replaced (tr : List (State × Event)) (p q : Str) (info : ServerInfo) : Prop :=
  ∃ i : Nat, info.clusterid = i + 1 ∧
    ∃ x ∈ tr, Replaces x.1 x.2 p i info.serverid ∨ Replaces x.1 x.2 q i info.serverid

end DistributedSns.System.Heartbeats
