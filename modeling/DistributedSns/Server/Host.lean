import DistributedSns.Server.Startup
import DistributedSns.Server.Streams

/-!
# Servers on one machine

All servers keep their files on the disk of the machine on which they run, each in a folder of its own. A process may
end at any time between two events, and it can be started again. What a handler adds to the files of its server is
written when it returns.
-/

namespace DistributedSns.Server

open Coordinator (ServerInfo)
open FSWrapper (FSLocal)

/-- The ids which the command line gives to a process. -/
structure ServerId where
  clusterid : Int
  serverid : Int
  deriving DecidableEq

namespace Host

structure State where
  filesys : FSLocal := .init TOP_LEVEL_DIR Lib.PathMap.empty
  processes : ServerId → Option Streams.State := fun _ => none

inductive Event where
  /-- a process is started, and there is no other server with which it could synchronize -/
  | start (serverInfo : ServerInfo) (master : Bool)
  | handle (id : ServerId) (e : Streams.Event)
  | stop (id : ServerId)

def ids (serverInfo : ServerInfo) : ServerId := { clusterid := serverInfo.clusterid, serverid := serverInfo.serverid }

/-- `SNSServer::write`. -/
def write (filesys : FSLocal) (file data : Str) : Except Fault FSLocal := do
  let (filesys, _) ← filesys.write file data false false
  return filesys

/-- Handlers which add nothing to a file do not open it. -/
def writeAdded (filesys : FSLocal) (file before after : Str) : Except Fault FSLocal :=
  if after.drop before.length = [] then .ok filesys else write filesys file (after.drop before.length)

def save (filesys : FSLocal) (s s' : SNSServer) : Except Fault FSLocal := do
  let filesys ← writeAdded filesys s'.userinfoPath s.userinfo s'.userinfo
  writeAdded filesys s'.postsPath s.posts s'.posts

/-- No second process is started with the ids of one which runs. -/
def State.step (tz : TimeZone) (h : State) : Event → Except Fault State
  | .start serverInfo master =>
    if (h.processes (ids serverInfo)).isSome then .error .exception
    else do
      let filesys := .init TOP_LEVEL_DIR h.filesys.disk
      let (filesys, r) ← Startup.initializeData tz { serverInfo, master } filesys [] none
      return { filesys, processes := Function.update h.processes (ids serverInfo) (r.map fun server => { server }) }
  | .handle id e =>
    match h.processes id with
    | none => .error .exception
    | some c => do
      let c' ← c.step tz e
      let filesys ← save h.filesys c.server c'.server
      return { filesys, processes := Function.update h.processes id (some c') }
  | .stop id => .ok { h with processes := Function.update h.processes id none }

def machine (tz : TimeZone) : Lib.Machine State Event := .ofFun (· = {}) (State.step tz)

end Host

end DistributedSns.Server
