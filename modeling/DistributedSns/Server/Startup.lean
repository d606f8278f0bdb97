import DistributedSns.FSWrapper.Local
import DistributedSns.Server.Replay

/-!
# Initialization of a server (`initializeData`)

Here the files are those of the disk. What the server at the sync address answers to `GetLog` is a parameter.
-/

namespace DistributedSns.Server

open FSWrapper (FSLocal)

def TOP_LEVEL_DIR : Str := "sns".toList
def USER_INFO : Str := "userinfo".toList
def POSTS : Str := "posts".toList

namespace SNSServer

/-! ## Paths (`setFilepaths`) -/

def localDir (s : SNSServer) : Str := ['c'] ++ str s.serverInfo.clusterid ++ ['s'] ++ str s.serverInfo.serverid

def localPath (s : SNSServer) : Str := s.localDir ++ ['/']

def userinfoPath (s : SNSServer) : Str := s.localPath ++ USER_INFO

def postsPath (s : SNSServer) : Str := s.localPath ++ POSTS

end SNSServer

/-! ## Initialization -/

namespace Startup

open SNSServer

/-- The file system and the server after `initializeData(syncAddress)`. There is no server if the process exits, as it
does when `GetLog` fails. -/
def initializeData (tz : TimeZone) (s : SNSServer) (filesys : FSLocal) (syncAddress : Str)
    (logReply : Option (Str × Str)) : Except Fault (FSLocal × Option SNSServer) := do
  let (filesys, _) ← filesys.create s.localPath true true
  if syncAddress = [] then
    let s := { s with userinfo := filesys.content s.userinfoPath, posts := filesys.content s.postsPath }
    let (_, userinfo) := filesys.read s.userinfoPath [] 0
    let (_, posts) := filesys.read s.postsPath [] 0
    let s ← s.processUserInfoFromFile tz userinfo false
    let s ← s.updatePostsFromFile tz posts false
    return (filesys, some s)
  else
    let (filesys, _) ← filesys.write s.userinfoPath [] true true
    let (filesys, _) ← filesys.write s.postsPath [] true true
    match logReply with
    | none => return (filesys, none)
    | some (userinfo, posts) =>
      let s ← s.initializeData tz userinfo posts
      -- the lines and the posts have been appended one after the other
      let (filesys, _) ← filesys.write s.userinfoPath s.userinfo false false
      let (filesys, _) ← filesys.write s.postsPath s.posts false false
      return (filesys, some s)

end Startup

end DistributedSns.Server
