import DistributedSns.Coordinator.Model
import DistributedSns.Server.Time

/-!
# A server (`SNSServer`)

A shared pointer to a `Client` is the index of the object in `heap`. The handlers here end where the source
calls `propogate`; what is sent to other servers then is the subject of `System`. Of the log only the
pointers it dereferences are kept.
-/

namespace DistributedSns.Server

open Coordinator (ServerInfo)

/-! ## Messages (`sns.proto`) -/

inductive SNSStatus where
  | SUCCESS
  | FAILURE_ALREADY_EXISTS
  | FAILURE_NOT_EXISTS
  | FAILURE_INVALID_USERNAME
  | FAILURE_NOT_A_FOLLOWER
  | FAILURE_INVALID
  | FAILURE_UNKNOWN
  deriving DecidableEq

structure Message where
  username : Str := []
  msg : Str := []
  timestamp : Timestamp := {}
  deriving DecidableEq

structure Request where
  username : Str := []
  arguments : List Str := []
  timestamp : Timestamp := {}
  message : Message := {}
  from_server : Bool := false
  deriving DecidableEq

structure Reply where
  msg : Str := []
  status : SNSStatus := .SUCCESS
  deriving DecidableEq

structure ListReply where
  all_users : List Str := []
  followers : List Str := []
  following : List Str := []
  deriving DecidableEq

/-! ## State -/

/-- An open stream of a `Timeline` call. -/
abbrev StreamId := Nat

structure Client where
  username : Str
  connected : Bool := false
  client_followers : List Nat := []
  client_following : List Nat := []
  follow_time : List Timestamp := []
  stream : Option StreamId := none
  deriving DecidableEq

structure Post where
  username : Str
  data : Str
  timestamp : Timestamp
  deriving DecidableEq

def Post.ofMessage (m : Message) : Post where
  username := m.username
  data := m.msg
  timestamp := m.timestamp

/-- The files are those at `userinfoPath` and `postsPath`; `written` lists the writes to streams. -/
structure SNSServer where
  serverInfo : ServerInfo := {}
  master : Bool := false
  heap : List Client := []
  client_db : List Nat := []
  all_posts : List Post := []
  userinfo : Str := []
  posts : Str := []
  written : List (StreamId × Message) := []
  deriving DecidableEq

def USER : Str := "user".toList
def FOLLOW : Str := "follow".toList
def UNFOLLOW : Str := "unfollow".toList

/-- Following a pointer which may be `NULL`. -/
def deref {α : Type} : Option α → Except Fault α
  | some a => .ok a
  | none => .error .nullDereference

/-- `request->arguments()[i]`. -/
def Request.argument (request : Request) (i : Nat) : Except Fault Str :=
  match request.arguments[i]? with
  | some argument => .ok argument
  | none => .error .outOfRange

namespace SNSServer

def client (s : SNSServer) (ref : Nat) : Except Fault Client := deref s.heap[ref]?

def setClient (s : SNSServer) (ref : Nat) (c : Client) : SNSServer := { s with heap := s.heap.set ref c }

def username? (s : SNSServer) (ref : Nat) : Option Str := (s.heap[ref]?).map (·.username)

/-! ## Helpers -/

/-- `getClient(username)`, which makes no new client. -/
def getClient (s : SNSServer) (username : Str) : Option Nat :=
  s.client_db.find? fun ref => s.username? ref = some username

/-- `getClient(username, true)`. -/
def getClientOrNew (s : SNSServer) (username : Str) : SNSServer × Nat :=
  match s.getClient username with
  | some ref => (s, ref)
  | none => ({ s with heap := s.heap ++ [{ username }] }, s.heap.length)

/-- The first index at which a list of clients holds one with the name of the given client. -/
def indexOf (s : SNSServer) (clients : List Nat) (ref : Nat) : Option Nat :=
  clients.findIdx? fun ref' => s.username? ref' = s.username? ref

def indexOfFollowing (s : SNSServer) (client1 : Client) (client2 : Nat) : Option Nat :=
  s.indexOf client1.client_following client2

def indexOfFollower (s : SNSServer) (client1 : Client) (client2 : Nat) : Option Nat :=
  s.indexOf client1.client_followers client2

def writeUserinfo (s : SNSServer) (data : Str) : SNSServer := { s with userinfo := s.userinfo ++ data }

def writePosts (s : SNSServer) (data : Str) : SNSServer := { s with posts := s.posts ++ data }

def writeStream (s : SNSServer) (stream : StreamId) (message : Message) : SNSServer :=
  { s with written := s.written ++ [(stream, message)] }

/-! ## Follow lists -/

/-- The three `push_back`s of a follow. -/
def pushFollow (s : SNSServer) (client toFollow : Nat) (t : Timestamp) : Except Fault SNSServer := do
  let c ← s.client client
  let s := s.setClient client
    { c with client_following := c.client_following ++ [toFollow], follow_time := c.follow_time ++ [t] }
  let c ← s.client toFollow
  return s.setClient toFollow { c with client_followers := c.client_followers ++ [client] }

/-- `v.erase(v.begin() + index)`, which is undefined for an index which is not in the vector. -/
def erase {α : Type} (v : List α) (index : Option Nat) : Except Fault (List α) :=
  match index with
  | some i => if i < v.length then .ok (v.eraseIdx i) else .error .outOfRange
  | none => .error .outOfRange

/-- The three `erase`s of an unfollow. -/
def eraseFollow (s : SNSServer) (client toUnFollow : Nat) (index index2 : Option Nat) :
    Except Fault SNSServer := do
  let c ← s.client client
  let following ← erase c.client_following index
  let followTimes ← erase c.follow_time index
  let s := s.setClient client { c with client_following := following, follow_time := followTimes }
  let c ← s.client toUnFollow
  let followers ← erase c.client_followers index2
  return s.setClient toUnFollow { c with client_followers := followers }

/-! ## Log lines -/

def userLine (username : Str) : Str := USER ++ [' '] ++ username ++ ['\n']

def followLine (user1 user2 timeStr : Str) : Str :=
  FOLLOW ++ [' '] ++ user1 ++ [' '] ++ user2 ++ [' '] ++ timeStr ++ ['\n']

def unfollowLine (user1 user2 : Str) : Str := UNFOLLOW ++ [' '] ++ user1 ++ [' '] ++ user2 ++ ['\n']

/-! ## Client API -/

def WELCOME_BACK : Str := "Welcome back, ".toList
def LOGGED_IN : Str := " successfully logged in!".toList
def USER_PREFIX : Str := "User ".toList
def NOT_EXISTS : Str := "The specified user does not exist.".toList
def FOLLOW_YOURSELF : Str := "You cannot follow yourself.".toList
def UNFOLLOW_YOURSELF : Str := "You cannot unfollow yourself.".toList
def ALREADY_FOLLOW : Str := "You already follow this user".toList
def FOLLOWED : Str := "Successfully followed ".toList
def NOT_A_FOLLOWER : Str := "You already do not follow this user...".toList
def UNFOLLOWED : Str := "Successfully unfollowed user ".toList

def login (s : SNSServer) (request : Request) : Except Fault (SNSServer × Reply) := do
  let (s, ref) := s.getClientOrNew request.username
  let client ← s.client ref
  if client.connected then
    return (s, { status := .SUCCESS, msg := WELCOME_BACK ++ request.username })
  else
    let s := s.setClient ref { client with connected := true }
    let s := { s with client_db := s.client_db ++ [ref] }
    return (s.writeUserinfo (userLine request.username),
      { status := .SUCCESS, msg := USER_PREFIX ++ request.username ++ LOGGED_IN })

/-- `Follow` once both pointers are known to be clients. -/
def followClient (s : SNSServer) (tz : TimeZone) (client toFollow : Nat) (t : Timestamp) :
    Except Fault (SNSServer × Reply) := do
  let c ← s.client client
  let c2 ← s.client toFollow
  match s.indexOfFollowing c toFollow with
  | some _ => return (s, { status := .FAILURE_ALREADY_EXISTS, msg := ALREADY_FOLLOW })
  | none =>
    let s ← s.pushFollow client toFollow t
    let timeStr ← timestampToStr tz t
    return (s.writeUserinfo (followLine c.username c2.username timeStr),
      { status := .SUCCESS, msg := FOLLOWED ++ c2.username })

/-- The branches of `Follow`. -/
def followTarget (s : SNSServer) (tz : TimeZone) (client toFollow : Option Nat) (t : Timestamp) :
    Except Fault (SNSServer × Reply) :=
  match toFollow with
  | none => .ok (s, { status := .FAILURE_NOT_EXISTS, msg := NOT_EXISTS })
  | some ref =>
    if client = toFollow then .ok (s, { status := .FAILURE_INVALID, msg := FOLLOW_YOURSELF })
    else do s.followClient tz (← deref client) ref t

def follow (s : SNSServer) (tz : TimeZone) (request : Request) : Except Fault (SNSServer × Reply) := do
  let client := s.getClient request.username
  let toFollow := s.getClient (← request.argument 0)
  let r ← s.followTarget tz client toFollow request.timestamp
  -- the log line names both users
  let _ ← deref client
  let _ ← deref toFollow
  return r

/-- `UnFollow` once both pointers are known to be clients. -/
def unfollowClient (s : SNSServer) (client toUnFollow : Nat) : Except Fault (SNSServer × Reply) := do
  let c ← s.client client
  let c2 ← s.client toUnFollow
  match s.indexOfFollowing c toUnFollow with
  | none => return (s, { status := .FAILURE_NOT_A_FOLLOWER, msg := NOT_A_FOLLOWER })
  | some index =>
    let s ← s.eraseFollow client toUnFollow (some index) (s.indexOfFollower c2 client)
    return (s.writeUserinfo (unfollowLine c.username c2.username),
      { status := .SUCCESS, msg := UNFOLLOWED ++ c2.username })

/-- The branches of `UnFollow`. -/
def unfollowTarget (s : SNSServer) (client toUnFollow : Option Nat) : Except Fault (SNSServer × Reply) :=
  match toUnFollow with
  | none => .ok (s, { status := .FAILURE_NOT_EXISTS, msg := NOT_EXISTS })
  | some ref =>
    if client = toUnFollow then .ok (s, { status := .FAILURE_INVALID, msg := UNFOLLOW_YOURSELF })
    else do s.unfollowClient (← deref client) ref

def unfollow (s : SNSServer) (request : Request) : Except Fault (SNSServer × Reply) := do
  let client := s.getClient request.username
  let toUnFollow := s.getClient (← request.argument 0)
  let r ← s.unfollowTarget client toUnFollow
  let _ ← deref client
  let _ ← deref toUnFollow
  return r

def list (s : SNSServer) (request : Request) : Except Fault ListReply := do
  let client ← s.client (← deref (s.getClient request.username))
  let names (refs : List Nat) : Except Fault (List Str) := refs.mapM fun ref => return (← s.client ref).username
  return {
    all_users := ← names s.client_db
    followers := ← names client.client_followers
    following := ← names client.client_following }

/-! ## Posts -/

def formatMessageOutput (tz : TimeZone) (message : Message) : Except Fault Str := do
  let timeStr ← timestampToStr tz message.timestamp
  return ['T', ' '] ++ timeStr ++ ['\n', 'U', ' '] ++ message.username ++ ['\n', 'W', ' '] ++ message.msg ++
    ['\n', '\n']

/-- Writes the message to the streams of the followers who have joined the timeline. -/
def writeToFollowers (message : Message) : SNSServer → List Nat → Except Fault SNSServer
  | s, [] => .ok s
  | s, follower :: followers => do
    let c ← s.client follower
    let s := match c.stream with
      | some stream => s.writeStream stream message
      | none => s
    writeToFollowers message s followers

def addPostHelper (s : SNSServer) (tz : TimeZone) (message : Message) (client : Option Nat)
    (writeToFile : Bool) : Except Fault SNSServer := do
  let s := { s with all_posts := s.all_posts ++ [.ofMessage message] }
  let data ← formatMessageOutput tz message
  let s := if writeToFile then s.writePosts data else s
  let c ← s.client (← deref client)
  writeToFollowers message s c.client_followers

/-- The loop of `getFollowingPosts` over the posts, latest first. -/
def followingPosts (s : SNSServer) (c : Client) : List Post → Nat → Except Fault (List Post)
  | [], _ => .ok []
  | _, 0 => .ok []
  | post :: posts, maxPosts + 1 => do
    let index := (s.getClient post.username).bind fun author => c.client_following.findIdx? (· = author)
    match index with
    | none => s.followingPosts c posts (maxPosts + 1)
    | some idx =>
      match c.follow_time[idx]? with
      | none => .error .outOfRange
      | some followTime =>
        if post.timestamp.gt followTime then return post :: (← s.followingPosts c posts maxPosts)
        else s.followingPosts c posts (maxPosts + 1)

def getFollowingPosts (s : SNSServer) (c : Client) (maxPosts : Nat) : Except Fault (List Post) :=
  s.followingPosts c s.all_posts.reverse maxPosts

def Post.toMessage (post : Post) : Message where
  username := post.username
  msg := post.data
  timestamp := post.timestamp

/-- One round of the loop of `Timeline`: the server, and the message to propagate if there is one. -/
def timeline (s : SNSServer) (tz : TimeZone) (stream : StreamId) (message : Message) :
    Except Fault (SNSServer × Option Message) := do
  let ref := s.getClient message.username
  let client ← s.client (← deref ref)
  match client.stream with
  | none =>
    let s := s.setClient (← deref ref) { client with stream := some stream }
    let timelinePosts ← s.getFollowingPosts client 20
    return (timelinePosts.foldl (fun s post => s.writeStream stream (Post.toMessage post)) s, none)
  | some _ =>
    -- an empty message only opens the stream
    if message.msg ≠ [] then
      let s ← s.addPostHelper tz message ref true
      return (s, if s.master then some message else none)
    else return (s, none)

def addPost (s : SNSServer) (tz : TimeZone) (request : Request) : Except Fault (SNSServer × Reply) := do
  let s ← s.addPostHelper tz request.message (s.getClient request.message.username) true
  return (s, {})

/-! ## Requests by method -/

/-- The methods `propogateHelper` knows. -/
inductive Method where
  | LOGIN
  | FOLLOW
  | UNFOLLOW
  | ADD_POST
  deriving DecidableEq

def handle (s : SNSServer) (tz : TimeZone) (method : Method) (request : Request) :
    Except Fault (SNSServer × Reply) :=
  match method with
  | .LOGIN => s.login request
  | .FOLLOW => s.follow tz request
  | .UNFOLLOW => s.unfollow request
  | .ADD_POST => s.addPost tz request

end SNSServer

end DistributedSns.Server
