import DistributedSns.FSWrapper.Utils
import DistributedSns.Server.Model

/-!
# Replay of the local files

The helpers which rebuild a server from the text of its userinfo and posts files. Unlike the handlers they
check nothing.
-/

namespace DistributedSns.Server

open FSWrapper (splitString substr)

/-! ## Reading lines -/

/-- The segments `getline` reads until the end of the stream; the text after the last delimiter counts if
it is not empty. -/
def getlines (delim : Char) : Str → List Str
  | [] => []
  | c :: s =>
    if c = delim then [] :: getlines delim s
    else
      match getlines delim s with
      | [] => [[c]]
      | line :: lines => (c :: line) :: lines

/-- Splits a line into tokens. -/
def split (line : Str) (delim : Char) : List Str := getlines delim line

/-- What `FSLocal::read` makes of a file's text: every line ends with a newline. -/
def readLines (text : Str) : Str := (getlines '\n' text).flatMap (· ++ ['\n'])

/-- `args[i]`. -/
def arg (args : List Str) (i : Nat) : Except Fault Str :=
  match args[i]? with
  | some a => .ok a
  | none => .error .outOfRange

namespace SNSServer

/-! ## Helpers -/

def loginHelper (s : SNSServer) (user : Str) : Except Fault SNSServer := do
  let (s, ref) := s.getClientOrNew user
  let client ← s.client ref
  let s := s.setClient ref { client with connected := true }
  return { s with client_db := s.client_db ++ [ref] }

def followHelper (s : SNSServer) (tz : TimeZone) (user1 user2 timestampStr : Str) :
    Except Fault SNSServer := do
  let client := s.getClient user1
  let toFollow := s.getClient user2
  let t ← strToTimestamp tz timestampStr
  s.pushFollow (← deref client) (← deref toFollow) t

def unfollowHelper (s : SNSServer) (user1 user2 : Str) : Except Fault SNSServer := do
  let client ← deref (s.getClient user1)
  let toUnFollow ← deref (s.getClient user2)
  let c ← s.client client
  let c2 ← s.client toUnFollow
  s.eraseFollow client toUnFollow (s.indexOfFollowing c toUnFollow) (s.indexOfFollower c2 client)

/-! ## Files -/

/-- One line of the userinfo file. -/
def processLine (tz : TimeZone) (save : Bool) (s : SNSServer) (line : Str) : Except Fault SNSServer := do
  let args := split line ' '
  let op ← arg args 0
  let s ←
    if op = USER then do s.loginHelper (← arg args 1)
    else if op = FOLLOW then do s.followHelper tz (← arg args 1) (← arg args 2) (← arg args 3)
    else if op = UNFOLLOW then do s.unfollowHelper (← arg args 1) (← arg args 2)
    else .ok s
  return if save then s.writeUserinfo (line ++ ['\n']) else s

def processUserInfoFromFile (s : SNSServer) (tz : TimeZone) (filedata : Str) (save : Bool) :
    Except Fault SNSServer :=
  (getlines '\n' filedata).foldlM (processLine tz save) s

/-- One post of the posts file. -/
def processPost (tz : TimeZone) (save : Bool) (s : SNSServer) (token : Str) : Except Fault SNSServer := do
  let postParts ← splitString token ['\n']
  if postParts.length > 0 then
    let timestamp ← strToTimestamp tz (← substr (← arg postParts 0) 2)
    let username ← substr (← arg postParts 1) 2
    let client := s.getClient username
    let content ← substr (← arg postParts 2) 2
    s.addPostHelper tz { timestamp, username, msg := content } client save
  else return s

def updatePostsFromFile (s : SNSServer) (tz : TimeZone) (filedata : Str) (save : Bool) :
    Except Fault SNSServer := do
  let postTokens ← splitString filedata ['\n', '\n']
  postTokens.foldlM (processPost tz save) s

/-! ## Log transfer -/

/-- `GetLog`: the texts of both files. -/
def getLog (s : SNSServer) : Str × Str := (readLines s.userinfo, readLines s.posts)

/-- `initializeData` of a fresh server from another server's reply. -/
def initializeData (s : SNSServer) (tz : TimeZone) (userinfo posts : Str) : Except Fault SNSServer := do
  let s := { s with userinfo := [], posts := [] }
  let s ← s.processUserInfoFromFile tz userinfo true
  s.updatePostsFromFile tz posts true

end SNSServer

end DistributedSns.Server
