import DistributedSns.Coordinator.Model
import DistributedSns.Server.Model

/-!
# The client (`client.cpp`)

The client's program on what a user types. The terminal hands over complete lines and is never closed, so the program
waits once all lines are read. The thread which refreshes the server is left to `Client.Refresh`, and so are the
messages a timeline shows, which another thread prints.
-/

namespace DistributedSns.Client

open Coordinator (Status StatusCode)
open Server (SNSStatus Message Request Reply ListReply)

/-! ## Utilities -/

def toUpperCase (s : Str) : Str := s.map Char.toUpper

def printWithSeparator (tokens : List Str) (sep : Str) : Str := sep.intercalate tokens ++ ['\n']

/-! ## Commands and texts -/

def FOLLOW : Str := "FOLLOW".toList
def UNFOLLOW : Str := "UNFOLLOW".toList
def LIST : Str := "LIST".toList
def TIMELINE : Str := "TIMELINE".toList
def OUTPUT_SEP : Str := "---\n".toList
def CMD_INPUT : Str := "Cmd> ".toList
def CHAT_INPUT : Str := "> ".toList
def EXIT_CHAT : Str := "exit".toList
def MAX_DATA : Nat := 256
def NO_ARGUMENTS : Str := "Invalid Input -- No Arguments Given\n".toList
def INVALID_COMMAND : Str := "Invalid Command\n".toList
def INVALID : Str := "Invalid command\n".toList
def ENTERING : Str := "### Entering chat ###\nType 'exit' to exit chat.\n".toList
def EXITING : Str := "### Exiting chat ###\n".toList
def TIMELINE_FAILED : Str := "Timeline gRPC failed...\n".toList
def GRPC_FAILED : Str := "grpc failed: ".toList
def TITLE : Str :=
  ("========= TINY SNS CLIENT =========\n" ++
  " Command Lists and Format:\n" ++
  " FOLLOW <username>\n" ++
  " UNFOLLOW <username>\n" ++
  " LIST\n" ++
  " TIMELINE\n" ++
  "===================================\n").toList

/-! ## The program and its surroundings -/

inductive Rpc where
  | Login
  | List
  | Follow
  | UnFollow
  deriving DecidableEq

/-- What the client sends to the server. -/
inductive Event where
  | call (rpc : Rpc) (request : Request)
  /-- a stream is opened -/
  | Timeline
  | write (message : Message)
  deriving DecidableEq

/-- What is not up to the client. It may depend on all that has been sent so far. -/
structure World where
  /-- `time(NULL)` -/
  time : List Event → Int
  reply : List Event → Status × Reply
  listReply : List Event → Status × ListReply
  /-- what `stream->Write` returns -/
  written : List Event → Bool
  /-- Has the server ended the stream? Then this is the status. -/
  ended : List Event → Option Status
  /-- what a status holds which has not been set -/
  unset : SNSStatus

/-- The lines which have been typed and not been read yet, what has been sent, and what has been printed. -/
structure Console where
  stdin : List Str := []
  events : List Event := []
  output : Str := []
  deriving DecidableEq

def Console.print (c : Console) (text : Str) : Console := { c with output := c.output ++ text }

def Console.send (c : Console) (e : Event) : Console := { c with events := c.events ++ [e] }

/-- The default values are those of `IReply()`. -/
structure IReply where
  grpc_status : Status := .OK
  comm_status : SNSStatus := .SUCCESS
  comm_msg : Str := []
  all_users : List Str := []
  followers : List Str := []
  following : List Str := []

/-! ## Calls of the server -/

variable (w : World) (username : Str)

def getCurrentTimestamp (c : Console) : Server.Timestamp := { seconds := w.time c.events, nanos := 0 }

def makeMessage (c : Console) (msg : Str) : Message where
  username := username
  msg := msg
  timestamp := getCurrentTimestamp w c

/-- `Login`, `Follow` and `UnFollow` differ in the call and its arguments only. -/
def call (rpc : Rpc) (arguments : List Str) (c : Console) : Console × IReply :=
  let c := c.send (.call rpc { username, arguments, timestamp := getCurrentTimestamp w c })
  let (status, reply) := w.reply c.events
  if status.code = .ok then (c, { grpc_status := status, comm_status := reply.status, comm_msg := reply.msg })
  else (c, { grpc_status := status, comm_status := .FAILURE_UNKNOWN })

def login : Console → Console × IReply := call w username .Login []

def follow (username2 : Str) : Console → Console × IReply := call w username .Follow [username2]

def unFollow (username2 : Str) : Console → Console × IReply := call w username .UnFollow [username2]

def list (c : Console) : Console × IReply :=
  let c := c.send (.call .List { username, timestamp := getCurrentTimestamp w c })
  let (status, reply) := w.listReply c.events
  if status.code = .ok then
    (c, {
      grpc_status := status
      all_users := reply.all_users
      followers := reply.followers
      following := reply.following })
  else (c, { grpc_status := status, comm_status := .FAILURE_UNKNOWN })

/-! ## Command processing -/

/-- Reads lines until one of them is a command; `none` if the client waits for the next line. -/
def getCommandLoop : List Str → Console → Console × Option Str
  | [], c => ({ c with stdin := [] }.print CMD_INPUT, none)
  | input :: lines, c =>
    let c := { c with stdin := lines }.print CMD_INPUT
    match input.idxOf? ' ' with
    | some index =>
      let cmd := toUpperCase (input.take index)
      if input.length = index + 1 then getCommandLoop lines (c.print NO_ARGUMENTS)
      else
        let argument := input.drop (index + 1)
        (c, some (cmd ++ [' '] ++ argument))
    | none =>
      let input := toUpperCase input
      if input ≠ LIST ∧ input ≠ TIMELINE then getCommandLoop lines (c.print INVALID_COMMAND)
      else (c, some input)

def getCommand (c : Console) : Console × Option Str := getCommandLoop c.stdin c

def processCommand (input : Str) (c : Console) : Console × IReply :=
  let loc := input.idxOf? ' '
  let cmd := (loc.map input.take).getD input
  let arg := (loc.map fun loc => input.drop (loc + 1)).getD []
  if cmd = FOLLOW then follow w username arg c
  else if cmd = UNFOLLOW then unFollow w username arg c
  else if cmd = LIST then list w username c
  else if cmd = TIMELINE then (c, {})
  else (c.print INVALID, { comm_status := w.unset })

def SEP : Str := ", ".toList

/-- What is printed for a reply. -/
def displayCommandReply (comm : Str) (reply : IReply) : Str :=
  if reply.grpc_status.code = .ok then
    match reply.comm_status with
    | .SUCCESS =>
      (if comm = LIST then
        "Me: ".toList ++ username ++ ['\n'] ++
        "All users: ".toList ++ printWithSeparator reply.all_users SEP ++
        "Followers: ".toList ++ printWithSeparator reply.followers SEP ++
        "Following: ".toList ++ printWithSeparator reply.following SEP
      else reply.comm_msg ++ ['\n']) ++ OUTPUT_SEP
    | _ => reply.comm_msg ++ ['\n'] ++ OUTPUT_SEP
  else GRPC_FAILED ++ reply.grpc_status.message ++ ['\n']

/-! ## Timeline -/

/-- `fgets(buf, MAX_DATA, stdin)` on a line: the bytes read (a character is a byte), and the lines which remain. -/
def fgets (line : Str) (lines : List Str) : Str × List Str :=
  if line.length + 1 < MAX_DATA then (line ++ ['\n'], lines)
  else (line.take (MAX_DATA - 1), line.drop (MAX_DATA - 1) :: lines)

/-- `string message(buf)` once the newline has been replaced. -/
def cString (buf : Str) : Str := buf.takeWhile fun c => c ≠ '\n' ∧ c ≠ '\x00'

/-- The next message; `none` if the client waits for the next line. -/
def getPostMessageLoop : List Str → Console → Console × Option Str
  | [], c => ({ c with stdin := [] }.print CHAT_INPUT, none)
  -- `buf[0]` is the newline
  | [] :: lines, c => getPostMessageLoop lines ({ c with stdin := lines }.print CHAT_INPUT)
  | (a :: line) :: lines, c =>
    let (buf, lines) := fgets (a :: line) lines
    ({ c with stdin := lines }.print CHAT_INPUT, some (cString buf))

def getPostMessage (c : Console) : Console × Option Str := getPostMessageLoop c.stdin c

/-- The loop of the thread which writes. The second result tells whether the thread has come to its end. -/
def writerLoop : (fuel : Nat) → Console → Except Fault (Console × Bool)
  | 0, _ => .error .outOfFuel
  | fuel + 1, c =>
    match getPostMessage c with
    | (c, none) => .ok (c, false)
    | (c, some msgToSend) =>
      if msgToSend = EXIT_CHAT then .ok (c, true)
      else
        let c := c.send (.write (makeMessage w username c msgToSend))
        if w.written c.events then writerLoop fuel c else .ok (c, true)

/-- The stream is read until the server ends it, and then the other thread is waited for. -/
def timeline (fuel : Nat) (c : Console) : Except Fault (Console × Bool) := do
  let c := c.send .Timeline
  -- the stream's first message is empty
  let c := c.send (.write (makeMessage w username c []))
  let (c, joined) ← writerLoop w username fuel c
  match w.ended c.events with
  | some status => return (if joined ∧ status.code ≠ .ok then c.print TIMELINE_FAILED else c, joined)
  | none => return (c, false)

def processTimeline (fuel : Nat) (c : Console) : Except Fault (Console × Bool) := do
  let (c, returned) ← timeline w username fuel (c.print ENTERING)
  return (if returned then c.print EXITING else c, returned)

/-! ## The client's bash -/

/-- The loop of `runClientBash`, which never ends: the result is the console at which the client waits. -/
def runClientBash : (fuel : Nat) → Console → Except Fault Console
  | 0, _ => .error .outOfFuel
  | fuel + 1, c =>
    match getCommand c with
    | (c, none) => .ok c
    | (c, some cmd) => do
      let (c, reply) := processCommand w username cmd c
      let c := c.print (displayCommandReply username cmd reply)
      if reply.grpc_status.code = .ok ∧ cmd = TIMELINE then
        let (c, returned) ← processTimeline w username fuel c
        if returned then runClientBash fuel c else return c
      else runClientBash fuel c

/-- `run` once the client knows its server; `exit` ends the program. -/
def run (fuel : Nat) (c : Console) : Except Fault Console :=
  let (c, reply) := login w username c
  if reply.grpc_status.code ≠ .ok ∨ reply.comm_status ≠ .SUCCESS then
    .ok (c.print "Connection failed: -1\n".toList)
  else
    let c := c.print (displayCommandReply username "login".toList reply)
    runClientBash w username fuel (c.print TITLE)

end DistributedSns.Client
