import DistributedSns.FSWrapper.Render
import DistributedSns.FSWrapper.Save
import DistributedSns.Shell.StringStream

/-!
# The shell (`test/src/test.cpp`)

A command line is split at spaces outside of quotes and carried out on an `FSMemory`. What is printed is returned. An
exception ends the program.
-/

namespace DistributedSns.Shell

open FSWrapper (FSMemory Disk)

/-! ## Splitting the input -/

/-- The character which compares equal to `EOF`, since `char` is signed. -/
def EOF : Char := '\xff'

/-- `char p = ss.peek()`, in which the end of the stream is a character. -/
def peekChar (ss : StringStream) : StringStream × Char :=
  let (ss, p) := ss.peek
  (ss, p.getD EOF)

/-- The loop of `getLineQuotes`; `p` is the character looked at. -/
def getLineQuotesLoop (delim : Char) :
    (fuel : Nat) → StringStream → (p : Char) → (output : Str) → Except Fault (StringStream × Str)
  | 0, _, _, _ => .error .outOfFuel
  | fuel + 1, ss, p, output =>
    if p = EOF ∨ p = delim then .ok (ss, output)
    else
      let (ss, output) :=
        if p = '"' then
          let (ss, temp) := ss.skip.getline '"'
          (ss, output ++ temp)
        else
          let (ss, c) := ss.get
          (ss, output ++ c.toList)
      if ss.failbit then .ok (ss, output)
      else
        let (ss, p) := peekChar ss
        getLineQuotesLoop delim fuel ss p output

/-- The stream and the token, or `none` if there are no more tokens. -/
def getLineQuotes (ss : StringStream) (delim : Char) : Except Fault (StringStream × Option Str) :=
  if ss.failbit then .ok (ss, none)
  else do
    let (ss, p) := peekChar ss
    let (ss, output) ← getLineQuotesLoop delim (ss.text.length + 1) ss p []
    -- the delimiter is left out, or the character which was taken for the end
    return (ss.skip, some output)

/-- The loop of `split`. -/
def splitTokens : (fuel : Nat) → StringStream → (tokens : List Str) → Except Fault (List Str)
  | 0, _, _ => .error .outOfFuel
  | fuel + 1, ss, tokens => do
    match ← getLineQuotes ss ' ' with
    | (_, none) => return tokens
    | (ss, some s) => splitTokens fuel ss (tokens ++ [s])

def split (input : Str) : Except Fault (List Str) := splitTokens (input.length + 2) { text := input } []

/-! ## Commands -/

structure State where
  fsm : FSMemory := .init false
  createDirs : Bool := false
  disk : Disk

def PROMPT : Str := "$ ".toList
def FAILED : Str := "Command failed\n".toList
def INVALID : Str := "Invalid Command\n".toList
def EXISTS : Str := "File exists\n".toList
def NOT_EXISTS : Str := "File does not exist\n".toList
def READING_FAILED : Str := "Reading failed\n".toList

def HELP : Str :=
  ("ls: print filetree. > <folder>, # <file>\n" ++
  "mkdir <folder>: create folder\n" ++
  "touch <file>: create file\n" ++
  "test <path>: check if file exists\n" ++
  "cat <path>: print file contents\n" ++
  "rm <path>: delete file\n" ++
  "write <path> <data> (data in double quotes): appends data to file (creates if doesnt exist)\n" ++
  "createdirs <true or false>: create dirs if they dont exist (default false)\n" ++
  "save <folder path>: saves the filesystem to the specified folder\n").toList

/-- What the branch of a command leaves. -/
structure Outcome where
  state : State
  output : Str := []
  valid : Bool := true
  success : Int := 0

/-- The operations of `FSMemory` which return a code. -/
def onFilesys (s : State) (r : Except Fault (FSMemory × Int)) : Except Fault Outcome := do
  let (fsm, success) ← r
  return { state := { s with fsm }, success }

def cat (s : State) (path : Str) : Except Fault Outcome := do
  let (success, output) ← s.fsm.read path [] 0
  -- the code after a failed reading is no failure of the command
  if success = 0 then return { state := s, output := output ++ ['\n'] }
  else return { state := s, output := READING_FAILED, success := 1 }

def save (s : State) (dir : Str) : Except Fault Outcome :=
  match s.fsm.saveToDisk dir s.disk with
  | (disk, .ok success) => .ok { state := { s with disk }, success }
  | (_, .error e) => .error e

def execute (s : State) (tokens : List Str) : Except Fault Outcome :=
  match tokens with
  | [command] =>
    if command = "ls".toList then .ok { state := s, output := s.fsm.toString }
    else if command = "help".toList then .ok { state := s, output := HELP }
    else .ok { state := s, valid := false }
  | [command, arg1] =>
    if command = "mkdir".toList then onFilesys s (s.fsm.create arg1 true s.createDirs)
    else if command = "touch".toList then onFilesys s (s.fsm.create arg1 false s.createDirs)
    else if command = "test".toList then do
      let found ← s.fsm.fileExists arg1
      return { state := s, output := if found then EXISTS else NOT_EXISTS }
    else if command = "cat".toList then cat s arg1
    else if command = "rm".toList then onFilesys s (s.fsm.remove arg1)
    else if command = "createdirs".toList then
      if arg1 = "true".toList then .ok { state := { s with createDirs := true } }
      else if arg1 = "false".toList then .ok { state := { s with createDirs := false } }
      else .ok { state := s, valid := false }
    else if command = "save".toList then save s arg1
    else .ok { state := s, valid := false }
  | [command, arg1, arg2] =>
    if command = "write".toList then onFilesys s (s.fsm.write arg1 arg2 s.createDirs false)
    else if command = "cp".toList then .ok { state := s }
    else if command = "rename".toList then .ok { state := s }
    else .ok { state := s, valid := false }
  | _ => .ok { state := s, valid := false }

/-- The state and all that is printed. -/
def processCommand (s : State) (input : Str) : Except Fault (State × Str) := do
  let tokens ← split input
  let r ← execute s tokens
  let message := if !r.valid then INVALID else if r.success < 0 then FAILED else []
  return (r.state, PROMPT ++ r.output ++ message)

/-- The loop of `main` on a sequence of lines. -/
def session (s : State) : List Str → Except Fault (State × Str)
  | [] => .ok (s, [])
  | input :: inputs => do
    let (s, printed) ← processCommand s input
    let (s, printed') ← session s inputs
    return (s, printed ++ printed')

end DistributedSns.Shell
