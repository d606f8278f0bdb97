import DistributedSns.FSWrapper.Lemmas.Split
import DistributedSns.Lib.PathMap

/-!
# The file system of the machine (`FSLocal`)

The disk is an ideal one: there are only files and folders on it, no links, names may have any length, space and
permissions never lack, and nobody else uses it. In its root `..` leads back to itself. An error of `std::filesystem` is
thrown. The working directory is the root, except where another one is given.
-/

namespace DistributedSns.FSWrapper

open Lib

/-! ## Disk -/

abbrev Disk := PathMap Str Char

/-- The names by which a path is looked up. A slash at the end stands for a last name `.`. -/
def names (path : Str) : List Str :=
  if path.getLast? = some '/' then components path ++ [['.']] else components path

namespace Disk

/-- Where the names lead from a location. Only folders are gone through; the last name may be missing. -/
def resolve (disk : Disk) (location : List Str) : List Str → Option (List Str)
  | [] => some location
  | name :: names =>
    if PathMap.isFolder (disk location) then
      if name = ['.'] then disk.resolve location names
      else if name = ['.', '.'] then disk.resolve location.dropLast names
      else disk.resolve (location ++ [name]) names
    else none

def find (disk : Disk) (path : Str) : Option (List Str) :=
  if path = [] then none else disk.resolve [] (names path)

/-- What is found at the path. -/
def status (disk : Disk) (path : Str) : Option (PathMap.Entry Char) := (disk.find path).bind disk

/-- `fs::create_directory`, which returns whether it has made the folder. A slash at the end does not matter. -/
def createDirectory (disk : Disk) (path : Str) : Except Fault (Disk × Bool) :=
  match disk.resolve [] (components path) with
  | none => .error .exception
  | some location =>
    match disk location with
    | none => .ok (Function.update disk location (some .folder), true)
    | some .folder => .ok (disk, false)
    | some (.file _) => .error .exception

/-- The folders of `fs::create_directories` one after the other; `created` tells about the one before. -/
def createDirectoriesFrom (disk : Disk) (location : List Str) (created : Bool) :
    List Str → Except Fault (Disk × Bool)
  | [] => .ok (disk, created)
  | name :: names =>
    if name = ['.'] then createDirectoriesFrom disk location created names
    else if name = ['.', '.'] then createDirectoriesFrom disk location.dropLast created names
    else
      match disk (location ++ [name]) with
      | none =>
        let disk := Function.update disk (location ++ [name]) (some .folder)
        createDirectoriesFrom disk (location ++ [name]) true names
      | some .folder => createDirectoriesFrom disk (location ++ [name]) false names
      | some (.file _) => .error .exception

/-- `fs::create_directories`. -/
def createDirectories (disk : Disk) (path : Str) : Except Fault (Disk × Bool) :=
  if path = [] then .error .exception else disk.createDirectoriesFrom [] false (components path)

/-- Opens a file for writing and makes it if it is missing. `none` is a stream which has failed. -/
def openOut (disk : Disk) (path : Str) (trunc : Bool) : Option (Disk × List Str) := do
  let location ← disk.find path
  match disk location with
  | none => return (Function.update disk location (some (.file [])), location)
  | some .folder => none
  | some (.file old) => return (Function.update disk location (some (.file (if trunc then [] else old))), location)

/-- `outfile << data`. -/
def append (disk : Disk) (location : List Str) (data : Str) : Disk :=
  match disk location with
  | some (.file old) => Function.update disk location (some (.file (old ++ data)))
  | _ => disk

/-- The disk without what is in the folder. -/
def emptied (disk : Disk) (location : List Str) : Disk := fun q =>
  if location <+: q ∧ q ≠ location then none else disk q

/-- `fs::remove_all`, which returns how much it has removed; only whether this is nothing is kept. What is not found is no
error. A folder's contents go first, and the path may have led through them: then it does not lead to the folder any
more, which stays. By the names `.` and `..` no folder is removed itself. -/
def removeAll (disk : Disk) (path : Str) : Except Fault (Disk × Bool) :=
  match disk.find path with
  | none => .ok (disk, false)
  | some location =>
    if (disk location).isNone then .ok (disk, false)
    else if ((disk.emptied location).find path).isNone then .ok (disk.emptied location, true)
    else if (components path).getLast? ∈ [none, some ['.'], some ['.', '.']] then .error .exception
    else .ok (Function.update (disk.emptied location) location none, true)

end Disk

/-- The path from the root which the path stands for in the working directory `cwd`. -/
def absolute (cwd path : Str) : Str :=
  if path = [] then []
  else if path.head? = some '/' then path
  else cwd ++ ['/'] ++ path

/-! ## `FSLocal` -/

structure FSLocal where
  baseDir : Str
  disk : Disk

namespace FSLocal

/-- The constructor. Whether `mkdir` succeeds does not matter. -/
def init (baseDir : Str) (disk : Disk) : FSLocal :=
  if baseDir ≠ [] then
    { baseDir := baseDir ++ ['/']
      disk :=
        match disk.createDirectory baseDir with
        | .ok (disk, _) => disk
        | .error _ => disk }
  else { baseDir, disk }

def getFullPath (fs : FSLocal) (file : Str) : Str := fs.baseDir ++ file

def boolToInt (success : Bool) : Int := if success then 0 else -1

/-- `if(createDirectories)`: makes the parent folder. -/
def createParentAt (cwd : Str) (disk : Disk) (file : Str) (createDirectories : Bool) : Except Fault Disk :=
  if createDirectories then do
    let parentFolderPath ← getParentFolderPath file
    let (disk, _) ← disk.createDirectories (absolute cwd parentFolderPath)
    return disk
  else .ok disk

/-- `create` in the working directory `cwd`. -/
def createAt (cwd : Str) (fs : FSLocal) (file : Str) (folder createDirectories : Bool) :
    Except Fault (FSLocal × Int) :=
  if file = [] then .ok (fs, -1)
  else
    let file := fs.getFullPath file
    if folder && createDirectories then do
      let (disk, success) ← fs.disk.createDirectories (absolute cwd file)
      return ({ fs with disk }, boolToInt success)
    else do
      let disk ← createParentAt cwd fs.disk file createDirectories
      if folder then
        let (disk, success) ← disk.createDirectory (absolute cwd file)
        return ({ fs with disk }, boolToInt success)
      else
        match disk.openOut (absolute cwd file) true with
        | some (disk, _) => return ({ fs with disk }, boolToInt true)
        | none => return ({ fs with disk }, boolToInt false)

/-- `write` in the working directory `cwd`. -/
def writeAt (cwd : Str) (fs : FSLocal) (file data : Str) (createDirectories overwrite : Bool) :
    Except Fault (FSLocal × Int) := do
  let file := fs.getFullPath file
  let disk ← createParentAt cwd fs.disk file createDirectories
  match disk.openOut (absolute cwd file) overwrite with
  | none => return ({ fs with disk }, -1)
  | some (disk, location) => return ({ fs with disk := disk.append location data }, 1)

def createParent : Disk → Str → Bool → Except Fault Disk := createParentAt []

def create : FSLocal → Str → Bool → Bool → Except Fault (FSLocal × Int) := createAt []

def write : FSLocal → Str → Str → Bool → Bool → Except Fault (FSLocal × Int) := writeAt []

def fileExists (fs : FSLocal) (file : Str) : Bool := (fs.disk.status (fs.getFullPath file)).isSome

/-- The loop `while (getline(infile, line)) data += line + "\n";` with the part of the line read so far. -/
def readLoop : Str → Str → Str
  | line, [] => if line = [] then [] else line ++ ['\n']
  | line, c :: text => if c = '\n' then line ++ ['\n'] ++ readLoop [] text else readLoop (line ++ [c]) text

/-- The return code and what `data` holds afterwards. The stream of a folder is opened, but reading it fails. -/
def read (fs : FSLocal) (file data : Str) (_ : Int) : Int × Str :=
  match fs.disk.status (fs.getFullPath file) with
  | none => (-1, data)
  | some .folder => (-1, [])
  | some (.file text) => (0, readLoop [] text)

/-- The text of the file, and nothing if there is no file. -/
def content (fs : FSLocal) (file : Str) : Str := PathMap.text (fs.disk.status (fs.getFullPath file))

def remove (fs : FSLocal) (file : Str) : Except Fault (FSLocal × Int) := do
  let (disk, deleted) ← fs.disk.removeAll (fs.getFullPath file)
  return ({ fs with disk }, if deleted then 0 else -1)

def call (fs : FSLocal) (c : PathMap.Call Str Char) : Except Fault (FSLocal × PathMap.Result Char) := do
  match c.op with
  | .create folder createDirectories =>
    let (fs, success) ← fs.create c.path folder createDirectories
    return (fs, .code success)
  | .write data createDirectories overwrite =>
    let (fs, success) ← fs.write c.path data createDirectories overwrite
    return (fs, .code success)
  | .read data offset =>
    let (success, data) := fs.read c.path data offset
    return (fs, .data success data)
  | .fileExists => return (fs, .found (fs.fileExists c.path))
  | .remove =>
    let (fs, success) ← fs.remove c.path
    return (fs, .code success)

def calls (fs : FSLocal) : List (PathMap.Call Str Char) → Except Fault (FSLocal × List (PathMap.Result Char))
  | [] => .ok (fs, [])
  | c :: cs => do
    let (fs, r) ← fs.call c
    let (fs, rs) ← fs.calls cs
    return (fs, r :: rs)

end FSLocal

end DistributedSns.FSWrapper
