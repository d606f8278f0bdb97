import DistributedSns.FSWrapper.Utils
import DistributedSns.FSWrapper.TreeNode

/-!
# The in-memory file system (`FSMemory`)

The return code is the source's: `0` for success and `-1` for failure. An operation which locks `fsMutex`
and finds it locked waits for ever, since no other call is running.
-/

namespace DistributedSns.FSWrapper

/-- Walks down to the node named by the tokens, where `k` stands for what the caller does with the pointer
it gets back. With `create` the missing folders on the way are made. The result of `k` is `none` if the
pointer is `NULL`. -/
def getTreeNode {α : Type} (node : FSTreeNode) (tokens : List Str) (create : Bool)
    (k : FSTreeNode → FSTreeNode × α) : Except Fault (FSTreeNode × Option α) :=
  match tokens with
  | [] =>
    let (node, a) := k node
    .ok (node, some a)
  | token :: tokens =>
    match node.getChild token with
    | some next => do
      let (next, a) ← getTreeNode next tokens create k
      return (node.setChild token next, a)
    | none =>
      if !create then .ok (node, none)
      else
        match node.createChild token true [] with
        | (node, some next) => do
          let (next, a) ← getTreeNode next tokens create k
          return (node.setChild token next, a)
        | (node, none) =>
          -- the loop goes on with `NULL`, which only the last token survives
          if tokens.isEmpty then .ok (node, none) else .error .nullDereference

/-- `actualFile = tokens.back(); tokens.pop_back();` -/
def popBack (tokens : List Str) : Except Fault (List Str × Str) :=
  match tokens.getLast? with
  | some actualFile => .ok (tokens.dropLast, actualFile)
  | none => .error .outOfRange

def ROOT : Str := "root".toList

structure FSMemory where
  coarseMutex : Bool
  fsMutex : Bool
  filetree : FSTreeNode

namespace FSMemory

/-- The constructor. -/
def init (coarseMutex : Bool) : FSMemory where
  coarseMutex := coarseMutex
  fsMutex := false
  filetree := .make ROOT true []

def lock (fs : FSMemory) : Except Fault FSMemory :=
  if !fs.coarseMutex then .ok fs
  else if fs.fsMutex then .error .deadlock
  else .ok { fs with fsMutex := true }

def unlock (fs : FSMemory) : FSMemory :=
  if fs.coarseMutex then { fs with fsMutex := false } else fs

/-- The frame `create`, `write` and `remove` share: under the mutex they walk to the parent folder and do `k`
there with the last component. An empty path returns with the mutex still locked. -/
def atParent (fs : FSMemory) (file : Str) (createDirectories : Bool)
    (k : Str → FSTreeNode → FSTreeNode × Int) : Except Fault (FSMemory × Int) := do
  let fs ← fs.lock
  if file = [] then
    return (fs, -1)
  let tokens ← splitFilepath file
  let (tokens, actualFile) ← popBack tokens
  let (filetree, success) ← getTreeNode fs.filetree tokens createDirectories (k actualFile)
  return ({ fs with filetree := filetree }.unlock, success.getD (-1))

/-- `create` in the parent folder. -/
def createIn (folder : Bool) (actualFile : Str) (node : FSTreeNode) : FSTreeNode × Int :=
  match node.getChild actualFile with
  | none =>
    let (node, child) := node.createChild actualFile folder []
    (node, if child.isSome then 0 else -1)
  | some _ => (node, -1)

def create (fs : FSMemory) (file : Str) (folder createDirectories : Bool) :
    Except Fault (FSMemory × Int) :=
  fs.atParent file createDirectories (createIn folder)

def fileExists (fs : FSMemory) (file : Str) : Except Fault Bool := do
  let tokens ← splitFilepath file
  let (_, node) ← getTreeNode fs.filetree tokens false fun node => (node, ())
  return node.isSome

/-- The return code and what `data` holds afterwards. -/
def read (fs : FSMemory) (file data : Str) (offset : Int) : Except Fault (Int × Str) := do
  let tokens ← splitFilepath file
  let (_, node) ← getTreeNode fs.filetree tokens false fun node => (node, node)
  match node with
  | some node =>
    -- `length() >= offset` compares as unsigned, so a negative offset is past every end
    if !node.folder && 0 ≤ offset && offset ≤ node.data.length then
      return (0, node.data.drop offset.toNat)
    else return (-1, data)
  | none => return (-1, data)

/-- `write` in the parent folder. -/
def writeIn (data : Str) (overwrite : Bool) (actualFile : Str) (node : FSTreeNode) : FSTreeNode × Int :=
  match node.getChild actualFile with
  | some next =>
    if next.folder then (node, -1)
    else
      let next := { next with data := if overwrite then data else next.data ++ data }
      (node.setChild actualFile next, 0)
  | none =>
    let (node, next) := node.createChild actualFile false data
    (node, if next.isSome then 0 else -1)

def write (fs : FSMemory) (file data : Str) (createDirectories overwrite : Bool) :
    Except Fault (FSMemory × Int) :=
  fs.atParent file createDirectories (writeIn data overwrite)

def remove (fs : FSMemory) (file : Str) : Except Fault (FSMemory × Int) :=
  fs.atParent file false fun actualFile node => node.removeChild actualFile

end FSMemory

end DistributedSns.FSWrapper
