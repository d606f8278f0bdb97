import DistributedSns.Basic
import DistributedSns.Lib.OrdMap

/-!
# Nodes of the in-memory file tree (`FSTreeNode`)

The sources reach a node through shared pointers and change it in place. Here a method returns the changed
node next to its result, and the caller puts it back into the parent.
-/

namespace DistributedSns.FSWrapper

open Lib

structure FSTreeNode where
  folder : Bool
  name : Str
  data : Str
  children : List (Str × FSTreeNode)

namespace FSTreeNode

def getChild (node : FSTreeNode) (childName : Str) : Option FSTreeNode :=
  node.children.lookup childName

/-- `children[childName] = child`. -/
def setChild (node : FSTreeNode) (childName : Str) (child : FSTreeNode) : FSTreeNode :=
  { node with children := Assoc.insert childName child node.children }

/-- A node as `createChild` makes it. -/
def make (childName : Str) (childFolder : Bool) (childData : Str) : FSTreeNode :=
  { folder := childFolder, name := childName, data := childData, children := [] }

/-- The node afterwards, and the child or `NULL`. -/
def createChild (node : FSTreeNode) (childName : Str) (childFolder : Bool) (childData : Str) :
    FSTreeNode × Option FSTreeNode :=
  -- a file has no children, and a folder is not made with data
  if !node.folder || (childFolder && childData.length > 0) then (node, none)
  else
    let child := make childName childFolder childData
    (node.setChild childName child, some child)

/-- The entry is taken out of the map and put in again under its new name, unless there is an entry of this name:
`insert` keeps the entry that is there and drops the other one. -/
def renameChild (node : FSTreeNode) (childName newName : Str) : FSTreeNode × Int :=
  match node.getChild childName with
  | some child =>
    let node := { node with children := Assoc.erase childName node.children }
    let child := (node.getChild newName).getD child
    (node.setChild newName { child with name := newName }, 0)
  | none => (node, -1)

def removeChild (node : FSTreeNode) (childName : Str) : FSTreeNode × Int :=
  let success := (node.getChild childName).isSome
  ({ node with children := Assoc.erase childName node.children }, if success then 0 else -1)

@[simp] theorem getChild_setChild_self (node child : FSTreeNode) (n : Str) :
    (node.setChild n child).getChild n = some child :=
  Assoc.lookup_insert_self n child node.children

theorem getChild_setChild_of_ne (node child : FSTreeNode) {n n' : Str} (h : n' ≠ n) :
    (node.setChild n child).getChild n' = node.getChild n' :=
  Assoc.lookup_insert_of_ne h child node.children

@[simp] theorem setChild_setChild (node child child' : FSTreeNode) (n : Str) :
    (node.setChild n child).setChild n child' = node.setChild n child' := by
  simp [setChild]

@[simp] theorem folder_setChild (node child : FSTreeNode) (n : Str) :
    (node.setChild n child).folder = node.folder := rfl

@[simp] theorem data_setChild (node child : FSTreeNode) (n : Str) :
    (node.setChild n child).data = node.data := rfl

@[simp] theorem getChild_make (n n' : Str) (b : Bool) (d : Str) : (make n b d).getChild n' = none := rfl

@[simp] theorem folder_make (n : Str) (b : Bool) (d : Str) : (make n b d).folder = b := rfl

@[simp] theorem data_make (n : Str) (b : Bool) (d : Str) : (make n b d).data = d := rfl

theorem createChild_of_folder {node : FSTreeNode} (h : node.folder = true) (n : Str) {b : Bool} {d : Str}
    (hd : b = true → d = []) :
    node.createChild n b d = (node.setChild n (make n b d), some (make n b d)) := by
  cases b with
  | false => simp [createChild, h]
  | true => simp [createChild, h, hd rfl]

@[simp] theorem getChild_removeChild_self (node : FSTreeNode) (n : Str) :
    (node.removeChild n).1.getChild n = none :=
  Assoc.lookup_erase_self n node.children

theorem getChild_removeChild_of_ne (node : FSTreeNode) {n n' : Str} (h : n' ≠ n) :
    (node.removeChild n).1.getChild n' = node.getChild n' :=
  Assoc.lookup_erase_of_ne h node.children

end FSTreeNode

end DistributedSns.FSWrapper
