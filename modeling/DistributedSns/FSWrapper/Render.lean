import DistributedSns.FSWrapper.Memory

/-!
# The file tree as a text (`FSMemory::toString`)
-/

namespace DistributedSns.FSWrapper

def TREE_PREFIX : Str := "│   ".toList
def TREE_BLANK_PREFIX : Str := "    ".toList
def LOCAL_LAST_PREFIX : Str := "└── ".toList
def LOCAL_PREFIX : Str := "├── ".toList
def FOLDER : Str := ">".toList
def FILE : Str := "#".toList

namespace FSMemory

mutual
/-- The text of a node; `pre` stands before each line below the first one. -/
def toStringHelper : FSTreeNode → Str → Str
  | ⟨folder, name, _, children⟩, pre =>
    let filetype := if folder then FOLDER else FILE
    filetype ++ [' '] ++ name ++ ['\n'] ++ toStringLoop pre children.length children 0

/-- The loop over the children, of which the `i`-th is the next one. -/
def toStringLoop (pre : Str) (numChildren : Int) : List (Str × FSTreeNode) → (i : Int) → Str
  | [], _ => []
  | (_, childNode) :: children, i =>
    (if i < numChildren - 1 then pre ++ LOCAL_PREFIX ++ toStringHelper childNode (pre ++ TREE_PREFIX)
      else pre ++ LOCAL_LAST_PREFIX ++ toStringHelper childNode (pre ++ TREE_BLANK_PREFIX)) ++
      toStringLoop pre numChildren children (i + 1)
end

def toString (fs : FSMemory) : Str := toStringHelper fs.filetree []

end FSMemory

end DistributedSns.FSWrapper
