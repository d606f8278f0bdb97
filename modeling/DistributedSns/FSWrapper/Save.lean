import DistributedSns.FSWrapper.Local
import DistributedSns.FSWrapper.Memory

/-!
# Saving the file tree (`FSMemory::saveToDisk`)

The disk is that of `FSLocal`. An exception leaves behind what has been written before it, so the disk is returned
next to the result.
-/

namespace DistributedSns.FSWrapper

namespace Disk

/-- `mkdir(path, 0777)`, which also fails if there is a folder already. -/
def mkdir (disk : Disk) (path : Str) : Disk × Int :=
  match disk.createDirectory path with
  | .ok (disk, true) => (disk, 0)
  | _ => (disk, -1)

/-- `ofstream file(path); file << data;`, where nothing is written if the file cannot be opened. -/
def writeFile (disk : Disk) (path data : Str) : Disk :=
  match disk.openOut path true with
  | some (disk, location) => disk.append location data
  | none => disk

end Disk

namespace FSMemory

mutual
def saveHelper : FSTreeNode → (dir : Str) → Disk → Disk × Except Fault Unit
  | ⟨folder, name, data, children⟩, dir, disk =>
    if !folder then (disk.writeFile (dir ++ ['/'] ++ name) data, .ok ())
    else
      let nextDir := dir ++ ['/'] ++ name
      let (disk, status) := disk.mkdir nextDir
      if status < 0 then (disk, .error .exception) else saveChildren children nextDir disk

/-- The loop over the children. -/
def saveChildren : List (Str × FSTreeNode) → (nextDir : Str) → Disk → Disk × Except Fault Unit
  | [], _, disk => (disk, .ok ())
  | (_, childNode) :: children, nextDir, disk =>
    match saveHelper childNode nextDir disk with
    | (disk, .ok ()) => saveChildren children nextDir disk
    | (disk, .error e) => (disk, .error e)
end

def saveToDisk (fs : FSMemory) (dir : Str) (disk : Disk) : Disk × Except Fault Int :=
  match disk.status dir with
  | some .folder =>
    match saveHelper fs.filetree dir disk with
    | (disk, .ok ()) => (disk, .ok 0)
    | (disk, .error e) => (disk, .error e)
  | _ => (disk, .ok (-1))

end FSMemory

end DistributedSns.FSWrapper
