import DistributedSns.FSWrapper.SaveTheorems
import DistributedSns.Shell.SplitTheorems

/-!
# What the shell is for

An interpreter of commands over a store of paths. It knows neither trees nor streams: a listing is told by the store
alone, and saving copies the store to the disk.
-/

namespace DistributedSns.Shell

open Lib FSWrapper
open FSWrapper.FSTreeNode (label)

/-! ## Listings -/

/-- The outline of the store below a path whose last name is `name`: children by name, their data left out. -/
inductive Listed : PathMap Str Char → (name : Str) → Outline Char → Prop where
  | file {m : PathMap Str Char} {name data : Str} (h : m [] = some (.file data)) :
      Listed m name (.node (label false name) [])
  | folder {m : PathMap Str Char} {name : Str} {children : List (Str × Outline Char)} (h : m [] = some .folder)
      (sorted : Assoc.Sorted children) (names : ∀ n, (m [n]).isSome ↔ (children.lookup n).isSome)
      (below : ∀ e ∈ children, Listed (m.sub [e.1]) e.1 e.2) :
      Listed m name (.node (label true name) (children.map Prod.snd))

open Classical in
/-- The text of the whole store. -/
noncomputable def listing (m : PathMap Str Char) : Str :=
  if h : ∃ o, Listed m ROOT o then (Outline.lines markers h.choose).flatMap (· ++ ['\n']) else []

/-! ## Commands -/

inductive Command where
  | ls
  | help
  | mkdir (path : Str)
  | touch (path : Str)
  | test (path : Str)
  | cat (path : Str)
  | rm (path : Str)
  | createdirs (on : Bool)
  | save (dir : Str)
  | write (path data : Str)
  /-- `cp` and `rename`, which are not written yet -/
  | unfinished
  | invalid

def Command.ofTokens : List Str → Command
  | [command] =>
    if command = "ls".toList then .ls
    else if command = "help".toList then .help
    else .invalid
  | [command, arg1] =>
    if command = "mkdir".toList then .mkdir arg1
    else if command = "touch".toList then .touch arg1
    else if command = "test".toList then .test arg1
    else if command = "cat".toList then .cat arg1
    else if command = "rm".toList then .rm arg1
    else if command = "createdirs".toList then
      if arg1 = "true".toList then .createdirs true
      else if arg1 = "false".toList then .createdirs false
      else .invalid
    else if command = "save".toList then .save arg1
    else .invalid
  | [command, arg1, arg2] =>
    if command = "write".toList then .write arg1 arg2
    else if command = "cp".toList then .unfinished
    else if command = "rename".toList then .unfinished
    else .invalid
  | _ => .invalid

/-! ## The interpreter -/

structure Store where
  files : PathMap Str Char := .empty
  createDirs : Bool := false
  disk : Disk

namespace Store

def report : PathMap.Result Char → Str
  | .code success => if success < 0 then FAILED else []
  | .data success text => if success = 0 then text ++ ['\n'] else READING_FAILED
  | .found b => if b then EXISTS else NOT_EXISTS

/-- A change of the store fails for the empty path. -/
def change (s : Store) (path : Str) (op : PathMap.Op Char) : Store × Str :=
  if path = [] then (s, FAILED)
  else
    let r := s.files.call ⟨components path, op⟩
    ({ s with files := r.1 }, report r.2)

/-- The store is copied into a folder, below the name of its root. -/
def save (s : Store) (dir : Str) : Store × Str :=
  match s.disk.find dir with
  | some location =>
    if s.disk location = some .folder then
      ({ s with disk := PathMap.graft s.disk (location ++ [ROOT]) s.files }, [])
    else (s, FAILED)
  | none => (s, FAILED)

noncomputable def exec (s : Store) : Command → Store × Str
  | .ls => (s, listing s.files)
  | .help => (s, HELP)
  | .mkdir path => s.change path (.create true s.createDirs)
  | .touch path => s.change path (.create false s.createDirs)
  | .test path => (s, report (s.files.call ⟨components path, .fileExists⟩).2)
  | .cat path => (s, report (s.files.call ⟨components path, .read [] 0⟩).2)
  | .rm path => s.change path .remove
  | .createdirs on => ({ s with createDirs := on }, [])
  | .save dir => s.save dir
  | .write path data => s.change path (.write data s.createDirs false)
  | .unfinished => (s, [])
  | .invalid => (s, INVALID)

/-- The path has a component if it is not empty, and there is no file where a folder would be made. -/
def Changes (s : Store) (path : Str) (op : PathMap.Op Char) : Prop :=
  path = [] ∨ s.files.Admissible ⟨components path, op⟩

/-- Only plain names are saved, and there is nothing of the root's name in the folder. -/
structure Saves (s : Store) (location : List Str) : Prop where
  free (q : List Str) : s.disk (location ++ ROOT :: q) = none
  plain (p : List Str) (h : (s.files p).isSome) (t : Str) (ht : t ∈ p) : PlainName t

/-- The commands the interpreter speaks about. -/
def Admissible (s : Store) : Command → Prop
  | .mkdir path => s.Changes path (.create true s.createDirs)
  | .touch path => s.Changes path (.create false s.createDirs)
  | .rm path => s.Changes path .remove
  | .write path data => s.Changes path (.write data s.createDirs false)
  | .save dir => ∀ location, s.disk.find dir = some location → s.disk location = some .folder → s.Saves location
  | _ => True

/-- A session and all it prints. -/
noncomputable def run (s : Store) : List Command → Store × Str
  | [] => (s, [])
  | c :: cs =>
    let r := s.exec c
    let rs := run r.1 cs
    (rs.1, PROMPT ++ r.2 ++ rs.2)

/-- Every command is admissible when it is given. -/
def AdmissibleSession (s : Store) : List Command → Prop
  | [] => True
  | c :: cs => s.Admissible c ∧ AdmissibleSession (s.exec c).1 cs

end Store

end DistributedSns.Shell
