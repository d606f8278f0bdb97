import DistributedSns.Coordinator.Model
import DistributedSns.FSWrapper.Lemmas.Split

/-!
# The lock files

The coordinator keeps its locks in files `/cluster<c>/master` and `/cluster<c>/slave<s>` of an `FSMemory`.
Here that file system is read as a map from locks to the data of their files, and each operation the
coordinator calls becomes an update of the map.
-/

namespace DistributedSns.Coordinator

open Lib FSWrapper

/-! ## Locks and their paths -/

inductive Lock where
  | master (clusterId : Int)
  | slave (clusterId serverId : Int)
  deriving DecidableEq

namespace Lock

def clusterId : Lock → Int
  | master c => c
  | slave c _ => c

def path : Lock → Str
  | master c => getMasterFilepath c
  | slave c s => getSlaveFilepath c s

def clusterName : Str := "cluster".toList

def masterName : Str := "master".toList

def slaveName : Str := "slave".toList

def dir (l : Lock) : Str := clusterName ++ str l.clusterId

def file : Lock → Str
  | master _ => masterName
  | slave _ s => slaveName ++ str s

theorem CLUSTER_eq : CLUSTER = '/' :: clusterName := rfl

theorem MASTER_eq : MASTER = '/' :: masterName := rfl

theorem SLAVE_eq : SLAVE = '/' :: slaveName := rfl

theorem path_eq (l : Lock) : l.path = '/' :: (l.dir ++ '/' :: l.file) := by
  cases l with
  | master c =>
      simp only [path, dir, file, clusterId, getMasterFilepath, CLUSTER_eq, MASTER_eq, List.cons_append]
  | slave c s =>
      simp only [path, dir, file, clusterId, getSlaveFilepath, CLUSTER_eq, SLAVE_eq, List.cons_append,
        List.append_assoc]

theorem path_ne_nil (l : Lock) : l.path ≠ [] := by
  rw [path_eq]
  exact List.cons_ne_nil _ _

theorem slash_not_mem_append_str {a : Str} (ha : '/' ∉ a) (n : Int) : '/' ∉ a ++ str n := by
  simp only [List.mem_append, not_or]
  exact ⟨ha, not_mem_str (by decide) (by decide) n⟩

theorem slash_not_mem_dir (l : Lock) : '/' ∉ l.dir := slash_not_mem_append_str (by decide) _

theorem slash_not_mem_file (l : Lock) : '/' ∉ l.file := by
  cases l with
  | master c => exact (by decide : '/' ∉ masterName)
  | slave c s => exact slash_not_mem_append_str (by decide) s

theorem dir_ne_nil (l : Lock) : l.dir ≠ [] :=
  List.append_ne_nil_of_right_ne_nil _ (str_ne_nil _)

theorem file_ne_nil (l : Lock) : l.file ≠ [] := by
  cases l with
  | master c => exact (by decide : masterName ≠ [])
  | slave c s => exact List.append_ne_nil_of_right_ne_nil _ (str_ne_nil s)

theorem components_path (l : Lock) : components l.path = [l.dir, l.file] := by
  rw [path_eq, components_slash, components_append,
    components_of_slashFree l.slash_not_mem_dir l.dir_ne_nil,
    components_of_slashFree l.slash_not_mem_file l.file_ne_nil]
  rfl

theorem master_ne_slave_file (s : Int) : masterName ≠ slaveName ++ str s := by
  intro h
  have hhead := congrArg List.head? h
  rw [List.head?_append_of_ne_nil _ (by decide)] at hhead
  exact absurd hhead (by decide)

theorem eq_of_dir_file {l l' : Lock} (hd : l.dir = l'.dir) (hf : l.file = l'.file) : l = l' := by
  have hc : l.clusterId = l'.clusterId := str_inj (List.append_cancel_left hd)
  cases l with
  | master c =>
      cases l' with
      | master c' => rw [show c = c' from hc]
      | slave c' s' => exact absurd hf (master_ne_slave_file s')
  | slave c s =>
      cases l' with
      | master c' => exact absurd hf.symm (master_ne_slave_file s)
      | slave c' s' =>
          have hs : s = s' := str_inj (List.append_cancel_left hf)
          rw [show c = c' from hc, hs]

theorem path_inj {l l' : Lock} (h : l.path = l'.path) : l = l' := by
  have hc := congrArg components h
  simp only [components_path, List.cons.injEq, and_true] at hc
  exact eq_of_dir_file hc.1 hc.2

end Lock

/-- The lock which a server's path names while it has missed fewer than two heartbeats: its cluster's master lock or its
own slave lock. -/
def ZNode.lock (z : ZNode) (i : Nat) (k : Int) : Lock := if z.master then .master (i + 1) else .slave (i + 1) k

theorem ZNode.lock_clusterId (z : ZNode) (i : Nat) (k : Int) : (z.lock i k).clusterId = i + 1 := by
  unfold ZNode.lock
  split_ifs <;> rfl

theorem ZNode.lock_dir (z : ZNode) (i : Nat) (k : Int) : (z.lock i k).dir = (Lock.master ((i : Int) + 1)).dir := by
  rw [Lock.dir, ZNode.lock_clusterId]
  rfl

/-! ## The file system as a map of locks -/

/-- Folders at the first level, files at the second. -/
structure LockTree (fs : FSMemory) : Prop where
  coarse : fs.coarseMutex = true
  root : fs.filetree.folder = true
  dirs : ∀ d n, fs.filetree.getChild d = some n → n.folder = true
  files : ∀ d n f m, fs.filetree.getChild d = some n → n.getChild f = some m → m.folder = false

/-- A lock service on which no call holds the mutex. -/
structure LockService (fs : FSMemory) : Prop extends LockTree fs where
  free : fs.fsMutex = false

/-- The folder in which the lock's file lies. -/
def lockDir (fs : FSMemory) (l : Lock) : Option FSTreeNode := fs.filetree.getChild l.dir

/-- The data of the lock's file. -/
def lockData (fs : FSMemory) (l : Lock) : Option Str :=
  (lockDir fs l).bind fun n => (n.getChild l.file).map (·.data)

theorem lockDir_of_lockData {fs : FSMemory} {l : Lock} (h : (lockData fs l).isSome) :
    (lockDir fs l).isSome := by
  cases hd : lockDir fs l with
  | none => simp [lockData, hd] at h
  | some n => rfl

theorem lockDir_slave (fs : FSMemory) (c s : Int) : lockDir fs (.slave c s) = lockDir fs (.master c) := rfl

theorem LockService.init : LockService (.init true) where
  coarse := rfl
  free := rfl
  root := rfl
  dirs := by
    intro d n h
    rw [FSMemory.init, FSTreeNode.getChild_make] at h
    cases h
  files := by
    intro d n f m h
    rw [FSMemory.init, FSTreeNode.getChild_make] at h
    cases h

theorem lockDir_init (l : Lock) : lockDir (.init true) l = none :=
  FSTreeNode.getChild_make _ _ _ _

theorem lockData_init (l : Lock) : lockData (.init true) l = none := by
  rw [lockData, lockDir_init]
  rfl

/-- The file system after the folder of the lock has become `n`. -/
def putDir (fs : FSMemory) (l : Lock) (n : FSTreeNode) : FSMemory :=
  { fs with filetree := fs.filetree.setChild l.dir n }

/-- From `fs` the operation leads to `fs'`, whose locks are `m`. No folder of a cluster is ever removed. -/
structure LockStep (fs fs' : FSMemory) (m : Lock → Option Str) : Prop where
  service : LockService fs'
  data : lockData fs' = m
  dirs : ∀ l, (lockDir fs l).isSome → (lockDir fs' l).isSome

theorem LockStep.trans {fs fs' fs'' : FSMemory} {m m' : Lock → Option Str} (h : LockStep fs fs' m)
    (h' : LockStep fs' fs'' m') : LockStep fs fs'' m' where
  service := h'.service
  data := h'.data
  dirs l hl := h'.dirs l (h.dirs l hl)

theorem LockStep.refl {fs : FSMemory} (h : LockService fs) : LockStep fs fs (lockData fs) where
  service := h
  data := rfl
  dirs _ hl := hl

section putDir

variable {fs : FSMemory} {l : Lock} {n : FSTreeNode}

theorem LockService.putDir (h : LockService fs) (hn : n.folder = true)
    (hfiles : ∀ f m, n.getChild f = some m → m.folder = false) :
    LockService (Coordinator.putDir fs l n) where
  coarse := h.coarse
  free := h.free
  root := h.root
  dirs := by
    intro d n' hd
    by_cases he : d = l.dir
    · subst he
      simp only [Coordinator.putDir, FSTreeNode.getChild_setChild_self, Option.some.injEq] at hd
      rw [← hd, hn]
    · simp only [Coordinator.putDir, FSTreeNode.getChild_setChild_of_ne _ _ he] at hd
      exact h.dirs d n' hd
  files := by
    intro d n' f m hd hm
    by_cases he : d = l.dir
    · subst he
      simp only [Coordinator.putDir, FSTreeNode.getChild_setChild_self, Option.some.injEq] at hd
      subst hd
      exact hfiles f m hm
    · simp only [Coordinator.putDir, FSTreeNode.getChild_setChild_of_ne _ _ he] at hd
      exact h.files d n' f m hd hm

theorem lockDir_putDir (fs : FSMemory) (l l' : Lock) (n : FSTreeNode) :
    lockDir (putDir fs l n) l' = if l'.dir = l.dir then some n else lockDir fs l' := by
  simp only [lockDir, putDir]
  split_ifs with h
  · rw [h, FSTreeNode.getChild_setChild_self]
  · rw [FSTreeNode.getChild_setChild_of_ne _ _ h]

/-- A change of the folder which only touches the file of one lock is an update of the map. -/
theorem LockService.putFile (h : LockService fs) (hn : n.folder = true)
    (hfiles : ∀ f m, n.getChild f = some m → m.folder = false) {d : Option Str}
    (hself : (n.getChild l.file).map (·.data) = d)
    (hother : ∀ f, f ≠ l.file →
      (n.getChild f).map (·.data) = (lockDir fs l).bind fun n => (n.getChild f).map (·.data)) :
    LockStep fs (Coordinator.putDir fs l n) (Function.update (lockData fs) l d) where
  service := h.putDir hn hfiles
  data := by
    funext l'
    rw [lockData, lockDir_putDir]
    by_cases hl : l' = l
    · subst hl
      rw [if_pos rfl, Function.update_self]
      exact hself
    · rw [Function.update_of_ne hl]
      by_cases hd : l'.dir = l.dir
      · have hf : l'.file ≠ l.file := fun hf => hl (Lock.eq_of_dir_file hd hf)
        rw [if_pos hd, lockData, lockDir, hd]
        exact hother _ hf
      · rw [if_neg hd]
        rfl
  dirs := by
    intro l' hl'
    rw [lockDir_putDir]
    split_ifs
    · rfl
    · exact hl'

end putDir

/-! ## The operations -/

theorem getTreeNode_lookup {α : Type} (t : FSTreeNode) (d f : Str) (k : FSTreeNode → FSTreeNode × α) :
    ∃ t', getTreeNode t [d, f] false k =
      .ok (t', ((t.getChild d).bind (·.getChild f)).map fun n => (k n).2) := by
  cases hd : t.getChild d with
  | none => exact ⟨t, by simp [getTreeNode, hd]⟩
  | some n =>
      cases hf : n.getChild f with
      | none => exact ⟨_, by simp [getTreeNode, hd, hf, bind, Except.bind, pure, Except.pure]; rfl⟩
      | some m => exact ⟨_, by simp [getTreeNode, hd, hf, bind, Except.bind, pure, Except.pure]; rfl⟩

namespace LockTree

variable {fs : FSMemory} {l : Lock}

theorem fileExists_eq (_ : LockTree fs) : fs.fileExists l.path = .ok (lockData fs l).isSome := by
  obtain ⟨t, ht⟩ := getTreeNode_lookup fs.filetree l.dir l.file fun n => (n, ())
  simp only [FSMemory.fileExists, splitFilepath_eq, l.components_path, bind, Except.bind, ht, pure,
    Except.pure, Option.isSome_map, lockData, lockDir]
  cases fs.filetree.getChild l.dir <;> simp

theorem read_eq (h : LockTree fs) (data : Str) :
    fs.read l.path data 0 = .ok (match lockData fs l with
      | some d => (0, d)
      | none => (-1, data)) := by
  obtain ⟨t, ht⟩ := getTreeNode_lookup fs.filetree l.dir l.file fun n => (n, n)
  simp only [FSMemory.read, splitFilepath_eq, l.components_path, bind, Except.bind, ht, lockData, lockDir]
  cases hd : fs.filetree.getChild l.dir with
  | none => rfl
  | some n =>
      cases hf : n.getChild l.file with
      | none => simp [hf, pure, Except.pure]
      | some m =>
          have hm := h.files _ _ _ _ hd hf
          simp [hf, hm, pure, Except.pure]

/-- An operation which locks the mutex only succeeds if no call holds it. -/
theorem service_of_atParent (h : LockTree fs) {file : Str} {createDirectories : Bool}
    {k : Str → FSTreeNode → FSTreeNode × Int} {r : FSMemory × Int}
    (hr : fs.atParent file createDirectories k = .ok r) : LockService fs := by
  refine ⟨h, ?_⟩
  cases hm : fs.fsMutex with
  | false => rfl
  | true =>
      have hlock : fs.lock = .error .deadlock := by simp [FSMemory.lock, h.coarse, hm]
      rw [FSMemory.atParent, hlock] at hr
      cases hr

end LockTree

namespace LockService

variable {fs : FSMemory} {l : Lock}

theorem lock_eq (h : LockService fs) : fs.lock = .ok { fs with fsMutex := true } := by
  simp [FSMemory.lock, h.coarse, h.free]

theorem unlock_eq (h : LockService fs) (t : FSTreeNode) :
    { fs with fsMutex := true, filetree := t }.unlock = { fs with filetree := t } := by
  simp [FSMemory.unlock, h.coarse, h.free]

/-- The folder of the lock, made if it is missing. -/
def dirNode (fs : FSMemory) (l : Lock) : FSTreeNode :=
  (lockDir fs l).getD (.make l.dir true [])

theorem folder_dirNode (h : LockService fs) : (dirNode fs l).folder = true := by
  cases hd : lockDir fs l with
  | none => simp [dirNode, hd]
  | some n => simpa [dirNode, hd] using h.dirs _ _ hd

theorem getChild_dirNode (f : Str) :
    (dirNode fs l).getChild f = (lockDir fs l).bind (·.getChild f) := by
  cases hd : lockDir fs l with
  | none => simp [dirNode, hd]
  | some n => simp [dirNode, hd]

theorem data_dirNode (fs : FSMemory) (l : Lock) (f : Str) :
    ((dirNode fs l).getChild f).map (·.data) =
      (lockDir fs l).bind fun n => (n.getChild f).map (·.data) := by
  rw [getChild_dirNode]
  cases lockDir fs l <;> rfl

theorem files_dirNode (h : LockService fs) {f : Str} {m : FSTreeNode}
    (hm : (dirNode fs l).getChild f = some m) : m.folder = false := by
  rw [getChild_dirNode] at hm
  obtain ⟨n, hn, hm⟩ := Option.bind_eq_some_iff.mp hm
  exact h.files _ _ _ _ hn hm

/-- Writing the file of a lock into its folder is an update of the map. -/
theorem setFile (h : LockService fs) {m : FSTreeNode} (hm : m.folder = false) :
    LockStep fs (Coordinator.putDir fs l ((dirNode fs l).setChild l.file m))
      (Function.update (lockData fs) l (some m.data)) := by
  have hfolder : ((dirNode fs l).setChild l.file m).folder = true := by
    rw [FSTreeNode.folder_setChild, h.folder_dirNode]
  refine h.putFile hfolder (fun f m' hf => ?_) ?_ fun f hf => ?_
  · by_cases he : f = l.file
    · rw [he, FSTreeNode.getChild_setChild_self, Option.some.injEq] at hf
      rw [← hf, hm]
    · rw [FSTreeNode.getChild_setChild_of_ne _ _ he] at hf
      exact h.files_dirNode hf
  · rw [FSTreeNode.getChild_setChild_self]
    rfl
  · rw [FSTreeNode.getChild_setChild_of_ne _ _ hf, data_dirNode]

/-- A folder put back unchanged leaves the map as it is. -/
theorem keepDir (h : LockService fs) :
    LockStep fs (Coordinator.putDir fs l (dirNode fs l)) (lockData fs) := by
  have hstep := h.putFile (l := l) (d := lockData fs l) h.folder_dirNode (fun f m hm => h.files_dirNode hm)
    (data_dirNode fs l l.file) (fun f _ => data_dirNode fs l f)
  rwa [Function.update_eq_self] at hstep

theorem atParent_eq (h : LockService fs) {createDirectories : Bool}
    (hdir : createDirectories = true ∨ (lockDir fs l).isSome) (k : Str → FSTreeNode → FSTreeNode × Int) :
    fs.atParent l.path createDirectories k =
      .ok (Coordinator.putDir fs l (k l.file (dirNode fs l)).1, (k l.file (dirNode fs l)).2) := by
  have hwalk : getTreeNode fs.filetree [l.dir] createDirectories (k l.file) =
      .ok (fs.filetree.setChild l.dir (k l.file (dirNode fs l)).1, some (k l.file (dirNode fs l)).2) := by
    cases hd : lockDir fs l with
    | some n =>
        have hn : fs.filetree.getChild l.dir = some n := hd
        simp [getTreeNode, hn, dirNode, hd, bind, Except.bind, pure, Except.pure]
    | none =>
        have hn : fs.filetree.getChild l.dir = none := hd
        have hcreate : createDirectories = true := by simpa [hd] using hdir
        simp [getTreeNode, hn, hcreate, FSTreeNode.createChild_of_folder h.root, dirNode, hd, bind,
          Except.bind, pure, Except.pure]
  simp only [FSMemory.atParent, h.lock_eq, l.path_ne_nil, splitFilepath_eq, l.components_path, popBack, bind,
    Except.bind, pure, Except.pure, ↓reduceIte, List.getLast?, List.getLast, List.dropLast, hwalk,
    h.unlock_eq, Option.getD_some]
  rfl

theorem create_of_none (h : LockService fs) (hl : lockData fs l = none) :
    ∃ fs', fs.create l.path false true = .ok (fs', 0) ∧
      LockStep fs fs' (Function.update (lockData fs) l (some [])) := by
  have hchild : (dirNode fs l).getChild l.file = none := by
    have := data_dirNode fs l l.file
    rw [show ((lockDir fs l).bind fun n => (n.getChild l.file).map (·.data)) = none from hl] at this
    simpa using this
  refine ⟨_, ?_, h.setFile (l := l) (m := .make l.file false []) rfl⟩
  simp [FSMemory.create, h.atParent_eq (Or.inl rfl), FSMemory.createIn, hchild,
    FSTreeNode.createChild_of_folder h.folder_dirNode]

theorem create_of_some (h : LockService fs) {d : Str} (hl : lockData fs l = some d) :
    ∃ fs', fs.create l.path false true = .ok (fs', -1) ∧
      LockStep fs fs' (lockData fs) := by
  obtain ⟨m, hchild⟩ : ∃ m, (dirNode fs l).getChild l.file = some m := by
    have := data_dirNode fs l l.file
    rw [show ((lockDir fs l).bind fun n => (n.getChild l.file).map (·.data)) = some d from hl] at this
    obtain ⟨m, hm, _⟩ := Option.map_eq_some_iff.mp this
    exact ⟨m, hm⟩
  refine ⟨_, ?_, h.keepDir (l := l)⟩
  simp [FSMemory.create, h.atParent_eq (Or.inl rfl), FSMemory.createIn, hchild]

theorem write_eq (h : LockService fs) (hdir : (lockDir fs l).isSome) (data : Str) :
    ∃ fs', fs.write l.path data false true = .ok (fs', 0) ∧
      LockStep fs fs' (Function.update (lockData fs) l (some data)) := by
  cases hm : (dirNode fs l).getChild l.file with
  | some m =>
      have hfile := h.files_dirNode hm
      refine ⟨_, ?_, h.setFile (l := l) (m := { m with data := data }) hfile⟩
      simp [FSMemory.write, h.atParent_eq (Or.inr hdir), FSMemory.writeIn, hm, hfile]
  | none =>
      refine ⟨_, ?_, h.setFile (l := l) (m := .make l.file false data) rfl⟩
      simp [FSMemory.write, h.atParent_eq (Or.inr hdir), FSMemory.writeIn, hm,
        FSTreeNode.createChild_of_folder h.folder_dirNode]

theorem remove_eq (h : LockService fs) (hdir : (lockDir fs l).isSome) :
    ∃ fs' code, fs.remove l.path = .ok (fs', code) ∧
      LockStep fs fs' (Function.update (lockData fs) l none) := by
  have hfolder : ((dirNode fs l).removeChild l.file).1.folder = true := h.folder_dirNode
  refine ⟨_, _, h.atParent_eq (Or.inr hdir) _, h.putFile hfolder (fun f m hf => ?_) ?_ fun f hf => ?_⟩
  · by_cases he : f = l.file
    · rw [he, FSTreeNode.getChild_removeChild_self] at hf
      cases hf
    · rw [FSTreeNode.getChild_removeChild_of_ne _ he] at hf
      exact h.files_dirNode hf
  · rw [FSTreeNode.getChild_removeChild_self]
    rfl
  · rw [FSTreeNode.getChild_removeChild_of_ne _ hf, data_dirNode]

end LockService

end DistributedSns.Coordinator
