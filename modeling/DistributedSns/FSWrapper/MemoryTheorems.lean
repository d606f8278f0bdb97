import DistributedSns.FSWrapper.Lemmas.Split
import DistributedSns.FSWrapper.Lemmas.Tree

/-!
# `FSMemory` refines a store addressed by paths

Every call returns what the same call of the store of its tree returns, and leaves a tree of the store after this
call.
-/

namespace DistributedSns.FSWrapper

open Lib

/-! ## Calls -/

namespace FSMemory

def call (fs : FSMemory) (c : PathMap.Call Str Char) : Except Fault (FSMemory × PathMap.Result Char) := do
  match c.op with
  | .create folder createDirectories =>
    let (fs, success) ← fs.create c.path folder createDirectories
    return (fs, .code success)
  | .write data createDirectories overwrite =>
    let (fs, success) ← fs.write c.path data createDirectories overwrite
    return (fs, .code success)
  | .read data offset =>
    let (success, data) ← fs.read c.path data offset
    return (fs, .data success data)
  | .fileExists => return (fs, .found (← fs.fileExists c.path))
  | .remove =>
    let (fs, success) ← fs.remove c.path
    return (fs, .code success)

def calls (fs : FSMemory) : List (PathMap.Call Str Char) → Except Fault (FSMemory × List (PathMap.Result Char))
  | [] => .ok (fs, [])
  | c :: cs => do
    let (fs, r) ← fs.call c
    let (fs, rs) ← fs.calls cs
    return (fs, r :: rs)

end FSMemory

/-- The call of the store. -/
def toComponents (c : PathMap.Call Str Char) : PathMap.Call (List Str) Char where
  path := components c.path
  op := c.op

/-! ## In the parent folder -/

section

open FSTreeNode

/-- A new child which only differs from what was there in its own entry. -/
theorem files_setChild_update {node child : FSTreeNode} {a : Str}
    (h : ∀ q, q ≠ [] → child.files q = node.files (a :: q)) :
    (node.setChild a child).files = Function.update node.files [a] (some child.entry) := by
  rw [files_setChild]
  funext p
  by_cases hp : [a] <+: p
  · obtain ⟨q, rfl⟩ := hp
    rw [PathMap.graft_append]
    by_cases hq : q = []
    · subst hq
      rw [List.append_nil, Function.update_self]
      rfl
    · rw [Function.update_of_ne (by simpa using hq)]
      exact h q hq
  · rw [PathMap.graft_of_not_below hp, Function.update_of_ne]
    rintro rfl
    exact hp List.prefix_rfl

theorem files_setChild_make {node : FSTreeNode} {a : Str} (ha : node.getChild a = none) (folder : Bool)
    (data : Str) : (node.setChild a (make a folder data)).files =
      Function.update node.files [a] (some (if folder then .folder else .file data)) := by
  apply files_setChild_update
  intro q hq
  rw [files_make, if_neg hq, files_cons, ha, Option.bind_none]

theorem isFolder_entry (node : FSTreeNode) : PathMap.isFolder (some node.entry) = node.folder := by
  cases h : node.folder <;> simp [entry, h, PathMap.isFolder]

theorem createIn_refines (node : FSTreeNode) (a : Str) (folder : Bool) :
    ((FSMemory.createIn folder a node).1.files, (FSMemory.createIn folder a node).2) =
      node.files.create [a] folder false := by
  simp only [PathMap.create, PathMap.prepare, Bool.false_eq_true, ↓reduceIte, List.dropLast_singleton, files_nil,
    files_cons, isFolder_entry, FSMemory.createIn]
  cases ha : node.getChild a with
  | some child => simp
  | none =>
      cases hf : node.folder with
      | false => simp [createChild, hf]
      | true =>
          simp only [createChild_of_folder hf a (b := folder) (d := []) (fun _ => rfl), files_setChild_make ha]
          rfl

theorem writeIn_refines (node : FSTreeNode) (a data : Str) (overwrite : Bool) :
    ((FSMemory.writeIn data overwrite a node).1.files, (FSMemory.writeIn data overwrite a node).2) =
      node.files.write [a] data false overwrite := by
  simp only [PathMap.write, PathMap.prepare, Bool.false_eq_true, ↓reduceIte, List.dropLast_singleton, files_nil,
    files_cons, isFolder_entry, FSMemory.writeIn]
  cases ha : node.getChild a with
  | some next =>
      cases hf : next.folder with
      | true => simp [entry, hf]
      | false =>
          have hfiles := @files_setChild_update node
            { next with data := if overwrite then data else next.data ++ data } a (by
              intro q hq
              cases q with
              | nil => exact absurd rfl hq
              | cons n q => rw [files_cons, files_cons, ha]; exact files_cons.symm)
          simp only [entry, hf, Bool.false_eq_true, ↓reduceIte] at hfiles
          simp only [Bool.false_eq_true, ↓reduceIte, Option.bind_some, entry, hf, hfiles]
  | none =>
      cases hf : node.folder with
      | false => simp [createChild, hf]
      | true =>
          simp only [createChild_of_folder hf a (b := false) (d := data) (by simp), files_setChild_make ha]
          rfl

theorem removeChild_refines (node : FSTreeNode) (a : Str) :
    ((node.removeChild a).1.files, (node.removeChild a).2) = node.files.remove [a] := by
  have hfiles : (node.removeChild a).1.files = fun q => if [a] <+: q then none else node.files q := by
    funext p
    cases p with
    | nil => rfl
    | cons n p =>
        rw [files_cons, files_cons]
        by_cases hn : n = a
        · subst hn
          rw [getChild_removeChild_self, if_pos (by simp)]
          rfl
        · rw [getChild_removeChild_of_ne _ hn, if_neg (by simpa using fun h => hn h.symm)]
  rw [hfiles, PathMap.remove, files_cons, removeChild]
  cases ha : node.getChild a with
  | some next => rfl
  | none =>
      simp only [Option.isSome_none, Bool.false_eq_true, ↓reduceIte, Option.bind_none, Prod.mk.injEq, and_true]
      funext p
      split_ifs with hp
      · obtain ⟨q, rfl⟩ := hp
        simp [files_cons, ha]
      · rfl

end

/-! ## Calls on a free mutex -/

namespace FSMemory

variable {fs : FSMemory}

/-- The store of the tree. -/
def files (fs : FSMemory) : PathMap Str Char := fs.filetree.files

theorem withLock (hfree : fs.fsMutex = false) : ∃ fs', fs.lock = .ok fs' ∧ fs'.filetree = fs.filetree ∧
    ∀ t, { fs' with filetree := t }.unlock = { fs with filetree := t } := by
  cases hc : fs.coarseMutex with
  | false => exact ⟨fs, by simp [lock, hc], rfl, fun t => by simp [unlock, hc]⟩
  | true => exact ⟨{ fs with fsMutex := true }, by simp [lock, hc, hfree], rfl, fun t => by simp [unlock, hc, hfree]⟩

/-- What is done in the parent folder is the operation `f` of the store in which the parent is looked for. -/
theorem atParent_refines (hfree : fs.fsMutex = false) {file a : Str} {p : List Str}
    (hp : components file = p ++ [a]) (createDirectories : Bool)
    (habove : createDirectories = true → fs.files.NoFileAbove (p ++ [a]))
    {k : Str → FSTreeNode → FSTreeNode × Int} {f : PathMap Str Char → List Str → PathMap Str Char × Int}
    (hk : ∀ n : FSTreeNode, ((k a n).1.files, (k a n).2) = f n.files [a])
    (hf : ∀ m : PathMap Str Char, f m (p ++ [a]) = (m.graft p (f (m.sub p) [a]).1, (f (m.sub p) [a]).2))
    (hnone : fs.files p = none → f fs.files (p ++ [a]) = (fs.files, -1)) :
    ∃ t code, fs.atParent file createDirectories k = .ok ({ fs with filetree := t }, code) ∧
      (t.files, code) = f (fs.files.prepare (p ++ [a]) createDirectories) (p ++ [a]) := by
  obtain ⟨fs', hlock, htree, hunlock⟩ := withLock hfree
  have hne : file ≠ [] := by
    rintro rfl
    simp at hp
  have hparent {t : FSTreeNode} {o : Option Int}
      (hwalk : getTreeNode fs.filetree p createDirectories (k a) = .ok (t, o)) :
      fs.atParent file createDirectories k = .ok ({ fs with filetree := t }, o.getD (-1)) := by
    simp only [atParent, hlock, ok_bind, hne, ↓reduceIte, splitFilepath_eq, hp, popBack, List.getLast?_concat,
      List.dropLast_concat, htree, hwalk, hunlock]
    rfl
  -- the parent has been found
  have hfound (m : PathMap Str Char) {t n : FSTreeNode} (hn : n.files = m.sub p)
      (ht : t.files = m.graft p (k a n).1.files) : (t.files, (k a n).2) = f m (p ++ [a]) := by
    have hkn := hk n
    rw [hn] at hkn
    rw [ht, hf m, ← hkn]
  rw [PathMap.prepare, List.dropLast_concat]
  cases createDirectories with
  | true =>
      have hprefix (q : List Str) (d : Str) (hq : q <+: p) : fs.filetree.files q ≠ some (.file d) :=
        habove rfl q d (by simpa using hq)
      obtain ⟨t, n, hwalk, hn, ht⟩ := getTreeNode_create fs.filetree p (k a) hprefix
      exact ⟨t, _, hparent hwalk, hfound _ hn ht⟩
  | false =>
      obtain ⟨t, hwalk, ht⟩ := getTreeNode_eq fs.filetree p (k a)
      refine ⟨t, _, hparent hwalk, ?_⟩
      cases hn : fs.filetree.find? p with
      | some n =>
          rw [hn] at ht
          exact hfound _ (FSTreeNode.files_of_find? hn).symm ht
      | none =>
          rw [hn] at ht
          have hfiles : fs.files p = none := FSTreeNode.files_eq_none.mpr hn
          simp only [Bool.false_eq_true, ↓reduceIte, hnone hfiles, ht, Option.map_none, Option.getD_none]
          rfl

theorem closed_files (fs : FSMemory) : fs.files.Closed := fs.filetree.closed_files

theorem eq_none_of_parent {p : List Str} (h : fs.files p = none) (a : Str) : fs.files (p ++ [a]) = none := by
  by_contra hne
  have := fs.closed_files p [a] (Option.ne_none_iff_isSome.mp hne)
  rw [h] at this
  cases this

theorem create_refines (hfree : fs.fsMutex = false) {file a : Str} {p : List Str}
    (hp : components file = p ++ [a]) (folder createDirectories : Bool)
    (habove : createDirectories = true → fs.files.NoFileAbove (p ++ [a])) :
    ∃ t code, fs.create file folder createDirectories = .ok ({ fs with filetree := t }, code) ∧
      (t.files, code) = fs.files.create (p ++ [a]) folder createDirectories := by
  obtain ⟨t, code, hr, hfiles⟩ := atParent_refines hfree hp createDirectories habove
    (f := fun m p => m.create p folder false) (fun n => createIn_refines n a folder)
    (fun m => PathMap.create_append folder) (by
      intro hnone
      simp [PathMap.create, PathMap.prepare, hnone, PathMap.isFolder])
  refine ⟨t, code, hr, hfiles.trans ?_⟩
  cases createDirectories with
  | false => rfl
  | true =>
      rw [PathMap.create_makeFolders fs.closed_files (habove rfl), PathMap.prepare, List.dropLast_concat, if_pos rfl]

theorem write_refines (hfree : fs.fsMutex = false) {file a : Str} {p : List Str}
    (hp : components file = p ++ [a]) (data : Str) (createDirectories overwrite : Bool)
    (habove : createDirectories = true → fs.files.NoFileAbove (p ++ [a])) :
    ∃ t code, fs.write file data createDirectories overwrite = .ok ({ fs with filetree := t }, code) ∧
      (t.files, code) = fs.files.write (p ++ [a]) data createDirectories overwrite := by
  obtain ⟨t, code, hr, hfiles⟩ := atParent_refines hfree hp createDirectories habove
    (f := fun m p => m.write p data false overwrite) (fun n => writeIn_refines n a data overwrite)
    (fun m => PathMap.write_append data overwrite) (by
      intro hnone
      simp [PathMap.write, PathMap.prepare, hnone, eq_none_of_parent hnone, PathMap.isFolder])
  refine ⟨t, code, hr, hfiles.trans ?_⟩
  cases createDirectories with
  | false => rfl
  | true =>
      rw [PathMap.write_makeFolders fs.closed_files (habove rfl), PathMap.prepare, List.dropLast_concat, if_pos rfl]

theorem remove_refines (hfree : fs.fsMutex = false) {file a : Str} {p : List Str}
    (hp : components file = p ++ [a]) :
    ∃ t code, fs.remove file = .ok ({ fs with filetree := t }, code) ∧
      (t.files, code) = fs.files.remove (p ++ [a]) := by
  obtain ⟨t, code, hr, hfiles⟩ := atParent_refines hfree hp false (by simp)
    (k := fun actualFile node => node.removeChild actualFile) (f := fun m p => m.remove p)
    (fun n => removeChild_refines n a) (fun m => PathMap.remove_append) (by
      intro hnone
      simp [PathMap.remove, eq_none_of_parent hnone])
  exact ⟨t, code, hr, hfiles⟩

theorem fileExists_refines (fs : FSMemory) (file : Str) :
    fs.fileExists file = .ok (fs.files (components file)).isSome := by
  obtain ⟨t, hwalk, -⟩ := getTreeNode_eq fs.filetree (components file) fun node => (node, ())
  simp only [fileExists, splitFilepath_eq, ok_bind, hwalk, Option.isSome_map, files, FSTreeNode.files]
  rfl

theorem read_refines (fs : FSMemory) (file data : Str) (offset : Int) :
    fs.read file data offset = .ok (fs.files.read (components file) data offset) := by
  obtain ⟨t, hwalk, -⟩ := getTreeNode_eq fs.filetree (components file) fun node => (node, node)
  simp only [read, splitFilepath_eq, ok_bind, hwalk, PathMap.read, files, FSTreeNode.files]
  cases fs.filetree.find? (components file) with
  | none => rfl
  | some node =>
      cases hf : node.folder with
      | true => simp [hf, FSTreeNode.entry, pure, Except.pure]
      | false =>
          simp only [Option.map_some, hf, FSTreeNode.entry, Bool.not_false, Bool.true_and, Bool.false_eq_true,
            ↓reduceIte, Bool.and_eq_true, decide_eq_true_eq]
          split_ifs <;> rfl

/-- Every call returns, and does what the call of the store does. -/
theorem call_refines (hfree : fs.fsMutex = false) {c : PathMap.Call Str Char}
    (h : PathMap.Admissible fs.files (toComponents c)) :
    ∃ t, fs.call c = .ok ({ fs with filetree := t }, (fs.files.call (toComponents c)).2) ∧
      t.files = (fs.files.call (toComponents c)).1 := by
  obtain ⟨p, a, hp⟩ : ∃ p a, components c.path = p ++ [a] :=
    ⟨_, _, (List.dropLast_concat_getLast h.path).symm⟩
  have habove (hc : c.op.createDirectories = true) : fs.files.NoFileAbove (p ++ [a]) := hp ▸ h.folders hc
  have hself : ({ fs with filetree := fs.filetree } : FSMemory) = fs := rfl
  unfold call PathMap.call toComponents
  rw [hp]
  cases hop : c.op with
  | create folder createDirectories =>
      rw [hop] at habove
      obtain ⟨t, code, hr, hfiles⟩ := create_refines hfree hp folder createDirectories habove
      exact ⟨t, by simp only [hr, ok_bind, ← hfiles]; rfl, by simp only [← hfiles]⟩
  | write data createDirectories overwrite =>
      rw [hop] at habove
      obtain ⟨t, code, hr, hfiles⟩ := write_refines hfree hp data createDirectories overwrite habove
      exact ⟨t, by simp only [hr, ok_bind, ← hfiles]; rfl, by simp only [← hfiles]⟩
  | read data offset =>
      refine ⟨fs.filetree, ?_, rfl⟩
      simp only [read_refines, hp, ok_bind]
      rfl
  | fileExists =>
      refine ⟨fs.filetree, ?_, rfl⟩
      simp only [fileExists_refines, hp, ok_bind]
      rfl
  | remove =>
      obtain ⟨t, code, hr, hfiles⟩ := remove_refines hfree hp
      exact ⟨t, by simp only [hr, ok_bind, ← hfiles]; rfl, by simp only [← hfiles]⟩

theorem calls_refine (hfree : fs.fsMutex = false) {cs : List (PathMap.Call Str Char)}
    (h : PathMap.AdmissibleCalls fs.files (cs.map toComponents)) :
    ∃ t, fs.calls cs = .ok ({ fs with filetree := t }, (fs.files.calls (cs.map toComponents)).2) ∧
      t.files = (fs.files.calls (cs.map toComponents)).1 := by
  induction cs generalizing fs with
  | nil => exact ⟨fs.filetree, rfl, rfl⟩
  | cons c cs ih =>
      obtain ⟨hc, hcs⟩ := h
      obtain ⟨t, hr, ht⟩ := call_refines hfree hc
      have hfiles : ({ fs with filetree := t } : FSMemory).files = (fs.files.call (toComponents c)).1 := ht
      rw [← hfiles] at hcs
      have hfree' : ({ fs with filetree := t } : FSMemory).fsMutex = false := hfree
      obtain ⟨t', hrs, ht'⟩ := ih hfree' hcs
      rw [hfiles] at hrs ht'
      refine ⟨t', ?_, ht'⟩
      simp only [calls, hr, ok_bind, hrs, List.map_cons, PathMap.calls]
      rfl

/-! ## Runs -/

theorem files_init (coarseMutex : Bool) : (init coarseMutex).files = PathMap.empty := by
  funext p
  exact FSTreeNode.files_make true [] p

/-- From the empty file system on every call returns what the store returns. After the calls the tree is that of
the store; a further call which fails changes nothing, and no call changes a path it does not affect. -/
theorem memory_refines (coarseMutex : Bool) {cs : List (PathMap.Call Str Char)}
    (h : PathMap.AdmissibleCalls PathMap.empty (cs.map toComponents)) :
    ∃ fs, (init coarseMutex).calls cs = .ok (fs, (PathMap.empty.calls (cs.map toComponents)).2) ∧
      fs.files = (PathMap.empty.calls (cs.map toComponents)).1 ∧
      ∀ c, PathMap.Admissible fs.files (toComponents c) → ∃ fs' r, fs.call c = .ok (fs', r) ∧
        (fs'.files, r) = fs.files.call (toComponents c) ∧ (r.failed → fs'.files = fs.files) ∧
        ∀ q, ¬ PathMap.Affects fs.files (toComponents c) q → fs'.files q = fs.files q := by
  rw [← files_init coarseMutex] at h ⊢
  obtain ⟨t, hr, ht⟩ := @calls_refine (init coarseMutex) rfl cs h
  refine ⟨_, hr, ht, ?_⟩
  intro c hc
  obtain ⟨t', hr', ht'⟩ := @call_refines { init coarseMutex with filetree := t } rfl c hc
  refine ⟨_, _, hr', congrArg (·, _) ht', ?_, ?_⟩
  · intro hfailed
    exact ht'.trans (PathMap.call_of_failed hfailed)
  · intro q hq
    exact (congrFun ht' q).trans (PathMap.call_of_not_affects hq)

/-- A file is made with its folder, written, read from an offset, and removed with its folder. -/
def fileCalls : List (PathMap.Call Str Char) :=
  [⟨"/a/b".toList, .create false true⟩, ⟨"a//b".toList, .write "xyz".toList false false⟩,
    ⟨"/a/b".toList, .create false false⟩, ⟨"/a/b".toList, .read [] 1⟩, ⟨"/a".toList, .remove⟩,
    ⟨"/a/b".toList, .fileExists⟩]

theorem memory_refines_fileCalls : ∃ fs, (init true).calls fileCalls =
    .ok (fs, [.code 0, .code 0, .code (-1), .data 0 "yz".toList, .code 0, .found false]) := by
  have habove : PathMap.NoFileAbove (κ := Str) (β := Char) PathMap.empty [['a'], ['b']] := by
    intro q d _
    unfold PathMap.empty
    split_ifs <;> simp
  have hadmissible : PathMap.AdmissibleCalls PathMap.empty (fileCalls.map toComponents) := by
    refine ⟨⟨by decide, fun _ => habove⟩, ?_⟩
    refine ⟨⟨by decide, nofun⟩, ⟨by decide, nofun⟩, ⟨by decide, nofun⟩, ⟨by decide, nofun⟩, ⟨by decide, nofun⟩, trivial⟩
  obtain ⟨fs, hr, -⟩ := memory_refines true hadmissible
  refine ⟨fs, hr.trans ?_⟩
  congr 2

end FSMemory

end DistributedSns.FSWrapper
