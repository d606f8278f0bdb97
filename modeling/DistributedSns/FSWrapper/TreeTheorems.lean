import DistributedSns.FSWrapper.Lemmas.Invariant

/-!
# The file tree

The tree keeps its invariant over all calls which return. `createChild` refuses to make a child of a file, and the
walk goes on with the `NULL` it returns. `renameChild` takes a child out of the map before it knows that it can be put
in again.
-/

namespace DistributedSns.FSWrapper

open Lib FSTreeNode

/-! ## The tree after any calls -/

namespace FSMemory

/-- After any calls which return the root is a folder, and every node of the tree is as it should be. -/
theorem tree_nodeOk {coarseMutex : Bool} {cs : List (PathMap.Call Str Char)} {fs : FSMemory}
    {rs : List (PathMap.Result Char)} (h : (init coarseMutex).calls cs = .ok (fs, rs)) :
    fs.filetree.folder = true ∧ ∀ node, InTree fs.filetree node → node.NodeOk := by
  obtain ⟨hok, hfolder⟩ := ok_of_reachable (reachable_calls (.init rfl) h)
  exact ⟨hfolder, ok_iff.mp hok⟩

/-- Folders made on the way, a file which is written twice and two calls which fail. -/
def deepCalls : List (PathMap.Call Str Char) :=
  [⟨"//a/b/".toList, .create true true⟩, ⟨"a/b/f".toList, .write "x".toList true false⟩,
    ⟨"/a/b/f".toList, .write "y".toList false true⟩, ⟨"/a/b/f/g/h".toList, .create false true⟩,
    ⟨"/c".toList, .remove⟩]

theorem tree_nodeOk_deepCalls : ∃ fs rs, (init true).calls deepCalls = .ok (fs, rs) ∧
    fs.files [['a'], ['b'], ['f']] = some (.file ['y']) ∧ fs.filetree.folder = true ∧
    ∀ node, InTree fs.filetree node → node.NodeOk := by
  have hrun : ∃ fs rs, (init true).calls deepCalls = .ok (fs, rs) ∧
      fs.files [['a'], ['b'], ['f']] = some (.file ['y']) :=
    ⟨_, _, rfl, rfl⟩
  obtain ⟨fs, rs, hr, hfile⟩ := hrun
  exact ⟨fs, rs, hr, hfile, tree_nodeOk hr⟩

end FSMemory

/-! ## Below a file -/

section

variable {α : Type} {node n : FSTreeNode} {p q : List Str} {create : Bool} {k : FSTreeNode → FSTreeNode × α}

/-- A walk to a node which is left as it is changes nothing. -/
theorem getTreeNode_found (h : node.Ok) (hp : node.find? p = some n) (hk : (k n).1 = n) :
    getTreeNode node p create k = .ok (node, some (k n).2) := by
  induction p generalizing node with
  | nil =>
      cases hp
      have hnil : getTreeNode n [] create k = .ok ((k n).1, some (k n).2) := rfl
      rw [hnil, hk]
  | cons t p ih =>
      obtain ⟨next, hc, hnext⟩ := find?_cons_eq_some hp
      rw [getTreeNode_some hc, ih (h.getChild hc).1 hnext]
      simp only [ok_bind, h.setChild_getChild hc]
      rfl

theorem exists_getTreeNode_of_found (h : node.Ok) (hp : node.find? p = some n) :
    ∃ r, getTreeNode node p create k = .ok r := by
  induction p generalizing node with
  | nil => exact ⟨_, rfl⟩
  | cons t p ih =>
      obtain ⟨next, hc, hnext⟩ := find?_cons_eq_some hp
      obtain ⟨r, hr⟩ := ih (h.getChild hc).1 hnext
      rw [getTreeNode_some hc, hr]
      exact ⟨_, rfl⟩

/-- One component below a file the walk ends with `NULL`. With more than one it calls a member of it. -/
theorem getTreeNode_below (h : node.Ok) (hq : node.find? q = some n) (hn : n.folder = false) (t : Str)
    (rest : List Str) :
    getTreeNode node (q ++ t :: rest) true k =
      if rest.isEmpty then .ok (node, none) else .error .nullDereference := by
  induction q generalizing node with
  | nil =>
      cases hq
      exact getTreeNode_file (h.getChild_of_file hn t) hn
  | cons t' q ih =>
      obtain ⟨next, hc, hnext⟩ := find?_cons_eq_some hq
      rw [List.cons_append, getTreeNode_some hc, ih (h.getChild hc).1 hnext]
      split_ifs
      · simp only [ok_bind, h.setChild_getChild hc]
        rfl
      · rfl

theorem files_eq_file {d : Str} (h : node.files p = some (.file d)) :
    ∃ n, node.find? p = some n ∧ n.folder = false := by
  obtain ⟨n, hn, he⟩ := Option.map_eq_some_iff.mp h
  refine ⟨n, hn, ?_⟩
  by_contra hf
  rw [Bool.not_eq_false] at hf
  rw [entry, if_pos hf] at he
  cases he

theorem getTreeNode_ne_null_iff (h : node.Ok) (p : List Str) (k : FSTreeNode → FSTreeNode × α) :
    getTreeNode node p true k ≠ .error .nullDereference ↔
      ∀ q d, q <+: p → node.files q = some (.file d) → p.length ≤ q.length + 1 := by
  refine ⟨?_, ?_⟩
  · rintro hwalk q d ⟨rest, rfl⟩ hq
    obtain ⟨n, hn, hf⟩ := files_eq_file hq
    rcases rest with _ | ⟨t, _ | ⟨t', rest⟩⟩
    · simp
    · simp
    · exact absurd (getTreeNode_below h hn hf t (t' :: rest)) hwalk
  · intro hdepth
    by_cases hfile : ∃ q d, q <+: p ∧ node.files q = some (.file d)
    · obtain ⟨q, d, ⟨rest, rfl⟩, hq⟩ := hfile
      obtain ⟨n, hn, hf⟩ := files_eq_file hq
      have hlen := hdepth q d (List.prefix_append q rest) hq
      rcases rest with _ | ⟨t, _ | ⟨t', rest⟩⟩
      · obtain ⟨r, hr⟩ := @exists_getTreeNode_of_found _ node n q true k h hn
        rw [List.append_nil, hr]
        nofun
      · rw [getTreeNode_below h hn hf t []]
        nofun
      · simp only [List.length_append, List.length_cons] at hlen
        omega
    · obtain ⟨t, n, hwalk, -⟩ := getTreeNode_create node p k fun q d hq hfile' => hfile ⟨q, d, hq, hfile'⟩
      rw [hwalk]
      nofun

end

namespace FSMemory

/-- `create` and `write` with `createDirectories` fail and leave the tree as it is. -/
structure Refused (fs : FSMemory) (file : Str) : Prop where
  create : ∀ folder, ∃ fs', fs.create file folder true = .ok (fs', -1) ∧ fs'.filetree = fs.filetree
  write : ∀ data overwrite, ∃ fs', fs.write file data true overwrite = .ok (fs', -1) ∧ fs'.filetree = fs.filetree

variable {fs : FSMemory} {file a d : Str} {p q : List Str}

/-- Whatever is done in the parent folder, it is refused at a file and not reached below one. -/
theorem atParent_below (hl : ¬ fs.Locked) (hok : fs.filetree.Ok) (hp : components file = p ++ [a]) (hqp : q <+: p)
    (hq : fs.files q = some (.file d)) {k : Str → FSTreeNode → FSTreeNode × Int}
    (hk : ∀ n : FSTreeNode, n.Ok → n.folder = false → k a n = (n, -1)) :
    fs.atParent file true k = if p.length ≤ q.length + 1 then .ok (fs, -1) else .error .nullDereference := by
  obtain ⟨n, hn, hf⟩ := files_eq_file hq
  have hkn := hk n (hok.find? hn) hf
  obtain ⟨rest, rfl⟩ := hqp
  rw [atParent_concat hl hp]
  rcases rest with _ | ⟨t, _ | ⟨t', rest⟩⟩
  · rw [List.append_nil, getTreeNode_found hok hn (congrArg Prod.fst hkn), hkn, if_pos (by simp)]
    rfl
  · rw [getTreeNode_below hok hn hf t [], if_pos List.isEmpty_nil, if_pos (by simp)]
    rfl
  · rw [getTreeNode_below hok hn hf t (t' :: rest), List.isEmpty_cons, if_neg Bool.false_ne_true, if_neg (by simp)]
    rfl

theorem createIn_file (folder : Bool) {n : FSTreeNode} (h : n.Ok) (hf : n.folder = false) :
    createIn folder a n = (n, -1) := by
  simp [createIn, h.getChild_of_file hf a, createChild, hf]

theorem writeIn_file (data : Str) (overwrite : Bool) {n : FSTreeNode} (h : n.Ok) (hf : n.folder = false) :
    writeIn data overwrite a n = (n, -1) := by
  simp [writeIn, h.getChild_of_file hf a, createChild, hf]

theorem refused_iff (hok : fs.filetree.Ok) (hp : components file = p ++ [a]) (hqp : q <+: p)
    (hq : fs.files q = some (.file d)) : Refused fs file ↔ ¬ fs.Locked ∧ p.length ≤ q.length + 1 := by
  have hcreate (hl : ¬ fs.Locked) (folder : Bool) : fs.create file folder true =
      if p.length ≤ q.length + 1 then .ok (fs, -1) else .error .nullDereference :=
    atParent_below hl hok hp hqp hq fun n hn hf => createIn_file folder hn hf
  have hwrite (hl : ¬ fs.Locked) (data : Str) (overwrite : Bool) : fs.write file data true overwrite =
      if p.length ≤ q.length + 1 then .ok (fs, -1) else .error .nullDereference :=
    atParent_below hl hok hp hqp hq fun n hn hf => writeIn_file data overwrite hn hf
  refine ⟨?_, ?_⟩
  · intro h
    obtain ⟨fs', hr, -⟩ := h.create false
    by_cases hl : fs.Locked
    · have hdead : fs.create file false true = .error .deadlock := atParent_of_locked hl
      rw [hdead] at hr
      cases hr
    refine ⟨hl, ?_⟩
    by_contra hdeep
    rw [hcreate hl, if_neg hdeep] at hr
    cases hr
  · rintro ⟨hl, hdepth⟩
    refine ⟨?_, ?_⟩
    · intro folder
      exact ⟨fs, by rw [hcreate hl, if_pos hdepth], rfl⟩
    · intro data overwrite
      exact ⟨fs, by rw [hwrite hl, if_pos hdepth], rfl⟩

/-- In every tree that calls can leave, the walk with `create` calls no member of `NULL` exactly if its path ends at
most one component below a file. Below a file `create` and `write` fail cleanly exactly if the path ends at most two
components below it and the mutex is free. -/
theorem walk_below_file_iff {coarseMutex : Bool} (h : (machine coarseMutex).Reachable fs) :
    (∀ (p : List Str) (α : Type) (k : FSTreeNode → FSTreeNode × α),
      getTreeNode fs.filetree p true k ≠ .error .nullDereference ↔
        ∀ q d, q <+: p → fs.files q = some (.file d) → p.length ≤ q.length + 1) ∧
    (∀ file tokens q d, splitFilepath file = .ok tokens → q <+: tokens → q ≠ tokens →
      fs.files q = some (.file d) → (Refused fs file ↔ ¬ fs.Locked ∧ tokens.length ≤ q.length + 2)) := by
  obtain ⟨hok, -⟩ := ok_of_reachable h
  refine ⟨fun p _ k => getTreeNode_ne_null_iff hok p k, ?_⟩
  intro file tokens q d htokens hqp hne hq
  rw [splitFilepath_eq] at htokens
  cases htokens
  obtain ⟨rest, hrest⟩ := hqp
  cases rest using List.reverseRecOn with
  | nil => exact absurd (by simpa using hrest) hne
  | append_singleton rest a =>
      rw [← List.append_assoc] at hrest
      rw [refused_iff hok hrest.symm (List.prefix_append q rest) hq, ← hrest]
      simp

/-- A file is made in the root. -/
def createF : PathMap.Call Str Char := ⟨"/f".toList, .create false false⟩

/-- The file system with nothing but the file `/f`. -/
def withF : FSMemory :=
  { init true with filetree := (FSTreeNode.make ROOT true []).setChild ['f'] (.make ['f'] false []) }

theorem reachable_withF : (machine true).Reachable withF :=
  .step (.init rfl) ⟨.code 0, (rfl : (init true).call createF = .ok (withF, .code 0))⟩

theorem walk_below_file_iff_withF : Refused withF "/f/x/y".toList := by
  refine ((walk_below_file_iff reachable_withF).2 _ [['f'], ['x'], ['y']] [['f']] [] rfl (by decide) (by decide)
    rfl).mpr ⟨?_, by decide⟩
  rintro ⟨-, hlocked⟩
  cases hlocked

/-- Both halves fail further below the file. -/
theorem walk_below_withF :
    (¬ ∀ fs, (machine true).Reachable fs → ∀ p, ∀ k : FSTreeNode → FSTreeNode × Unit,
      getTreeNode fs.filetree p true k ≠ .error .nullDereference) ∧
    ¬ ∀ fs, (machine true).Reachable fs → ¬ fs.Locked → ∀ file tokens q d, splitFilepath file = .ok tokens →
      q <+: tokens → q ≠ tokens → fs.files q = some (.file d) → Refused fs file := by
  refine ⟨?_, ?_⟩
  · intro h
    exact h withF reachable_withF [['f'], ['x'], ['y']] (fun n => (n, ())) rfl
  · intro h
    have hfree : ¬ withF.Locked := fun hl => Bool.false_ne_true hl.2
    have hrefused := h withF reachable_withF hfree "/f/x/y/z".toList [['f'], ['x'], ['y'], ['z']] [['f']] [] rfl
      (by decide) (by decide) rfl
    obtain ⟨fs', hr, -⟩ := hrefused.create false
    have hnull : withF.create "/f/x/y/z".toList false true = .error .nullDereference := rfl
    rw [hnull] at hr
    cases hr

end FSMemory

/-! ## Renaming a child -/

namespace FSTreeNode

/-- The child is under its new name and no longer under the old one, and no child is lost or changed besides. -/
structure Moved (node node' : FSTreeNode) (childName newName : Str) : Prop where
  moved : ∃ child, node.getChild childName = some child ∧
    node'.getChild newName = some { child with name := newName }
  gone : childName ≠ newName → node'.getChild childName = none
  kept : ∀ n child, n ≠ childName → node.getChild n = some child → node'.getChild n = some child
  others : ∀ n, n ≠ childName → n ≠ newName → node'.getChild n = node.getChild n
  size : node'.children.length = node.children.length
  fields : { node' with children := node.children } = node

/-- The call moves the child and returns `0`, or changes nothing and returns `-1`. -/
def Renamed (node : FSTreeNode) (childName newName : Str) : Prop :=
  ((node.renameChild childName newName).2 = 0 ∧ Moved node (node.renameChild childName newName).1 childName newName) ∨
    ((node.renameChild childName newName).2 = -1 ∧ (node.renameChild childName newName).1 = node)

variable {node child child' : FSTreeNode} {childName newName : Str}

/-- The name is free once the child has been taken out. -/
theorem moved_of_free (h : node.Ok) (hc : node.getChild childName = some child)
    (hfree : childName = newName ∨ node.getChild newName = none) :
    node.renameChild childName newName =
        (({ node with children := Assoc.erase childName node.children } : FSTreeNode).setChild newName
          { child with name := newName }, 0) ∧
      Moved node (({ node with children := Assoc.erase childName node.children } : FSTreeNode).setChild newName
        { child with name := newName }) childName newName := by
  set rest : FSTreeNode := { node with children := Assoc.erase childName node.children } with hrest
  have hother {n : Str} (hn : n ≠ childName) : rest.getChild n = node.getChild n :=
    Assoc.lookup_erase_of_ne hn node.children
  have hself : rest.getChild childName = none := Assoc.lookup_erase_self childName node.children
  have hnew : rest.getChild newName = none := by
    rcases hfree with rfl | hnone
    · exact hself
    · by_cases heq : newName = childName
      · rw [heq, hself]
      · rw [hother heq, hnone]
  refine ⟨?_, ?_⟩
  · simp only [renameChild, hc, ← hrest, hnew, Option.getD_none]
  · refine ⟨⟨child, hc, getChild_setChild_self _ _ _⟩, ?_, ?_, ?_, ?_, ?_⟩
    · intro hne
      rw [getChild_setChild_of_ne _ _ hne, hself]
    · intro n child' hn hchild
      have hne : n ≠ newName := by
        rintro rfl
        rw [hother hn, hchild] at hnew
        cases hnew
      rw [getChild_setChild_of_ne _ _ hne, hother hn, hchild]
    · intro n hn hne
      rw [getChild_setChild_of_ne _ _ hne, hother hn]
    · have hinsert := Assoc.length_insert_of_none hnew ({ child with name := newName } : FSTreeNode)
      exact hinsert.trans (Assoc.length_erase_of_some h.sorted hc)
    · cases node
      rfl

/-- If the new name is taken the child that is renamed is lost. -/
theorem size_of_occupied (h : node.Ok) (hc : node.getChild childName = some child) (hne : childName ≠ newName)
    (hnew : node.getChild newName = some child') :
    (node.renameChild childName newName).2 = 0 ∧
      (node.renameChild childName newName).1.children.length + 1 = node.children.length := by
  have hthere : ({ node with children := Assoc.erase childName node.children } : FSTreeNode).getChild newName =
      some child' := (Assoc.lookup_erase_of_ne hne.symm node.children).trans hnew
  have hrename : node.renameChild childName newName =
      (({ node with children := Assoc.erase childName node.children } : FSTreeNode).setChild newName
        { child' with name := newName }, 0) := by
    simp only [renameChild, hc, hthere, Option.getD_some]
  rw [hrename]
  refine ⟨rfl, ?_⟩
  have hinsert := Assoc.length_insert_of_isSome (h.sorted.erase childName) (Option.isSome_of_eq_some hthere)
    ({ child' with name := newName } : FSTreeNode)
  have herase := Assoc.length_erase_of_some h.sorted hc
  rw [← hinsert] at herase
  exact herase

/-- `renameChild` does what it should exactly if the new name is free or there is nothing to rename. -/
theorem renamed_iff (h : node.Ok) (childName newName : Str) :
    Renamed node childName newName ↔
      childName = newName ∨ node.getChild childName = none ∨ node.getChild newName = none := by
  cases hc : node.getChild childName with
  | none =>
      have hrename : node.renameChild childName newName = (node, -1) := by simp only [renameChild, hc]
      exact iff_of_true (Or.inr (by rw [hrename]; exact ⟨rfl, rfl⟩)) (Or.inr (Or.inl rfl))
  | some child =>
      refine ⟨?_, ?_⟩
      · intro hrenamed
        by_contra hcond
        obtain ⟨hne, -, hnew⟩ : childName ≠ newName ∧ ¬ some child = none ∧ ¬ node.getChild newName = none := by
          simpa only [not_or] using hcond
        obtain ⟨child', hchild'⟩ := Option.ne_none_iff_exists'.mp hnew
        obtain ⟨hcode, hsize⟩ := size_of_occupied h hc hne hchild'
        rcases hrenamed with ⟨-, hmoved⟩ | ⟨hfail, -⟩
        · rw [hmoved.size] at hsize
          omega
        · rw [hcode] at hfail
          cases hfail
      · intro hcond
        have hfree : childName = newName ∨ node.getChild newName = none := by
          rcases hcond with heq | hnone | hnew
          · exact Or.inl heq
          · cases hnone
          · exact Or.inr hnew
        obtain ⟨hrename, hmoved⟩ := moved_of_free h hc hfree
        exact Or.inl (by rw [hrename]; exact ⟨rfl, hmoved⟩)

/-- A folder with the files `a` and `b`. -/
def withAB : FSTreeNode :=
  ((make ROOT true []).setChild ['a'] (make ['a'] false ['1'])).setChild ['b'] (make ['b'] false ['2'])

theorem ok_withAB : withAB.Ok := by
  have hfile (n d : Str) : (make n false d).Ok := .file n d
  have hroot : (make ROOT true []).Ok := .make ROOT true fun _ => rfl
  exact (hroot.setChild rfl (hfile ['a'] ['1']) rfl ⟨by decide, by decide⟩).setChild rfl (hfile ['b'] ['2']) rfl
    ⟨by decide, by decide⟩

theorem renamed_iff_withAB : Renamed withAB ['a'] ['c'] :=
  (renamed_iff ok_withAB ['a'] ['c']).mpr (Or.inr (Or.inr rfl))

/-- The file `a` disappears. -/
theorem renamed_withAB : ¬ ∀ node : FSTreeNode, node.Ok → node.folder = true → ∀ old new, Renamed node old new := by
  intro h
  rcases h withAB ok_withAB rfl ['a'] ['b'] with ⟨-, hmoved⟩ | ⟨hfail, -⟩
  · exact absurd hmoved.size (by decide)
  · cases hfail

end FSTreeNode

end DistributedSns.FSWrapper
