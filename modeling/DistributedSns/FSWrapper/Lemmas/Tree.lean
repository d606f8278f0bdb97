import DistributedSns.FSWrapper.Memory
import DistributedSns.Lib.PathMap

/-!
# A file tree as a store addressed by paths

The store of a tree maps the names on the way to a node to the node's entry. Walking down and changing the node at
the end of the way is a graft in the store.
-/

namespace DistributedSns.FSWrapper

open Lib

namespace FSTreeNode

def entry (node : FSTreeNode) : PathMap.Entry Char := if node.folder then .folder else .file node.data

/-- The node at the end of a way down. -/
def find? (node : FSTreeNode) : List Str → Option FSTreeNode
  | [] => some node
  | token :: tokens => (node.getChild token).bind (find? · tokens)

def files (node : FSTreeNode) : PathMap Str Char := fun p => (node.find? p).map entry

section

variable {node child : FSTreeNode} {n : Str} {p q : List Str}

@[simp] theorem files_nil : node.files [] = some node.entry := rfl

theorem files_cons : node.files (n :: p) = (node.getChild n).bind (files · p) := by
  simp only [files, find?]
  cases node.getChild n <;> rfl

theorem files_of_getChild (h : node.getChild n = some child) : node.files.sub [n] = child.files := by
  funext p
  simp [PathMap.sub, files_cons, h]

theorem files_of_getChild_none (h : node.getChild n = none) : node.files.sub [n] = fun _ => none := by
  funext p
  simp [PathMap.sub, files_cons, h]

theorem find?_cons_eq_some {node' : FSTreeNode} (h : node.find? (n :: p) = some node') :
    ∃ next, node.getChild n = some next ∧ next.find? p = some node' :=
  Option.bind_eq_some_iff.mp h

theorem find?_append : node.find? (p ++ q) = (node.find? p).bind (find? · q) := by
  induction p generalizing node with
  | nil => rfl
  | cons n p ih =>
      simp only [List.cons_append, find?]
      cases node.getChild n with
      | none => rfl
      | some child => exact ih

theorem files_of_find? (h : node.find? p = some child) : node.files.sub p = child.files := by
  funext q
  simp only [PathMap.sub, files, find?_append, h, Option.bind_some]

theorem files_eq_none : node.files p = none ↔ node.find? p = none := by
  simp [files]

theorem closed_files (node : FSTreeNode) : node.files.Closed := by
  intro p q h
  rw [files, Option.isSome_map, find?_append] at h
  rw [files, Option.isSome_map]
  exact Option.isSome_of_isSome_bind h

theorem files_setChild : (node.setChild n child).files = node.files.graft [n] child.files := by
  funext p
  cases p with
  | nil => rfl
  | cons n' p =>
      rw [files_cons]
      by_cases hn : n' = n
      · subst hn
        rw [getChild_setChild_self, Option.bind_some]
        exact (PathMap.graft_append (m := node.files) (p := [n'])).symm
      · rw [getChild_setChild_of_ne _ _ hn, ← files_cons, PathMap.graft_of_not_below]
        simpa using fun h => hn h.symm

theorem files_make (folder : Bool) (data : Str) (p : List Str) :
    (make n folder data).files p = if p = [] then some (if folder then .folder else .file data) else none := by
  cases p with
  | nil => rfl
  | cons n' p => simp [files_cons]

end

end FSTreeNode

/-! ## Walking down -/

section

open FSTreeNode

variable {α : Type}

section

variable {node next : FSTreeNode} {t : Str} {p : List Str} {create : Bool} {k : FSTreeNode → FSTreeNode × α}

theorem getTreeNode_some (h : node.getChild t = some next) :
    getTreeNode node (t :: p) create k = do
      let (next, a) ← getTreeNode next p create k
      return (node.setChild t next, a) := by
  rw [getTreeNode, h]

theorem getTreeNode_none (h : node.getChild t = none) :
    getTreeNode node (t :: p) false k = .ok (node, none) := by
  rw [getTreeNode, h]
  rfl

/-- A missing folder is made. -/
theorem getTreeNode_make (h : node.getChild t = none) (hf : node.folder = true) :
    getTreeNode node (t :: p) true k = do
      let (next, a) ← getTreeNode (make t true []) p true k
      return (node.setChild t next, a) := by
  simp only [getTreeNode, h, createChild_of_folder hf t (fun _ => rfl), setChild_setChild, Bool.not_true,
    Bool.false_eq_true, ↓reduceIte]

/-- Nothing is made below a file. -/
theorem getTreeNode_file (h : node.getChild t = none) (hf : node.folder = false) :
    getTreeNode node (t :: p) true k = if p.isEmpty then .ok (node, none) else .error .nullDereference := by
  have hnone : node.createChild t true [] = (node, none) := by simp [createChild, hf]
  simp only [getTreeNode, h, hnone, Bool.not_true, Bool.false_eq_true, ↓reduceIte]

end

theorem getTreeNode_eq (node : FSTreeNode) (p : List Str) (k : FSTreeNode → FSTreeNode × α) :
    ∃ node', getTreeNode node p false k = .ok (node', (node.find? p).map fun n => (k n).2) ∧
      node'.files = match node.find? p with
        | some n => node.files.graft p (k n).1.files
        | none => node.files := by
  induction p generalizing node with
  | nil =>
      refine ⟨(k node).1, rfl, ?_⟩
      simp [FSTreeNode.find?]
  | cons t p ih =>
      cases ht : node.getChild t with
      | none => exact ⟨node, by simp [getTreeNode_none ht, FSTreeNode.find?, ht], by simp [FSTreeNode.find?, ht]⟩
      | some next =>
          obtain ⟨next', hwalk, hfiles⟩ := ih next
          refine ⟨node.setChild t next', ?_, ?_⟩
          · rw [getTreeNode_some ht, hwalk]
            simp only [FSTreeNode.find?, ht, Option.bind_some]
            rfl
          · rw [files_setChild, hfiles]
            simp only [FSTreeNode.find?, ht, Option.bind_some]
            cases next.find? p with
            | none =>
                rw [← files_of_getChild ht]
                exact PathMap.graft_sub
            | some n =>
                simp only
                rw [PathMap.graft_graft, ← files_of_getChild ht, PathMap.graft_sub]
                rfl

/-- Making the missing folders below one component at a time. -/
theorem graft_makeFolders {m x : PathMap Str Char} (hm : (m []).isSome) (t : Str) (p : List Str)
    (hx : x.makeFolders p = (m.sub [t]).makeFolders p) :
    m.graft [t] (x.makeFolders p) = m.makeFolders (t :: p) := by
  rw [hx]
  funext q
  cases q with
  | nil =>
      rw [PathMap.makeFolders_of_isSome hm]
      exact PathMap.graft_of_not_below (by simp)
  | cons t' q =>
      by_cases ht : t' = t
      · subst ht
        have happ : t' :: q = [t'] ++ q := rfl
        rw [happ, PathMap.graft_append]
        simp only [PathMap.makeFolders, PathMap.sub, List.cons_append, List.nil_append, List.cons_prefix_cons,
          true_and]
      · rw [PathMap.graft_of_not_below (by simpa using fun h => ht h.symm),
          PathMap.makeFolders_of_not_above (by simp [ht])]

theorem getTreeNode_create (node : FSTreeNode) (p : List Str) (k : FSTreeNode → FSTreeNode × α)
    (h : ∀ q d, q <+: p → node.files q ≠ some (.file d)) :
    ∃ node' n, getTreeNode node p true k = .ok (node', some (k n).2) ∧
      n.files = (node.files.makeFolders p).sub p ∧
      node'.files = (node.files.makeFolders p).graft p (k n).1.files := by
  induction p generalizing node with
  | nil =>
      have hself : node.files.makeFolders [] = node.files :=
        PathMap.makeFolders_eq_self node.closed_files rfl
      refine ⟨(k node).1, node, rfl, ?_, ?_⟩
      · rw [hself]
        rfl
      · rw [PathMap.graft_nil]
  | cons t p ih =>
      have hfolder : node.folder = true := by
        have := h [] node.data List.nil_prefix
        rw [files_nil, entry] at this
        by_contra hf
        exact this (by rw [if_neg hf])
      -- the child on the way, or the new folder
      obtain ⟨next, hnext, hx, hstep⟩ : ∃ next : FSTreeNode,
          (∀ q d, q <+: p → next.files q ≠ some (.file d)) ∧
          next.files.makeFolders p = (node.files.sub [t]).makeFolders p ∧
          ∀ {next' a}, getTreeNode next p true k = .ok (next', a) →
            getTreeNode node (t :: p) true k = .ok (node.setChild t next', a) := by
        cases ht : node.getChild t with
        | some next =>
            refine ⟨next, ?_, ?_, ?_⟩
            · intro q d hq
              rw [← files_of_getChild ht]
              exact h (t :: q) d (by simpa using hq)
            · rw [files_of_getChild ht]
            · intro next' a hwalk
              rw [getTreeNode_some ht, hwalk]
              rfl
        | none =>
            refine ⟨make t true [], ?_, ?_, ?_⟩
            · intro q d _
              simp only [files_make, ↓reduceIte]
              split_ifs <;> simp
            · rw [files_of_getChild_none ht]
              funext q
              simp only [PathMap.makeFolders, files_make]
              split_ifs with hq
              all_goals simp_all
            · intro next' a hwalk
              rw [getTreeNode_make ht hfolder, hwalk]
              rfl
      obtain ⟨next', n, hwalk, hn, hfiles⟩ := ih next hnext
      have hm := graft_makeFolders (m := node.files) rfl t p hx
      refine ⟨node.setChild t next', n, ?_, ?_, ?_⟩
      · exact hstep hwalk
      · rw [hn, ← hm]
        funext q
        have happ : t :: p ++ q = [t] ++ (p ++ q) := rfl
        rw [PathMap.sub, PathMap.sub, happ, PathMap.graft_append]
      · rw [files_setChild, hfiles, PathMap.graft_graft, hm]
        rfl

end

end DistributedSns.FSWrapper
