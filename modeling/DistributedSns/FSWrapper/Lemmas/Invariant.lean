import DistributedSns.FSWrapper.Lemmas.Split
import DistributedSns.FSWrapper.CallTheorems

/-!
# The invariant of the file tree

A file has no children and a folder no data, and a folder keeps every child under the child's name.
-/

namespace DistributedSns.FSWrapper

open Lib

namespace FSTreeNode

inductive Ok : FSTreeNode → Prop
  | file (name data : Str) : Ok ⟨false, name, data, []⟩
  | folder (name : Str) {children : List (Str × FSTreeNode)} (sorted : Assoc.Sorted children)
      (key : ∀ e ∈ children, IsComponent e.1) (named : ∀ e ∈ children, e.2.name = e.1)
      (below : ∀ e ∈ children, Ok e.2) : Ok ⟨true, name, [], children⟩

variable {node child : FSTreeNode} {n : Str}

theorem Ok.make (n : Str) (folder : Bool) {data : Str} (h : folder = true → data = []) :
    (FSTreeNode.make n folder data).Ok := by
  cases folder with
  | false => exact .file n data
  | true =>
      rw [h rfl]
      exact .folder n List.Pairwise.nil (by simp) (by simp) (by simp)

theorem Ok.sorted (h : node.Ok) : Assoc.Sorted node.children := by
  cases h with
  | file => exact List.Pairwise.nil
  | folder _ hsorted => exact hsorted

theorem Ok.data_of_folder (h : node.Ok) (hf : node.folder = true) : node.data = [] := by
  cases h with
  | file => cases hf
  | folder => rfl

/-- A node with a child is a folder. -/
theorem Ok.folder_of_getChild (h : node.Ok) (hc : node.getChild n = some child) : node.folder = true := by
  cases h with
  | file => cases hc
  | folder => rfl

theorem Ok.getChild_of_file (h : node.Ok) (hf : node.folder = false) (n : Str) : node.getChild n = none := by
  cases h with
  | file => rfl
  | folder => cases hf

theorem Ok.getChild (h : node.Ok) (hc : node.getChild n = some child) :
    child.Ok ∧ child.name = n ∧ IsComponent n := by
  cases h with
  | file => cases hc
  | folder _ _ hkey hnamed hbelow =>
      have hmem := Assoc.mem_of_lookup hc
      exact ⟨hbelow _ hmem, hnamed _ hmem, hkey _ hmem⟩

theorem Ok.setChild (h : node.Ok) (hf : node.folder = true) (hc : child.Ok) (hn : child.name = n)
    (hkey : IsComponent n) : (node.setChild n child).Ok := by
  cases h with
  | file => cases hf
  | folder name hsorted hkeys hnamed hbelow =>
      refine .folder name (hsorted.insert n child) ?_ ?_ ?_
      · intro e he
        rcases Assoc.mem_insert he with rfl | he
        · exact hkey
        · exact hkeys e he
      · intro e he
        rcases Assoc.mem_insert he with rfl | he
        · exact hn
        · exact hnamed e he
      · intro e he
        rcases Assoc.mem_insert he with rfl | he
        · exact hc
        · exact hbelow e he

theorem Ok.removeChild (h : node.Ok) (n : Str) : (node.removeChild n).1.Ok := by
  cases h with
  | file name data => exact .file name data
  | folder name hsorted hkeys hnamed hbelow =>
      have hsub {e : Str × FSTreeNode} {children : List (Str × FSTreeNode)}
          (he : e ∈ Assoc.erase n children) : e ∈ children := List.mem_of_mem_filter he
      exact .folder name (hsorted.erase n) (fun e he => hkeys e (hsub he)) (fun e he => hnamed e (hsub he))
        (fun e he => hbelow e (hsub he))

/-- Putting a child back where it is changes nothing. -/
theorem Ok.setChild_getChild (h : node.Ok) (hc : node.getChild n = some child) : node.setChild n child = node := by
  rw [FSTreeNode.setChild, Assoc.insert_of_lookup h.sorted hc]
  cases node
  rfl

theorem Ok.find? (h : node.Ok) {p : List Str} (hp : node.find? p = some child) : child.Ok := by
  induction p generalizing node with
  | nil =>
      cases hp
      exact h
  | cons t p ih =>
      obtain ⟨next, hc, hnext⟩ := find?_cons_eq_some hp
      exact ih (h.getChild hc).1 hnext

@[simp] theorem name_setChild (node child : FSTreeNode) (n : Str) : (node.setChild n child).name = node.name := rfl

/-! ## Every node -/

/-- The nodes at any depth: the root and the children of the nodes in the tree. -/
inductive InTree (root : FSTreeNode) : FSTreeNode → Prop
  | root : InTree root root
  | child {node : FSTreeNode} {e : Str × FSTreeNode} (h : InTree root node) (he : e ∈ node.children) :
      InTree root e.2

/-- What the invariant says of a single node. The map has its keys in order, each of them once. -/
structure NodeOk (node : FSTreeNode) : Prop where
  file : node.folder = false → node.children = []
  folder : node.folder = true → node.data = []
  sorted : Assoc.Sorted node.children
  named : ∀ e ∈ node.children, e.2.name = e.1
  key : ∀ e ∈ node.children, IsComponent e.1

theorem InTree.of_child {root : FSTreeNode} {e : Str × FSTreeNode} (he : e ∈ root.children) (h : InTree e.2 node) :
    InTree root node := by
  induction h with
  | root => exact .child .root he
  | child _ he' ih => exact .child ih he'

theorem Ok.inTree {root : FSTreeNode} (h : root.Ok) (hn : InTree root node) : node.Ok := by
  induction hn with
  | root => exact h
  | child _ he ih =>
      cases ih with
      | file => cases he
      | folder _ _ _ _ hbelow => exact hbelow _ he

theorem Ok.nodeOk (h : node.Ok) : node.NodeOk := by
  refine ⟨?_, h.data_of_folder, h.sorted, ?_, ?_⟩
  · intro hf
    cases h with
    | file => rfl
    | folder => cases hf
  · intro e he
    cases h with
    | file => cases he
    | folder _ _ _ hnamed => exact hnamed e he
  · intro e he
    cases h with
    | file => cases he
    | folder _ _ hkey => exact hkey e he

/-- The invariant holds of a tree exactly if it holds of each of its nodes. -/
theorem ok_iff {root : FSTreeNode} : root.Ok ↔ ∀ node, InTree root node → node.NodeOk := by
  refine ⟨fun h node hn => (h.inTree hn).nodeOk, ?_⟩
  induction hsize : sizeOf root using Nat.strong_induction_on generalizing root with
  | _ size ih =>
      intro h
      obtain ⟨folder, name, data, children⟩ := root
      have hroot := h _ .root
      have hbelow : ∀ e ∈ children, e.2.Ok := by
        intro e he
        refine ih (sizeOf e.2) ?_ rfl fun n hn => h n (hn.of_child he)
        have hmem := List.sizeOf_lt_of_mem he
        rw [← hsize]
        obtain ⟨n, child⟩ := e
        simp only [FSTreeNode.mk.sizeOf_spec, Prod.mk.sizeOf_spec] at hmem ⊢
        omega
      cases folder with
      | false =>
          obtain rfl : children = [] := hroot.file rfl
          exact .file name data
      | true =>
          obtain rfl : data = [] := hroot.folder rfl
          exact .folder name hroot.sorted hroot.key hroot.named hbelow

end FSTreeNode

open FSTreeNode

/-! ## The walk -/

section

variable {α : Type} {node node' : FSTreeNode} {p : List Str} {create : Bool}

/-- The node is changed into one which may stand in its place. -/
structure Replaces (node' node : FSTreeNode) : Prop where
  ok : node'.Ok
  name : node'.name = node.name
  folder : node'.folder = node.folder

def KeepsOk (k : FSTreeNode → FSTreeNode × α) : Prop :=
  ∀ n, n.Ok → Replaces (k n).1 n

theorem Replaces.refl (h : node.Ok) : Replaces node node := ⟨h, rfl, rfl⟩

theorem getTreeNode_ok {k : FSTreeNode → FSTreeNode × α} (hk : KeepsOk k) (hp : ∀ t ∈ p, IsComponent t)
    (h : node.Ok) {a : Option α} (hr : getTreeNode node p create k = .ok (node', a)) :
    Replaces node' node := by
  induction p generalizing node node' a with
  | nil =>
      cases hr
      exact hk node h
  | cons t p ih =>
      have hp' : ∀ t ∈ p, IsComponent t := fun t ht => hp t (List.mem_cons_of_mem _ ht)
      have ht := hp t List.mem_cons_self
      -- the walk goes on in the child `next`, which is in the tree already or has just been made
      have hdown {base next : FSTreeNode} (hbase : base.Ok) (hfolder : base.folder = true) (hnext : next.Ok)
          (hname : next.name = t) {r : FSTreeNode × Option α}
          (hr : (getTreeNode next p create k >>= fun r => .ok (base.setChild t r.1, r.2)) = .ok r) :
          Replaces r.1 base := by
        obtain ⟨⟨next', b⟩, hwalk, hr⟩ := bind_eq_ok.mp hr
        have hreplaces := ih hp' hnext hwalk
        cases hr
        exact ⟨hbase.setChild hfolder hreplaces.ok (hreplaces.name.trans hname) ht, rfl, rfl⟩
      cases hc : node.getChild t with
      | some next =>
          rw [getTreeNode_some hc] at hr
          obtain ⟨hok, hname, -⟩ := h.getChild hc
          exact hdown h (h.folder_of_getChild hc) hok hname hr
      | none =>
          cases create with
          | false =>
              rw [getTreeNode_none hc] at hr
              cases hr
              exact .refl h
          | true =>
              cases hf : node.folder with
              | false =>
                  rw [getTreeNode_file hc hf] at hr
                  split_ifs at hr
                  cases hr
                  exact .refl h
              | true =>
                  rw [getTreeNode_make hc hf] at hr
                  exact hdown h hf (.make t true fun _ => rfl) rfl hr

end

/-! ## Calls -/

section

variable {a : Str} (ha : IsComponent a)
include ha

theorem replaces_createChild {node : FSTreeNode} (h : node.Ok) (folder : Bool) {data : Str}
    (hd : folder = true → data = []) : Replaces (node.createChild a folder data).1 node := by
  cases hf : node.folder with
  | false =>
      have hnone : node.createChild a folder data = (node, none) := by simp [createChild, hf]
      rw [hnone]
      exact .refl h
  | true =>
      rw [createChild_of_folder hf a hd]
      exact ⟨h.setChild hf (.make a folder hd) rfl ha, rfl, rfl⟩

theorem keepsOk_createIn (folder : Bool) : KeepsOk (FSMemory.createIn folder a) := by
  intro n hn
  unfold FSMemory.createIn
  cases n.getChild a with
  | none => exact replaces_createChild ha hn folder fun _ => rfl
  | some child => exact .refl hn

theorem keepsOk_writeIn (data : Str) (overwrite : Bool) : KeepsOk (FSMemory.writeIn data overwrite a) := by
  intro n hn
  unfold FSMemory.writeIn
  cases hc : n.getChild a with
  | none => exact replaces_createChild ha hn false nofun
  | some next =>
      obtain ⟨hok, hname, -⟩ := hn.getChild hc
      cases hok with
      | folder => exact .refl hn
      | file => exact ⟨hn.setChild (hn.folder_of_getChild hc) (.file _ _) hname ha, rfl, rfl⟩

theorem keepsOk_inParent (op : PathMap.Op Char) : KeepsOk (FSMemory.inParent op a) := by
  have hremove : KeepsOk fun node : FSTreeNode => node.removeChild a := fun n hn => ⟨hn.removeChild a, rfl, rfl⟩
  cases op with
  | create folder => exact keepsOk_createIn ha folder
  | write data _ overwrite => exact keepsOk_writeIn ha data overwrite
  | remove => exact hremove
  | read => exact hremove
  | fileExists => exact hremove

end

namespace FSMemory

variable {fs fs' : FSMemory}

theorem call_ok {c : PathMap.Call Str Char} {r : PathMap.Result Char} (h : fs.filetree.Ok)
    (hr : fs.call c = .ok (fs', r)) : Replaces fs'.filetree fs.filetree := by
  cases hl : locks c.op with
  | false =>
      obtain ⟨r', hr'⟩ := call_of_not_locks hl fs
      rw [hr'] at hr
      cases hr
      exact .refl h
  | true =>
      rw [call_of_locks hl] at hr
      obtain ⟨⟨fs₁, code⟩, hparent, hr⟩ := bind_eq_ok.mp hr
      cases hr
      by_cases hlocked : fs.Locked
      · rw [atParent_of_locked hlocked] at hparent
        cases hparent
      rcases path_cases c.path with hnil | ⟨hne, hp⟩ | ⟨p, a, hp⟩
      · rw [hnil, atParent_nil hlocked] at hparent
        cases hparent
        exact .refl h
      · rw [atParent_root hlocked hne hp] at hparent
        cases hparent
      · have hcomponent : ∀ t ∈ p ++ [a], IsComponent t := fun t ht => isComponent_of_mem (hp ▸ ht)
        rw [atParent_concat hlocked hp] at hparent
        obtain ⟨⟨t, success⟩, hwalk, hparent⟩ := bind_eq_ok.mp hparent
        cases hparent
        exact getTreeNode_ok (keepsOk_inParent (hcomponent a (by simp)) c.op)
          (fun t ht => hcomponent t (List.mem_append_left _ ht)) h hwalk

theorem ok_of_reachable {coarseMutex : Bool} (h : (machine coarseMutex).Reachable fs) :
    fs.filetree.Ok ∧ fs.filetree.folder = true := by
  refine h.invariant (P := fun fs => fs.filetree.Ok ∧ fs.filetree.folder = true) ?_ ?_
  · rintro fs rfl
    exact ⟨.make ROOT true fun _ => rfl, rfl⟩
  · rintro fs c fs' ⟨hok, hfolder⟩ ⟨r, hr⟩
    have hreplaces := call_ok hok hr
    exact ⟨hreplaces.ok, hreplaces.folder.trans hfolder⟩

end FSMemory

end DistributedSns.FSWrapper
