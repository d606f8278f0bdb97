import DistributedSns.FSWrapper.Lemmas.Invariant

/-!
# The names in the tree

A call makes nothing but its path and the folders above it, whether it succeeds or not. So a name that is in the tree
is a component of the path of some call.
-/

namespace DistributedSns.FSWrapper

open Lib FSTreeNode

/-! ## Components -/

theorem mem_of_mem_components {filepath name : Str} {c : Char} (h : name ∈ components filepath) (hc : c ∈ name) :
    c ∈ filepath := by
  have hpart : name ∈ filepath.splitOn '/' := (List.mem_filter.mp h).1
  have hjoin : ['/'].intercalate (filepath.splitOn '/') = filepath := List.intercalate_splitOn '/'
  rw [← hjoin, List.intercalate]
  refine List.mem_flatten.mpr ⟨name, ?_, hc⟩
  clear hjoin
  generalize filepath.splitOn '/' = parts at hpart ⊢
  induction parts with
  | nil => cases hpart
  | cons part parts ih =>
      cases parts with
      | nil => simpa using hpart
      | cons part' parts =>
          rw [List.intersperse_cons_cons]
          rcases List.mem_cons.mp hpart with rfl | hpart
          · exact List.mem_cons_self
          · exact List.mem_cons_of_mem _ (List.mem_cons_of_mem _ (ih hpart))

/-! ## The walk -/

section

variable {α : Type} {node node' : FSTreeNode} {p r : List Str} {create : Bool} {k : FSTreeNode → FSTreeNode × α}

/-- The node is changed into one which only has new entries on the way `r`. -/
def OnlyAdds (node' node : FSTreeNode) (r : List Str) : Prop :=
  ∀ q, (node'.files q).isSome → (node.files q).isSome ∨ q <+: r

theorem OnlyAdds.refl (node : FSTreeNode) (r : List Str) : OnlyAdds node node r := fun _ h => Or.inl h

theorem OnlyAdds.setChild {next' : FSTreeNode} {t : Str}
    (h : ∀ q, (next'.files q).isSome → (node.files (t :: q)).isSome ∨ q <+: r) :
    OnlyAdds (node.setChild t next') node (t :: r) := by
  intro q hq
  rw [files_setChild] at hq
  by_cases hp : [t] <+: q
  · obtain ⟨q, rfl⟩ := hp
    rw [PathMap.graft_append] at hq
    exact (h q hq).imp_right fun hr => (List.prefix_cons_inj t).mpr hr
  · rw [PathMap.graft_of_not_below hp] at hq
    exact Or.inl hq

theorem getTreeNode_onlyAdds (hk : ∀ n, OnlyAdds (k n).1 n r) {a : Option α}
    (hr : getTreeNode node p create k = .ok (node', a)) : OnlyAdds node' node (p ++ r) := by
  induction p generalizing node node' a with
  | nil =>
      cases hr
      exact hk node
  | cons t p ih =>
      -- the walk goes on in the child `next`
      have hdown {next : FSTreeNode} (hnext : ∀ q, (next.files q).isSome → (node.files (t :: q)).isSome ∨ q = [])
          {x : FSTreeNode × Option α}
          (hr : (getTreeNode next p create k >>= fun r => .ok (node.setChild t r.1, r.2)) = .ok x) :
          OnlyAdds x.1 node (t :: p ++ r) := by
        obtain ⟨⟨next', b⟩, hwalk, hr⟩ := bind_eq_ok.mp hr
        cases hr
        apply OnlyAdds.setChild
        intro q hq
        rcases ih hwalk q hq with hold | hnew
        · rcases hnext q hold with hold | rfl
          · exact Or.inl hold
          · exact Or.inr List.nil_prefix
        · exact Or.inr hnew
      cases hc : node.getChild t with
      | some next =>
          rw [getTreeNode_some hc] at hr
          refine hdown (fun q hq => Or.inl ?_) hr
          rwa [files_cons, hc, Option.bind_some]
      | none =>
          cases create with
          | false =>
              rw [getTreeNode_none hc] at hr
              cases hr
              exact .refl node _
          | true =>
              cases hf : node.folder with
              | false =>
                  rw [getTreeNode_file hc hf] at hr
                  split_ifs at hr
                  cases hr
                  exact .refl node _
              | true =>
                  rw [getTreeNode_make hc hf] at hr
                  refine hdown (fun q hq => Or.inr ?_) hr
                  rw [files_make] at hq
                  by_contra hne
                  rw [if_neg hne] at hq
                  cases hq

end

/-! ## Calls -/

section

variable {a : Str}

theorem onlyAdds_of_call {n n' : FSTreeNode} (op : PathMap.Op Char) (h : n'.files = (n.files.call ⟨[a], op⟩).1) :
    OnlyAdds n' n [a] := by
  intro q hq
  rw [h] at hq
  exact PathMap.isSome_call hq

/-- Nothing but the named child is made in the parent folder. -/
theorem inParent_onlyAdds (op : PathMap.Op Char) (a : Str) (n : FSTreeNode) :
    OnlyAdds (FSMemory.inParent op a n).1 n [a] := by
  have hremove : OnlyAdds (n.removeChild a).1 n [a] :=
    onlyAdds_of_call .remove (congrArg Prod.fst (removeChild_refines n a))
  cases op with
  | create folder =>
      exact onlyAdds_of_call (.create folder false) (congrArg Prod.fst (createIn_refines n a folder))
  | write data _ overwrite =>
      exact onlyAdds_of_call (.write data false overwrite) (congrArg Prod.fst (writeIn_refines n a data overwrite))
  | remove => exact hremove
  | read => exact hremove
  | fileExists => exact hremove

end

namespace FSMemory

variable {fs fs' : FSMemory}

/-- A call which returns makes nothing but its path and the folders above it. -/
theorem isSome_call {c : PathMap.Call Str Char} {r : PathMap.Result Char} (hr : fs.call c = .ok (fs', r))
    {q : List Str} (hq : (fs'.files q).isSome) : (fs.files q).isSome ∨ q <+: components c.path := by
  cases hl : locks c.op with
  | false =>
      obtain ⟨r', hr'⟩ := call_of_not_locks hl fs
      rw [hr'] at hr
      cases hr
      exact Or.inl hq
  | true =>
      rw [call_of_locks hl] at hr
      obtain ⟨⟨fs₁, code⟩, hparent, hr⟩ := bind_eq_ok.mp hr
      cases hr
      by_cases hlocked : fs.Locked
      · rw [atParent_of_locked hlocked] at hparent
        cases hparent
      rcases path_cases c.path with hnil | ⟨hne, hp⟩ | ⟨p, a, hp⟩
      · rw [hnil, atParent_nil hlocked] at hparent
        cases hparent
        exact Or.inl hq
      · rw [atParent_root hlocked hne hp] at hparent
        cases hparent
      · rw [atParent_concat hlocked hp] at hparent
        obtain ⟨⟨t, success⟩, hwalk, hparent⟩ := bind_eq_ok.mp hparent
        cases hparent
        rw [hp]
        exact getTreeNode_onlyAdds (inParent_onlyAdds c.op a) hwalk q hq

theorem isSome_calls {cs : List (PathMap.Call Str Char)} {rs : List (PathMap.Result Char)}
    (h : fs.calls cs = .ok (fs', rs)) {q : List Str} (hq : (fs'.files q).isSome) :
    (fs.files q).isSome ∨ ∃ c ∈ cs, q <+: components c.path := by
  induction cs generalizing fs rs with
  | nil =>
      cases h
      exact Or.inl hq
  | cons c cs ih =>
      obtain ⟨⟨fs₁, r⟩, hc, h⟩ := bind_eq_ok.mp h
      obtain ⟨⟨fs₂, rs'⟩, hcs, h⟩ := bind_eq_ok.mp h
      cases h
      rcases ih hcs with hold | ⟨c', hc', hp⟩
      · exact (isSome_call hc hold).imp_right fun hp => ⟨c, List.mem_cons_self, hp⟩
      · exact Or.inr ⟨c', List.mem_cons_of_mem _ hc', hp⟩

/-- A name in the tree is a component of the path of one of the calls which have made the tree. -/
theorem exists_of_name {coarseMutex : Bool} {cs : List (PathMap.Call Str Char)} {rs : List (PathMap.Result Char)}
    (h : (init coarseMutex).calls cs = .ok (fs, rs)) {q : List Str} (hq : (fs.files q).isSome) {name : Str}
    (hname : name ∈ q) : ∃ c ∈ cs, name ∈ components c.path := by
  rcases isSome_calls h hq with hroot | ⟨c, hc, hp⟩
  · rw [files_init, PathMap.empty] at hroot
    split_ifs at hroot with hnil
    · rw [hnil] at hname
      cases hname
    · cases hroot
  · exact ⟨c, hc, hp.subset hname⟩

end FSMemory

end DistributedSns.FSWrapper
