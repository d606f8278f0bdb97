import DistributedSns.Coordinator.Lemmas.Invariant
import DistributedSns.FSWrapper.MemoryTheorems

/-!
# The whole tree of the lock service

Every path of the tree is the root, the folder of a lock or the file of a lock. A call on the file of a lock changes no
path but those above and below the file.
-/

namespace DistributedSns.Coordinator

open Lib FSWrapper

/-- Where the lock's file lies in the tree. -/
def Lock.place (l : Lock) : List Str := [l.dir, l.file]

/-- What a call on the lock's file can change. -/
structure LockCall (l : Lock) (fs fs' : FSMemory) : Prop where
  frame : ∀ p, ¬ p <+: l.place → ¬ l.place <+: p → fs'.files p = fs.files p
  old : ∀ p, (fs'.files p).isSome → (fs.files p).isSome ∨ p <+: l.place

/-- The tree has nothing but locks and their folders. -/
def OnlyLocks (fs : FSMemory) : Prop := ∀ p, (fs.files p).isSome → ∃ l : Lock, p <+: l.place

section

variable {fs fs' fs'' : FSMemory} {l : Lock}

/-! ## Calls on the file of a lock -/

theorem LockCall.trans (h : LockCall l fs fs') (h' : LockCall l fs' fs'') : LockCall l fs fs'' where
  frame p habove hbelow := (h'.frame p habove hbelow).trans (h.frame p habove hbelow)
  old p hp := (h'.old p hp).elim (h.old p) .inr

theorem OnlyLocks.call (h : OnlyLocks fs) (hc : LockCall l fs fs') : OnlyLocks fs' := by
  intro p hp
  rcases hc.old p hp with hold | hplace
  · exact h p hold
  · exact ⟨l, hplace⟩

theorem files_dir (h : LockTree fs) (l : Lock) (d : Str) : fs.files [l.dir] ≠ some (.file d) := by
  rw [FSMemory.files, FSTreeNode.files_cons]
  cases hn : fs.filetree.getChild l.dir with
  | none => simp
  | some n => simp [FSTreeNode.entry, h.dirs _ _ hn]

theorem files_root (h : LockTree fs) : fs.files [] = some .folder := by
  simp [FSMemory.files, FSTreeNode.entry, h.root]

/-- The entry of the lock's file. -/
theorem files_place (h : LockTree fs) (l : Lock) : fs.files l.place = (lockData fs l).map .file := by
  rw [FSMemory.files, Lock.place, FSTreeNode.files_cons, lockData, lockDir]
  cases hd : fs.filetree.getChild l.dir with
  | none => rfl
  | some n =>
      rw [Option.bind_some, Option.bind_some, FSTreeNode.files_cons]
      cases hf : n.getChild l.file with
      | none => rfl
      | some m => simp [FSTreeNode.entry, h.files _ _ _ _ hd hf]

theorem lockCall_of_call (h : LockService fs) {op : PathMap.Op Char} {r : PathMap.Result Char}
    (hr : fs.call ⟨l.path, op⟩ = .ok (fs', r)) : LockCall l fs fs' := by
  have hplace : toComponents ⟨l.path, op⟩ = ⟨l.place, op⟩ := by
    rw [toComponents, l.components_path]
    rfl
  have habove : fs.files.NoFileAbove l.place := by
    intro q d hq
    rcases List.prefix_cons_iff.mp hq with rfl | ⟨t, rfl, ht⟩
    · simp [files_root h.toLockTree]
    · rw [List.prefix_nil.mp ht]
      exact files_dir h.toLockTree l d
  have hadmissible : PathMap.Admissible fs.files (toComponents ⟨l.path, op⟩) := by
    rw [hplace]
    exact ⟨List.cons_ne_nil _ _, fun _ => habove⟩
  obtain ⟨t, ht, hfiles⟩ := FSMemory.call_refines h.free hadmissible
  rw [hr, Except.ok.injEq, Prod.mk.injEq] at ht
  obtain ⟨rfl, -⟩ := ht
  have hfiles' : ({ fs with filetree := t } : FSMemory).files = (fs.files.call ⟨l.place, op⟩).1 := by
    rw [← hplace]
    exact hfiles
  constructor
  · intro p hp hp'
    rw [hfiles']
    exact PathMap.call_of_not_affects fun ha => (PathMap.above_or_below_of_affects ha).elim hp hp'
  · intro p hp
    rw [hfiles'] at hp
    exact PathMap.isSome_call hp

variable {folder createDirectories overwrite : Bool} {data : Str} {code : Int}

theorem lockCall_create (h : LockService fs) (hr : fs.create l.path folder createDirectories = .ok (fs', code)) :
    LockCall l fs fs' := by
  have hcall : fs.call ⟨l.path, .create folder createDirectories⟩ = .ok (fs', .code code) := by
    simp only [FSMemory.call, hr, ok_bind]
    rfl
  exact lockCall_of_call h hcall

theorem lockCall_write (h : LockService fs) (hr : fs.write l.path data createDirectories overwrite = .ok (fs', code)) :
    LockCall l fs fs' := by
  have hcall : fs.call ⟨l.path, .write data createDirectories overwrite⟩ = .ok (fs', .code code) := by
    simp only [FSMemory.call, hr, ok_bind]
    rfl
  exact lockCall_of_call h hcall

theorem lockCall_remove (h : LockService fs) (hr : fs.remove l.path = .ok (fs', code)) : LockCall l fs fs' := by
  have hcall : fs.call ⟨l.path, .remove⟩ = .ok (fs', .code code) := by
    simp only [FSMemory.call, hr, ok_bind]
    rfl
  exact lockCall_of_call h hcall

end

/-! ## Heartbeats and checks -/

section

variable {c c' : SNSCoordinator} {i : Nat} {k : Int}

theorem LockService.of_create {fs fs' : FSMemory} {l : Lock} {code : Int} (h : LockService fs)
    (hr : fs.create l.path false true = .ok (fs', code)) : LockService fs' := by
  cases hl : lockData fs l with
  | none =>
      obtain ⟨fs₁, hr₁, hfs⟩ := h.create_of_none hl
      rw [hr, Except.ok.injEq, Prod.mk.injEq] at hr₁
      exact hr₁.1 ▸ hfs.service
  | some d =>
      obtain ⟨fs₁, hr₁, hfs⟩ := h.create_of_some hl
      rw [hr, Except.ok.injEq, Prod.mk.injEq] at hr₁
      exact hr₁.1 ▸ hfs.service

/-- The election makes calls on the file of one lock: the master's or the sender's. -/
theorem elect_lockCall (h : LockService c.filesys) {server : ZNode} {info : ServerInfo}
    {r : SNSCoordinator × Status × Path} (hr : c.elect i server info = .ok r) :
    ∃ l : Lock, l.clusterId = info.clusterid ∧ LockCall l c.filesys r.1.filesys := by
  obtain ⟨found, hfound, hr⟩ := bind_eq_ok.mp hr
  cases found with
  | true =>
      rw [if_pos rfl] at hr
      obtain ⟨⟨fs, code⟩, hwrite, hr⟩ := bind_eq_ok.mp hr
      obtain ⟨⟨code', d⟩, -, hr⟩ := bind_eq_ok.mp hr
      cases hr
      exact ⟨.slave info.clusterid info.serverid, rfl, lockCall_write h hwrite⟩
  | false =>
      rw [if_neg (by simp)] at hr
      obtain ⟨⟨fs, success⟩, hcreate, hr⟩ := bind_eq_ok.mp hr
      have hcall : LockCall (.master info.clusterid) c.filesys fs := lockCall_create h hcreate
      have hservice : LockService fs := h.of_create (l := .master info.clusterid) hcreate
      refine ⟨.master info.clusterid, rfl, ?_⟩
      by_cases hsuccess : success < 0
      · simp only [hsuccess, ↓reduceIte] at hr
        obtain ⟨⟨code, d⟩, -, hr⟩ := bind_eq_ok.mp hr
        cases hr
        exact hcall
      · simp only [hsuccess, ↓reduceIte] at hr
        obtain ⟨⟨fs', code⟩, hwrite, hr⟩ := bind_eq_ok.mp hr
        cases hr
        exact hcall.trans (lockCall_write hservice hwrite)

/-- A heartbeat leaves the tree alone, or makes calls on the file of one lock of its cluster. -/
theorem heartbeat_lockCall (h : LockService c.filesys) {now : Int} {info : ServerInfo}
    {r : SNSCoordinator × Status × Path} (hr : c.heartbeat now info = .ok r) :
    r.1.filesys = c.filesys ∨ ∃ l : Lock, l.clusterId = info.clusterid ∧ LockCall l c.filesys r.1.filesys := by
  cases heartbeat_outcome h hr with
  | rejected hs => exact Or.inl rfl
  | refreshed ha hm => exact Or.inl rfl
  | slave ha hm hlock hfs =>
      rw [heartbeat_of_accepts ha, hm, if_neg (by simp)] at hr
      exact Or.inr (elect_lockCall (c := c.setZNode _ _ _) h hr)
  | elected ha hm hlock hfs hsync =>
      rw [heartbeat_of_accepts ha, hm, if_neg (by simp)] at hr
      exact Or.inr (elect_lockCall (c := c.setZNode _ _ _) h hr)

/-- A check leaves the tree alone, or makes a call on the file of the server's lock. -/
theorem check_lockCall (h : Inv c) {now : Int} (hc : CheckOutcome c now i k c') :
    c'.filesys = c.filesys ∨ ∃ l : Lock, l.clusterId = (i : Int) + 1 ∧ LockCall l c.filesys c'.filesys := by
  cases hc with
  | kept => exact Or.inl rfl
  | missed hz hlate hne => exact Or.inl rfl
  | @expired z fs code hz hlate hone hremove =>
      right
      rw [(h.zNodes i k z hz).path_eq (by omega)] at hremove
      exact ⟨_, z.lock_clusterId i k, lockCall_remove h.service hremove⟩

theorem OnlyLocks.handle (h : Inv c) (ho : OnlyLocks c.filesys) {e : SNSCoordinator.Event}
    (he : c.handle e = .ok c') : OnlyLocks c'.filesys := by
  rcases handle_cases he with ⟨now, info, r, -, hr, rfl⟩ | ⟨now, i, k, -, hc⟩ | ⟨hfs, -⟩
  · rcases heartbeat_lockCall h.service hr with hfs | ⟨l, -, hcall⟩
    · rw [hfs]
      exact ho
    · exact ho.call hcall
  · rcases check_lockCall h (check_outcome hc) with hfs | ⟨l, -, hcall⟩
    · rw [hfs]
      exact ho
    · exact ho.call hcall
  · rw [hfs]
    exact ho

end

end DistributedSns.Coordinator
