import DistributedSns.FSWrapper.MemoryTheorems
import DistributedSns.Lib.Machine

/-!
# The frame of `create`, `write` and `remove`

The three calls lock the mutex, return early for the empty path, and take the last component off the path's
components.
-/

namespace DistributedSns.FSWrapper

open Lib

/-- The walk fails in one way only. -/
theorem getTreeNode_error {α : Type} {node : FSTreeNode} {p : List Str} {create : Bool}
    {k : FSTreeNode → FSTreeNode × α} {e : Fault} (h : getTreeNode node p create k = .error e) :
    e = .nullDereference := by
  induction p generalizing node with
  | nil => cases h
  | cons t p ih =>
      have hdown {next : FSTreeNode} {f : FSTreeNode × Option α → FSTreeNode × Option α}
          (h : (getTreeNode next p create k >>= fun r => .ok (f r)) = .error e) : e = .nullDereference := by
        cases hwalk : getTreeNode next p create k with
        | error e' =>
            rw [hwalk] at h
            cases h
            exact ih hwalk
        | ok r =>
            rw [hwalk] at h
            cases h
      cases hc : node.getChild t with
      | some next =>
          rw [getTreeNode_some hc] at h
          exact hdown h
      | none =>
          cases create with
          | false =>
              rw [getTreeNode_none hc] at h
              cases h
          | true =>
              cases hf : node.folder with
              | true =>
                  rw [getTreeNode_make hc hf] at h
                  exact hdown h
              | false =>
                  rw [getTreeNode_file hc hf] at h
                  split_ifs at h
                  cases h
                  rfl

namespace FSMemory

/-! ## The mutex -/

/-- A call that locks the mutex waits for ever. -/
def Locked (fs : FSMemory) : Prop := fs.coarseMutex = true ∧ fs.fsMutex = true

variable {fs fs' : FSMemory} {file a : Str} {p : List Str} {createDirectories : Bool}
  {k : Str → FSTreeNode → FSTreeNode × Int}

theorem lock_of_locked (h : fs.Locked) : fs.lock = .error .deadlock := by
  simp [lock, h.1, h.2]

theorem lock_of_not_locked (h : ¬ fs.Locked) :
    fs.lock = .ok { fs with fsMutex := fs.coarseMutex || fs.fsMutex } := by
  cases hc : fs.coarseMutex with
  | false =>
      simp only [lock, hc, Bool.not_false, ↓reduceIte, Bool.false_or]
      rw [← hc]
  | true =>
      have hfree : fs.fsMutex = false := Bool.eq_false_iff.mpr fun hm => h ⟨hc, hm⟩
      simp [lock, hc, hfree]

theorem unlock_of_not_locked (h : ¬ fs.Locked) (t : FSTreeNode) :
    ({ fs with fsMutex := fs.coarseMutex || fs.fsMutex, filetree := t } : FSMemory).unlock =
      { fs with filetree := t } := by
  cases hc : fs.coarseMutex with
  | false => simp [unlock]
  | true =>
      have hfree : fs.fsMutex = false := Bool.eq_false_iff.mpr fun hm => h ⟨hc, hm⟩
      simp [unlock, hfree]

/-! ## The four ways through a call -/

theorem atParent_of_locked (h : fs.Locked) : fs.atParent file createDirectories k = .error .deadlock := by
  rw [atParent, lock_of_locked h]
  rfl

/-- The early return leaves the mutex locked. -/
theorem atParent_nil (h : ¬ fs.Locked) :
    fs.atParent [] createDirectories k = .ok ({ fs with fsMutex := fs.coarseMutex || fs.fsMutex }, -1) := by
  rw [atParent, lock_of_not_locked h]
  rfl

theorem atParent_root (h : ¬ fs.Locked) (hne : file ≠ []) (hp : components file = []) :
    fs.atParent file createDirectories k = .error .outOfRange := by
  rw [atParent, lock_of_not_locked h, ok_bind, if_neg hne, splitFilepath_eq, hp]
  rfl

theorem atParent_concat (h : ¬ fs.Locked) (hp : components file = p ++ [a]) :
    fs.atParent file createDirectories k = do
      let (filetree, success) ← getTreeNode fs.filetree p createDirectories (k a)
      return ({ fs with filetree := filetree }, success.getD (-1)) := by
  have hne : file ≠ [] := by
    rintro rfl
    simp at hp
  rw [atParent, lock_of_not_locked h, ok_bind, if_neg hne, splitFilepath_eq, hp, ok_bind, popBack,
    List.getLast?_concat, List.dropLast_concat]
  simp only [ok_bind, unlock_of_not_locked h]

/-! ## Calls -/

/-- The calls which lock the mutex. -/
def locks : PathMap.Op Char → Bool
  | .create .. | .write .. | .remove => true
  | _ => false

theorem call_of_not_locks {c : PathMap.Call Str Char} (h : locks c.op = false) (fs : FSMemory) :
    ∃ r, fs.call c = .ok (fs, r) := by
  unfold call
  cases hop : c.op with
  | create => rw [hop] at h; cases h
  | write => rw [hop] at h; cases h
  | remove => rw [hop] at h; cases h
  | read data offset => exact ⟨_, by simp only [read_refines, ok_bind]; rfl⟩
  | fileExists => exact ⟨_, by simp only [fileExists_refines, ok_bind]; rfl⟩

/-- What a call does in the parent folder. -/
def inParent : PathMap.Op Char → Str → FSTreeNode → FSTreeNode × Int
  | .create folder _ => createIn folder
  | .write data _ overwrite => writeIn data overwrite
  | _ => fun actualFile node => node.removeChild actualFile

theorem call_of_locks {c : PathMap.Call Str Char} (h : locks c.op = true) (fs : FSMemory) :
    fs.call c = do
      let (fs, success) ← fs.atParent c.path c.op.createDirectories (inParent c.op)
      return (fs, .code success) := by
  unfold call
  cases hop : c.op with
  | create => rfl
  | write => rfl
  | remove => rfl
  | read => rw [hop] at h; cases h
  | fileExists => rw [hop] at h; cases h

/-- A call that locks the mutex fails to return in three ways. -/
theorem call_error_iff {c : PathMap.Call Str Char} (h : locks c.op = true) {e : Fault} :
    fs.call c = .error e ↔ fs.atParent c.path c.op.createDirectories (inParent c.op) = .error e := by
  rw [call_of_locks h]
  cases fs.atParent c.path c.op.createDirectories (inParent c.op) with
  | error e' => exact ⟨fun he => by cases he; rfl, fun he => by cases he; rfl⟩
  | ok r => exact iff_of_false nofun nofun

theorem path_cases (file : Str) :
    file = [] ∨ (file ≠ [] ∧ components file = []) ∨ ∃ p a, components file = p ++ [a] := by
  by_cases hne : file = []
  · exact Or.inl hne
  · cases hp : components file using List.reverseRecOn with
    | nil => exact Or.inr (Or.inl ⟨hne, rfl⟩)
    | append_singleton p a => exact Or.inr (Or.inr ⟨p, a, rfl⟩)

theorem atParent_concat_error (h : ¬ fs.Locked) (hp : components file = p ++ [a]) {e : Fault}
    (he : fs.atParent file createDirectories k = .error e) : e = .nullDereference := by
  rw [atParent_concat h hp] at he
  cases hwalk : getTreeNode fs.filetree p createDirectories (k a) with
  | error e' =>
      rw [hwalk] at he
      cases he
      exact getTreeNode_error hwalk
  | ok r =>
      rw [hwalk] at he
      cases he

/-- What a call that returned has done to the mutex. -/
theorem atParent_mutex {code : Int} (h : fs.atParent file createDirectories k = .ok (fs', code)) :
    ¬ fs.Locked ∧ fs'.coarseMutex = fs.coarseMutex ∧
      fs'.fsMutex = if file = [] then fs.coarseMutex || fs.fsMutex else fs.fsMutex := by
  by_cases hl : fs.Locked
  · rw [atParent_of_locked hl] at h
    cases h
  refine ⟨hl, ?_⟩
  rcases path_cases file with rfl | ⟨hne, hp⟩ | ⟨p, a, hp⟩
  · rw [atParent_nil hl] at h
    cases h
    exact ⟨rfl, rfl⟩
  · rw [atParent_root hl hne hp] at h
    cases h
  · have hne : file ≠ [] := by
      rintro rfl
      simp at hp
    rw [atParent_concat hl hp] at h
    obtain ⟨r, -, h⟩ := bind_eq_ok.mp h
    cases h
    exact ⟨rfl, (if_neg hne).symm⟩

/-! ## Runs -/

/-- An `FSMemory` object on which calls are made one after the other. A step is a call that returns. -/
def machine (coarseMutex : Bool) : Machine FSMemory (PathMap.Call Str Char) where
  init fs := fs = .init coarseMutex
  step fs c fs' := ∃ r, fs.call c = .ok (fs', r)

/-- Calls made one after the other are a run if all of them return. -/
theorem reachable_calls {coarseMutex : Bool} {cs : List (PathMap.Call Str Char)} {rs : List (PathMap.Result Char)}
    (h : (machine coarseMutex).Reachable fs) (hr : fs.calls cs = .ok (fs', rs)) :
    (machine coarseMutex).Reachable fs' := by
  induction cs generalizing fs rs with
  | nil =>
      cases hr
      exact h
  | cons c cs ih =>
      obtain ⟨⟨fs₁, r⟩, hc, hr⟩ := bind_eq_ok.mp hr
      obtain ⟨⟨fs₂, rs'⟩, hcs, hr⟩ := bind_eq_ok.mp hr
      cases hr
      exact ih (h.step ⟨r, hc⟩) hcs

/-- A call with the empty path leaves the mutex locked, and no other call does. -/
theorem call_mutex {c : PathMap.Call Str Char} {r : PathMap.Result Char} (h : fs.call c = .ok (fs', r)) :
    fs'.coarseMutex = fs.coarseMutex ∧
      fs'.fsMutex = if locks c.op = true ∧ c.path = [] then fs.coarseMutex || fs.fsMutex else fs.fsMutex := by
  cases hl : locks c.op with
  | false =>
      obtain ⟨r', hr⟩ := call_of_not_locks hl fs
      rw [hr] at h
      cases h
      simp
  | true =>
      rw [call_of_locks hl] at h
      obtain ⟨⟨fs₁, code⟩, hr, h⟩ := bind_eq_ok.mp h
      cases h
      simpa using (atParent_mutex hr).2

theorem coarseMutex_of_run {tr : List (FSMemory × PathMap.Call Str Char)} (h : (machine true).Run (init true) tr fs) :
    fs.coarseMutex = true := by
  refine h.invariant (P := fun fs => fs.coarseMutex = true) rfl ?_
  rintro fs c fs' hc ⟨r, hr⟩
  exact (call_mutex hr).1.trans hc

/-- The mutex is locked after a run exactly if one of its calls had the empty path. -/
theorem fsMutex_of_run {tr : List (FSMemory × PathMap.Call Str Char)} (h : (machine true).Run (init true) tr fs) :
    fs.fsMutex = true ↔ ∃ x ∈ tr, locks x.2.op = true ∧ x.2.path = [] := by
  induction h with
  | nil => simp [init]
  | @snoc tr fs c fs' hrun hstep ih =>
      obtain ⟨r, hr⟩ := hstep
      rw [(call_mutex hr).2, coarseMutex_of_run hrun, Bool.true_or]
      simp only [List.mem_append, List.mem_singleton, or_and_right, exists_or, exists_eq_left, ← ih]
      split_ifs with hc
      · simp [hc]
      · simp [hc]

/-- A call waits for ever exactly if it locks a locked mutex. -/
theorem call_deadlock_iff {c : PathMap.Call Str Char} :
    fs.call c = .error .deadlock ↔ locks c.op = true ∧ fs.Locked := by
  cases hl : locks c.op with
  | false =>
      obtain ⟨r, hr⟩ := call_of_not_locks hl fs
      simp [hr]
  | true =>
      rw [call_error_iff hl, and_iff_right rfl]
      by_cases hlocked : fs.Locked
      · exact iff_of_true (atParent_of_locked hlocked) hlocked
      · refine iff_of_false ?_ hlocked
        intro he
        rcases path_cases c.path with hnil | ⟨hne, hp⟩ | ⟨p, a, hp⟩
        · rw [hnil, atParent_nil hlocked] at he
          cases he
        · rw [atParent_root hlocked hne hp] at he
          cases he
        · cases atParent_concat_error hlocked hp he

/-- Every call of a run has released the mutex, and no call blocks, exactly if no `create`, `write` or `remove` of the
run had the empty path. -/
theorem released_iff {tr : List (FSMemory × PathMap.Call Str Char)}
    (h : (machine true).Run (init true) tr fs) :
    (fs.fsMutex = false ∧ ∀ c, fs.call c ≠ .error .deadlock) ↔
      ∀ x ∈ tr, locks x.2.op = true → x.2.path ≠ [] := by
  have hmutex : fs.fsMutex = false ↔ ∀ x ∈ tr, locks x.2.op = true → x.2.path ≠ [] := by
    rw [← Bool.not_eq_true, fsMutex_of_run h]
    simp
  rw [← hmutex]
  refine ⟨And.left, fun hfree => ⟨hfree, fun c hc => ?_⟩⟩
  have hlocked := (call_deadlock_iff.mp hc).2.2
  rw [hfree] at hlocked
  cases hlocked

/-- A folder is made. -/
def createA : PathMap.Call Str Char := ⟨"/a".toList, .create true false⟩

/-- The same call with the empty path. -/
def createNothing : PathMap.Call Str Char := ⟨[], .create true false⟩

theorem released_iff_createA : ∃ fs, (machine true).Run (init true) [(init true, createA)] fs ∧
    fs.fsMutex = false ∧ ∀ c, fs.call c ≠ .error .deadlock := by
  have hrun : (machine true).Run (init true) [(init true, createA)]
      { init true with filetree := (FSTreeNode.make ROOT true []).setChild ['a'] (.make ['a'] true []) } :=
    .snoc .nil ⟨.code 0, rfl⟩
  refine ⟨_, hrun, (released_iff hrun).mpr ?_⟩
  intro x hx _
  obtain rfl := List.mem_singleton.mp hx
  decide

/-- The call after one with the empty path blocks. -/
theorem released_createNothing :
    ¬ ∀ tr fs, (machine true).Run (init true) tr fs →
      fs.fsMutex = false ∧ ∀ c, fs.call c ≠ .error .deadlock := by
  intro h
  have hrun : (machine true).Run (init true) [(init true, createNothing)] { init true with fsMutex := true } :=
    .snoc .nil ⟨.code (-1), rfl⟩
  exact (h _ _ hrun).2 createA rfl

/-! ## Paths without a component -/

/-- `create`, `write` and `remove` with this path stay in the vector of components, and fail without a change if the
path is that of the root, which exists. -/
structure PathHandled (fs : FSMemory) (file : Str) : Prop where
  inRange : ∀ op, locks op = true → fs.call ⟨file, op⟩ ≠ .error .outOfRange
  root : splitFilepath file = .ok [] → fs.fileExists file = .ok true ∧ ∀ op, locks op = true →
    ∃ fs', fs.call ⟨file, op⟩ = .ok (fs', .code (-1)) ∧ fs'.filetree = fs.filetree

/-- The guard for the empty path is all there is: a path of slashes has no last component. -/
theorem pathHandled_iff (fs : FSMemory) (file : Str) :
    PathHandled fs file ↔ splitFilepath file ≠ .ok [] ∨ (file = [] ∧ ¬ fs.Locked) := by
  have hroot : fs.fileExists file = .ok (fs.files (components file)).isSome := fileExists_refines fs file
  rw [splitFilepath_eq]
  refine ⟨?_, ?_⟩
  · intro h
    by_cases hp : components file = []
    · obtain ⟨-, hcalls⟩ := h.root (by rw [splitFilepath_eq, hp])
      obtain ⟨fs', hr, -⟩ := hcalls .remove rfl
      have hl : ¬ fs.Locked := by
        intro hl
        rw [call_deadlock_iff.mpr ⟨rfl, hl⟩] at hr
        cases hr
      refine Or.inr ⟨?_, hl⟩
      by_contra hne
      exact h.inRange .remove rfl ((call_error_iff rfl).mpr (atParent_root hl hne hp))
    · exact Or.inl fun heq => hp (Except.ok.inj heq)
  · rintro (hp | ⟨rfl, hl⟩)
    · refine ⟨?_, ?_⟩
      · intro op hop he
        rw [call_error_iff hop] at he
        by_cases hl : fs.Locked
        · rw [atParent_of_locked hl] at he
          cases he
        · rcases path_cases file with rfl | ⟨-, hnil⟩ | ⟨p, a, hpa⟩
          · simp at hp
          · exact hp (congrArg _ hnil)
          · cases atParent_concat_error hl hpa he
      · intro hnil
        rw [splitFilepath_eq] at hnil
        exact absurd hnil hp
    · have hcall (op : PathMap.Op Char) (hop : locks op = true) :
          fs.call ⟨[], op⟩ = .ok ({ fs with fsMutex := fs.coarseMutex || fs.fsMutex }, .code (-1)) := by
        rw [call_of_locks hop, atParent_nil hl]
        rfl
      refine ⟨?_, ?_⟩
      · intro op hop he
        rw [hcall op hop] at he
        cases he
      · intro _
        refine ⟨?_, fun op hop => ⟨_, hcall op hop, rfl⟩⟩
        rw [hroot, components_nil]
        rfl

theorem pathHandled_slash : ¬ ∀ fs file, PathHandled fs file := by
  intro h
  exact (h (init true) ['/']).inRange .remove rfl rfl

end FSMemory

end DistributedSns.FSWrapper
