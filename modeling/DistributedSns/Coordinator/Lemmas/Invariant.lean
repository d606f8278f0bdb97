import DistributedSns.Coordinator.Lemmas.Steps

/-!
# The invariant of the coordinator

The `zNode`s, the master flags and the lock files belong together. A server which missed two heartbeats
keeps its old path, which may by then name the lock of another master. So the path of a `zNode` is only
constrained while fewer than two heartbeats are missed, and no lock is released after that.
-/

namespace DistributedSns.Coordinator

open Lib FSWrapper

/-! ## The invariant -/

/-- The fields of the `zNode` with key `k` in the cluster with index `i`. -/
structure ZNodeOk (fs : FSMemory) (i : Nat) (k : Int) (z : ZNode) : Prop where
  serverId : z.serverId = k
  clusterId : z.clusterId = i + 1
  path : z.path = getMasterFilepath (i + 1) ∨ z.path = getSlaveFilepath (i + 1) k
  master : z.master = true → z.path = getMasterFilepath (i + 1) ∧ z.missedHeartbeats < 2
  slave : z.master = false → z.missedHeartbeats < 2 → z.path = getSlaveFilepath (i + 1) k
  dir : z.missedHeartbeats < 2 → (lockDir fs (.master (i + 1))).isSome

structure Inv (c : SNSCoordinator) : Prop where
  service : LockService c.filesys
  zNodes : ∀ i k z, c.zNode? i k = some z → ZNodeOk c.filesys i k z
  unique : ∀ i k k' z z', c.zNode? i k = some z → c.zNode? i k' = some z' →
    z.master = true → z'.master = true → k = k'
  lock : ∀ i : Nat, i < c.clusters.length →
    ((lockData c.filesys (.master (i + 1))).isSome ↔ HasMaster c i)

theorem ZNodeOk.mono {fs fs' : FSMemory} {m : Lock → Option Str} {i : Nat} {k : Int} {z : ZNode}
    (h : ZNodeOk fs i k z) (hfs : LockStep fs fs' m) : ZNodeOk fs' i k z where
  serverId := h.serverId
  clusterId := h.clusterId
  path := h.path
  master := h.master
  slave := h.slave
  dir hz := hfs.dirs _ (h.dir hz)

theorem zNode?_init (numClusters : Int) (i : Nat) (k : Int) :
    (SNSCoordinator.init numClusters).zNode? i k = none := by
  simp only [SNSCoordinator.zNode?, SNSCoordinator.init, List.getElem?_replicate]
  split_ifs <;> rfl

theorem Inv.init (numClusters : Int) : Inv (.init numClusters) where
  service := .init
  zNodes i k z hz := by simp [zNode?_init] at hz
  unique i k k' z z' hz := by simp [zNode?_init] at hz
  lock i hi := by
    have hfs : (SNSCoordinator.init numClusters).filesys = .init true := rfl
    simp [HasMaster, zNode?_init, hfs, lockData_init]

theorem Inv.congr {c c' : SNSCoordinator} (h : Inv c) (hfs : c'.filesys = c.filesys)
    (hcl : c'.clusters = c.clusters) : Inv c' := by
  have hz (i : Nat) (k : Int) : c'.zNode? i k = c.zNode? i k := by
    rw [SNSCoordinator.zNode?, SNSCoordinator.zNode?, hcl]
  constructor
  · rw [hfs]; exact h.service
  · intro i k z; rw [hz, hfs]; exact h.zNodes i k z
  · intro i k k' z z'; rw [hz, hz]; exact h.unique i k k' z z'
  · intro i; simp only [HasMaster, hz, hfs, hcl]; exact h.lock i

/-! ## One `zNode` changes -/

/-- Another server of the cluster with index `i` than `k` is master. -/
def OtherMaster (c : SNSCoordinator) (i : Nat) (k : Int) : Prop :=
  ∃ k' z', k' ≠ k ∧ c.zNode? i k' = some z' ∧ z'.master = true

theorem hasMaster_setZNode {c : SNSCoordinator} {i : Nat} (hi : i < c.clusters.length) (k : Int)
    (z : ZNode) : HasMaster (c.setZNode i k z) i ↔ z.master = true ∨ OtherMaster c i k := by
  constructor
  · rintro ⟨k', z', hz', hm⟩
    rw [c.zNode?_setZNode hi] at hz'
    split_ifs at hz' with he
    · cases hz'
      exact Or.inl hm
    · exact Or.inr ⟨k', z', by simpa using he, hz', hm⟩
  · rintro (hm | ⟨k', z', hne, hz', hm⟩)
    · exact ⟨k, z, by simp [c.zNode?_setZNode hi], hm⟩
    · exact ⟨k', z', by simp [c.zNode?_setZNode hi, hne, hz'], hm⟩

theorem hasMaster_setZNode_of_ne {c : SNSCoordinator} {i j : Nat} (hi : i < c.clusters.length)
    (hj : j ≠ i) (k : Int) (z : ZNode) : HasMaster (c.setZNode i k z) j ↔ HasMaster c j := by
  simp [HasMaster, c.zNode?_setZNode hi, hj]

/-- The invariant survives a change of one `zNode` together with its cluster's lock. -/
theorem Inv.setZNode {c : SNSCoordinator} (h : Inv c) {fs : FSMemory} {m : Lock → Option Str} {i : Nat}
    (hi : i < c.clusters.length) {k : Int} {z : ZNode} (hfs : LockStep c.filesys fs m)
    (hz : ZNodeOk fs i k z) (hunique : z.master = true → ¬ OtherMaster c i k)
    (hlock : (m (.master (i + 1))).isSome ↔ z.master = true ∨ OtherMaster c i k)
    (hother : ∀ j : Nat, j ≠ i → m (.master (j + 1)) = lockData c.filesys (.master (j + 1))) :
    Inv ((c.withFilesys fs).setZNode i k z) where
  service := hfs.service
  zNodes := by
    intro i' k' z' hz'
    rw [c.zNode?_withFilesys_setZNode hi] at hz'
    split_ifs at hz' with he
    · cases hz'
      rw [he.1, he.2]
      exact hz
    · exact (h.zNodes i' k' z' hz').mono hfs
  unique := by
    intro i' k₁ k₂ z₁ z₂ hz₁ hz₂ hm₁ hm₂
    rw [c.zNode?_withFilesys_setZNode hi] at hz₁ hz₂
    split_ifs at hz₁ hz₂ with h₁ h₂ h₂
    · rw [h₁.2, h₂.2]
    · cases hz₁
      rw [h₁.1] at hz₂ h₂
      exact absurd ⟨k₂, z₂, by simpa using h₂, hz₂, hm₂⟩ (hunique hm₁)
    · cases hz₂
      rw [h₂.1] at hz₁ h₁
      exact absurd ⟨k₁, z₁, by simpa using h₁, hz₁, hm₁⟩ (hunique hm₂)
    · exact h.unique i' k₁ k₂ z₁ z₂ hz₁ hz₂ hm₁ hm₂
  lock := by
    intro j hj
    rw [SNSCoordinator.filesys_setZNode, SNSCoordinator.filesys_withFilesys, hfs.data]
    by_cases he : j = i
    · rw [he, hasMaster_setZNode (c := c.withFilesys fs) hi]
      exact hlock
    · rw [hother j he, hasMaster_setZNode_of_ne (c := c.withFilesys fs) hi he]
      exact h.lock j (by simpa using hj)

/-! ## Heartbeats -/

@[simp] theorem beat_missedHeartbeats (c : SNSCoordinator) (now : Int) (info : ServerInfo) (i : Nat) :
    (beat c now info i).missedHeartbeats = 0 := rfl

/-- A heartbeat keeps path and flag of the `zNode`. -/
theorem beat_of_master {c : SNSCoordinator} {now : Int} {info : ServerInfo} {i : Nat}
    (hm : (beat c now info i).master = true) : ∃ z, c.zNode? i info.serverid = some z ∧
      z.master = true ∧ (beat c now info i).path = z.path := by
  cases hz : c.zNode? i info.serverid with
  | none => simp [beat, hz, ZNode.setFromServerInfo, ZNode.updateHeartbeat] at hm
  | some z =>
      rw [beat, hz] at hm ⊢
      exact ⟨z, rfl, hm, rfl⟩

theorem Inv.heartbeat {c : SNSCoordinator} (h : Inv c) {now : Int} {info : ServerInfo}
    {r : SNSCoordinator × Status × Path} (hr : HeartbeatOutcome c now info r) : Inv r.1 := by
  cases hr with
  | rejected _ => exact h
  | @refreshed i ha hm =>
      obtain ⟨z, hz, hzm, hpath⟩ := beat_of_master hm
      have hzok := h.zNodes i _ z hz
      refine h.setZNode (m := lockData c.filesys) ha.lt (.refl h.service) ?_ ?_ ?_ (fun _ _ => rfl)
      · exact {
          serverId := rfl
          clusterId := ha.clusterid
          path := Or.inl (hpath.trans (hzok.master hzm).1)
          master := fun _ => ⟨hpath.trans (hzok.master hzm).1, by simp⟩
          slave := fun hf => by simp [hm] at hf
          dir := fun _ => hzok.dir (hzok.master hzm).2 }
      · rintro - ⟨k', z', hne, hz', hm'⟩
        exact hne (h.unique i _ _ _ _ hz' hz hm' hzm)
      · simp only [hm, true_or, iff_true]
        exact (h.lock i ha.lt).mpr ⟨_, z, hz, hzm⟩
  | @slave i fs d ha hm hlock hfs =>
      have hself : OtherMaster c i info.serverid := by
        rw [ha.clusterid] at hlock
        obtain ⟨k, z, hz, hzm⟩ := (h.lock i ha.lt).mp (by rw [hlock]; rfl)
        refine ⟨k, z, ?_, hz, hzm⟩
        -- the sender is no master, so the lock belongs to another server
        rintro rfl
        simp [beat, hz, ZNode.setFromServerInfo, ZNode.updateHeartbeat, hzm] at hm
      rw [ha.clusterid] at hfs hlock ⊢
      refine h.setZNode ha.lt hfs ?_ ?_ ?_ ?_
      · exact {
          serverId := rfl
          clusterId := ha.clusterid
          path := Or.inr rfl
          master := fun ht => by simp [hm] at ht
          slave := fun _ _ => rfl
          dir := fun _ => hfs.dirs _ (lockDir_of_lockData (by rw [hlock]; rfl)) }
      · intro ht
        simp [hm] at ht
      · simp [hlock, hself]
      · intro j hj
        rw [Function.update_of_ne (by simp)]
  | @elected i fs sync ha hm hlock hfs hsync =>
      rw [ha.clusterid] at hlock hfs ⊢
      have hno : ¬ OtherMaster c i info.serverid := by
        rintro ⟨k, z, -, hz, hzm⟩
        have := (h.lock i ha.lt).mpr ⟨k, z, hz, hzm⟩
        simp [hlock] at this
      refine h.setZNode ha.lt hfs ?_ (fun _ => hno) ?_ ?_
      · exact {
          serverId := rfl
          clusterId := ha.clusterid
          path := Or.inl rfl
          master := fun _ => ⟨rfl, by simp⟩
          slave := fun hf => by simp at hf
          dir := fun _ => lockDir_of_lockData (by rw [hfs.data, Function.update_self]; rfl) }
      · simp
      · intro j hj
        rw [Function.update_of_ne (by simpa using hj)]

/-! ## Checks -/

theorem otherMaster_iff {c : SNSCoordinator} (h : Inv c) {i : Nat} {k : Int} {z : ZNode}
    (hz : c.zNode? i k = some z) :
    (z.master = true → ¬ OtherMaster c i k) ∧ (HasMaster c i ↔ z.master = true ∨ OtherMaster c i k) := by
  constructor
  · rintro hm ⟨k', z', hne, hz', hm'⟩
    exact hne (h.unique i _ _ _ _ hz' hz hm' hm)
  · constructor
    · rintro ⟨k', z', hz', hm'⟩
      by_cases hk : k' = k
      · subst hk
        rw [hz', Option.some.injEq] at hz
        exact Or.inl (hz ▸ hm')
      · exact Or.inr ⟨k', z', hk, hz', hm'⟩
    · rintro (hm | ⟨k', z', -, hz', hm'⟩)
      · exact ⟨k, z, hz, hm⟩
      · exact ⟨k', z', hz', hm'⟩

theorem ZNodeOk.path_eq {fs : FSMemory} {i : Nat} {k : Int} {z : ZNode} (h : ZNodeOk fs i k z)
    (hz : z.missedHeartbeats < 2) :
    z.path = (z.lock i k).path := by
  rw [ZNode.lock]
  cases hm : z.master with
  | true => exact (h.master hm).1
  | false => exact h.slave hm hz

theorem Inv.remove_eq {c : SNSCoordinator} (h : Inv c) {i : Nat} {k : Int} {z : ZNode}
    (hz : c.zNode? i k = some z) (hone : z.missedHeartbeats = 1) :
    ∃ fs code, c.filesys.remove z.path = .ok (fs, code) ∧
      LockStep c.filesys fs (Function.update (lockData c.filesys) (z.lock i k) none) := by
  have hzok := h.zNodes i k z hz
  have hlt : z.missedHeartbeats < 2 := by omega
  rw [hzok.path_eq hlt]
  apply h.service.remove_eq
  have hdir := hzok.dir hlt
  rw [ZNode.lock]
  cases z.master
  · rwa [if_neg (by simp), lockDir_slave]
  · exact hdir

theorem Inv.lockStep_of_remove {c : SNSCoordinator} (h : Inv c) {i : Nat} {k : Int} {z : ZNode}
    (hz : c.zNode? i k = some z) (hone : z.missedHeartbeats = 1) {fs : FSWrapper.FSMemory} {code : Int}
    (hremove : c.filesys.remove z.path = .ok (fs, code)) :
    LockStep c.filesys fs (Function.update (lockData c.filesys) (z.lock i k) none) := by
  obtain ⟨fs', code', hr, hfs⟩ := h.remove_eq hz hone
  rw [hremove, Except.ok.injEq, Prod.mk.injEq] at hr
  rwa [hr.1]

theorem Inv.check {c c' : SNSCoordinator} (h : Inv c) {now : Int} {i : Nat} {k : Int}
    (hc : CheckOutcome c now i k c') : Inv c' := by
  cases hc with
  | kept => exact h
  | @missed z hz _ hne =>
      have hzok := h.zNodes i k z hz
      have hi := c.lt_length_of_zNode? hz
      obtain ⟨hunique, hhas⟩ := otherMaster_iff h hz
      refine h.setZNode (m := lockData c.filesys) hi (.refl h.service) ?_ hunique
        ((h.lock i hi).trans hhas) (fun _ _ => rfl)
      exact {
        serverId := hzok.serverId
        clusterId := hzok.clusterId
        path := hzok.path
        master := fun hm => ⟨(hzok.master hm).1, by have := (hzok.master hm).2; simp only; omega⟩
        slave := fun hm hlt => hzok.slave hm (by simp only at hlt; omega)
        dir := fun hlt => hzok.dir (by simp only at hlt; omega) }
  | @expired z fs code hz _ hone hremove =>
      have hzok := h.zNodes i k z hz
      have hi := c.lt_length_of_zNode? hz
      obtain ⟨hunique, hhas⟩ := otherMaster_iff h hz
      have hfs := h.lockStep_of_remove hz hone hremove
      rw [ZNode.lock] at hfs
      refine h.setZNode hi hfs ?_ (fun ht => by simp at ht) ?_ ?_
      · exact {
          serverId := hzok.serverId
          clusterId := hzok.clusterId
          path := hzok.path
          master := fun hm => by simp at hm
          slave := fun _ hlt => by simp at hlt
          dir := fun hlt => by simp at hlt }
      · cases hm : z.master with
        | true => simp [hunique hm]
        | false =>
            have := (h.lock i hi).trans hhas
            simpa [hm] using this
      · intro j hj
        rw [Function.update_of_ne]
        split_ifs
        · simpa using hj
        · simp

/-! ## Runs -/

theorem Inv.handle {c c' : SNSCoordinator} (h : Inv c) {e : SNSCoordinator.Event}
    (he : c.handle e = .ok c') : Inv c' := by
  rcases handle_cases he with ⟨now, info, r, -, hr, rfl⟩ | ⟨now, i, k, -, hc⟩ | ⟨hfs, hcl⟩
  · exact h.heartbeat (heartbeat_outcome h.service hr)
  · exact h.check (check_outcome hc)
  · exact h.congr hfs hcl

theorem Inv.of_reachable {numClusters : Int} {c : SNSCoordinator}
    (h : (SNSCoordinator.machine numClusters).Reachable c) : Inv c := by
  refine h.invariant ?_ fun s e s' hP hs => hP.handle hs
  rintro s rfl
  exact .init numClusters

end DistributedSns.Coordinator
