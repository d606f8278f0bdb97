import DistributedSns.Coordinator.Lemmas.LockFiles
import DistributedSns.Coordinator.SyncTheorems

/-!
# Lock files and their owners

A server owns the lock file its path names while it has missed fewer than two heartbeats. A slave which is made master
takes the master lock and keeps the file of its slave lock, which no path names from then on.
-/

namespace DistributedSns.Coordinator

open Lib FSWrapper

variable {numClusters : Int} {c c' : SNSCoordinator} {e : SNSCoordinator.Event} {i : Nat} {k : Int}
  {tr : List (SNSCoordinator × SNSCoordinator.Event)}

/-- The server is a slave whose lock has not been released. -/
def HoldsSlaveLock (c : SNSCoordinator) (i : Nat) (k : Int) : Prop :=
  ∃ z, c.zNode? i k = some z ∧ z.master = false ∧ z.missedHeartbeats < 2

/-- The heartbeat makes a slave master which holds its slave lock. -/
def Promotes (i : Nat) (k : Int) (c : SNSCoordinator) (e : SNSCoordinator.Event) : Prop :=
  ∃ now info, e = .heartbeat now info ∧ info.serverid = k ∧ Accepts c info i ∧ HoldsSlaveLock c i k ∧ ¬ HasMaster c i

/-- The files in the folders of the clusters are the locks of the servers which have missed fewer than two
heartbeats. -/
structure NoLeak (c : SNSCoordinator) : Prop where
  /-- Every file is the path of one of them. -/
  owned : ∀ (clusterId : Int) (p : List Str) (d : Str),
    c.filesys.files ((Lock.master clusterId).dir :: p) = some (.file d) →
      ∃ i : Nat, clusterId = (i : Int) + 1 ∧ ∃! k, ∃ z, c.zNode? i k = some z ∧ z.missedHeartbeats < 2 ∧
        components z.path = (Lock.master clusterId).dir :: p
  /-- The path of each of them is a file of its cluster's folder. -/
  locked : ∀ i k z, c.zNode? i k = some z → z.missedHeartbeats < 2 →
    ∃ p d, components z.path = (Lock.master (i + 1)).dir :: p ∧ c.filesys.files (components z.path) = some (.file d)

/-! ## One step -/

/-- The file of the slave lock of a server. -/
def slaveLock? (c : SNSCoordinator) (i : Nat) (k : Int) : Option Str := lockData c.filesys (.slave (i + 1) k)

/-- What a step does to a slave lock and to who holds it. -/
inductive SlaveLockStep (c c' : SNSCoordinator) (e : SNSCoordinator.Event) (i : Nat) (k : Int) : Prop
  | kept (hfile : slaveLock? c' i k = slaveLock? c i k) (hholds : HoldsSlaveLock c' i k ↔ HoldsSlaveLock c i k)
  | acquired (hfile : (slaveLock? c' i k).isSome) (hholds : HoldsSlaveLock c' i k)
  | released (hfile : slaveLock? c' i k = none) (hholds : ¬ HoldsSlaveLock c' i k)
  | promoted (hp : Promotes i k c e) (hfile : slaveLock? c' i k = slaveLock? c i k) (hholds : ¬ HoldsSlaveLock c' i k)

theorem holdsSlaveLock_setZNode {j : Nat} (hj : j < c.clusters.length) (fs : FSMemory) (k' : Int) (z : ZNode) :
    HoldsSlaveLock ((c.withFilesys fs).setZNode j k' z) i k ↔
      if i = j ∧ k = k' then z.master = false ∧ z.missedHeartbeats < 2 else HoldsSlaveLock c i k := by
  simp only [HoldsSlaveLock, c.zNode?_withFilesys_setZNode hj]
  split_ifs
  · simp
  · rfl

theorem slaveLock_ne {j : Nat} {k' : Int} (h : ¬ (i = j ∧ k = k')) :
    Lock.slave ((i : Int) + 1) k ≠ .slave ((j : Int) + 1) k' := by
  intro heq
  injection heq with hid hk
  exact h ⟨by omega, hk⟩

theorem slaveLockStep_heartbeat (h : Inv c) {now : Int} {info : ServerInfo} {r : SNSCoordinator × Status × Path}
    (hr : HeartbeatOutcome c now info r) (i : Nat) (k : Int) : SlaveLockStep c r.1 (.heartbeat now info) i k := by
  cases hr with
  | rejected hs => exact .kept rfl Iff.rfl
  | @refreshed j ha hm =>
      refine .kept rfl ((holdsSlaveLock_setZNode ha.lt c.filesys _ _).trans ?_)
      split_ifs with hik
      · obtain ⟨rfl, rfl⟩ := hik
        obtain ⟨z, hz, hzm, -⟩ := beat_of_master hm
        simp [hm, HoldsSlaveLock, hz, hzm]
      · rfl
  | @slave j fs d ha hm hlock hfs =>
      have hholds := holdsSlaveLock_setZNode (i := i) (k := k) ha.lt fs info.serverid
        { beat c now info j with path := getSlaveFilepath info.clusterid info.serverid }
      have hdata := congrFun hfs.data (.slave (i + 1) k)
      rw [ha.clusterid] at hdata
      by_cases hik : i = j ∧ k = info.serverid
      · rw [if_pos hik] at hholds
        rw [hik.1, hik.2, Function.update_self] at hdata
        refine .acquired ?_ (hholds.mpr ⟨hm, by simp⟩)
        obtain ⟨rfl, rfl⟩ := hik
        exact Option.isSome_iff_exists.mpr ⟨_, hdata⟩
      · rw [if_neg hik] at hholds
        rw [Function.update_of_ne (slaveLock_ne hik)] at hdata
        exact .kept hdata hholds
  | @elected j fs sync ha hm hlock hfs hsync =>
      have hholds := holdsSlaveLock_setZNode (i := i) (k := k) ha.lt fs info.serverid
        { beat c now info j with path := getMasterFilepath info.clusterid, master := true }
      have hdata := congrFun hfs.data (.slave (i + 1) k)
      rw [Function.update_of_ne (by simp)] at hdata
      by_cases hik : i = j ∧ k = info.serverid
      · rw [if_pos hik] at hholds
        obtain ⟨rfl, rfl⟩ := hik
        have hnot : ¬ (true = false ∧ (beat c now info i).missedHeartbeats < 2) := by simp
        by_cases hbefore : HoldsSlaveLock c i info.serverid
        · refine .promoted ⟨now, info, rfl, rfl, ha, hbefore, ?_⟩ hdata fun hafter => hnot (hholds.mp hafter)
          rw [← h.lock i ha.lt, ← ha.clusterid, hlock]
          simp
        · exact .kept hdata (iff_of_false (fun hafter => hnot (hholds.mp hafter)) hbefore)
      · rw [if_neg hik] at hholds
        exact .kept hdata hholds

theorem slaveLockStep_check (h : Inv c) {now : Int} {j : Nat} {k' : Int} (hc : CheckOutcome c now j k' c')
    (i : Nat) (k : Int) : SlaveLockStep c c' (.check now j k') i k := by
  cases hc with
  | kept => exact .kept rfl Iff.rfl
  | @missed z hz hlate hne =>
      have hi := SNSCoordinator.lt_length_of_zNode? hz
      refine .kept rfl ((holdsSlaveLock_setZNode hi c.filesys _ _).trans ?_)
      split_ifs with hik
      · obtain ⟨rfl, rfl⟩ := hik
        simp only [HoldsSlaveLock, hz, Option.some.injEq, exists_eq_left']
        exact and_congr_right fun _ => by omega
      · rfl
  | @expired z fs code hz hlate hone hremove =>
      have hi := SNSCoordinator.lt_length_of_zNode? hz
      have hfs := h.lockStep_of_remove hz hone hremove
      rw [ZNode.lock] at hfs
      have hholds := holdsSlaveLock_setZNode (i := i) (k := k) hi fs k' { z with missedHeartbeats := 2, master := false }
      have hdata := congrFun hfs.data (.slave (i + 1) k)
      by_cases hik : i = j ∧ k = k'
      · obtain ⟨rfl, rfl⟩ := hik
        rw [if_pos ⟨rfl, rfl⟩] at hholds
        have hafter := (not_congr hholds).mpr (by simp)
        cases hm : z.master with
        | false =>
            rw [hm, if_neg (by simp), Function.update_self] at hdata
            exact .released hdata hafter
        | true =>
            rw [hm, if_pos rfl, Function.update_of_ne (by simp)] at hdata
            refine .kept hdata (iff_of_false hafter ?_)
            simp [HoldsSlaveLock, hz, hm]
      · rw [if_neg hik] at hholds
        rw [Function.update_of_ne] at hdata
        · exact .kept hdata hholds
        · split_ifs
          · simp
          · exact slaveLock_ne hik

theorem slaveLockStep (h : Inv c) (he : c.handle e = .ok c') (i : Nat) (k : Int) : SlaveLockStep c c' e i k := by
  rcases handle_cases he with ⟨now, info, r, rfl, hr, rfl⟩ | ⟨now, j, k', rfl, hc⟩ | ⟨hfs, hcl⟩
  · exact slaveLockStep_heartbeat h (heartbeat_outcome h.service hr) i k
  · exact slaveLockStep_check h (check_outcome hc) i k
  · refine .kept ?_ ?_
    · rw [slaveLock?, slaveLock?, hfs]
    · simp only [HoldsSlaveLock, zNode?_congr hcl]

/-! ## The lock files of every reachable state -/

/-- Only the clusters have locks, and every server which is a slave and has missed fewer than two heartbeats has its
slave lock. -/
structure LockInv (c : SNSCoordinator) : Prop where
  inv : Inv c
  only : OnlyLocks c.filesys
  range : ∀ l : Lock, (lockData c.filesys l).isSome → ∃ i : Nat, i < c.clusters.length ∧ l.clusterId = (i : Int) + 1
  slaves : ∀ i k, HoldsSlaveLock c i k → (slaveLock? c i k).isSome

theorem isSome_update {m : Lock → Option Str} {l l' : Lock} {d : Option Str}
    (h : (Function.update m l d l').isSome) : (m l').isSome ∨ l' = l := by
  rw [Function.update_apply] at h
  split_ifs at h with hl
  · exact Or.inr hl
  · exact Or.inl h

theorem range_handle (h : Inv c) (he : c.handle e = .ok c') {l : Lock} (hl : (lockData c'.filesys l).isSome) :
    (lockData c.filesys l).isSome ∨ ∃ i : Nat, i < c.clusters.length ∧ l.clusterId = (i : Int) + 1 := by
  rcases handle_cases he with ⟨now, info, r, -, hr, rfl⟩ | ⟨now, j, k', -, hc⟩ | ⟨hfs, -⟩
  · cases heartbeat_outcome h.service hr with
    | rejected hs => exact Or.inl hl
    | refreshed ha hm => exact Or.inl hl
    | @slave j fs d ha hm hlock hfs =>
        rw [SNSCoordinator.filesys_setZNode, SNSCoordinator.filesys_withFilesys, hfs.data] at hl
        refine (isSome_update hl).imp_right ?_
        rintro rfl
        exact ⟨j, ha.lt, ha.clusterid⟩
    | @elected j fs sync ha hm hlock hfs hsync =>
        rw [SNSCoordinator.filesys_setZNode, SNSCoordinator.filesys_withFilesys, hfs.data] at hl
        refine (isSome_update hl).imp_right ?_
        rintro rfl
        exact ⟨j, ha.lt, ha.clusterid⟩
  · left
    cases check_outcome hc with
    | kept => exact hl
    | missed hz hlate hne => exact hl
    | @expired z fs code hz hlate hone hremove =>
        have hfs := h.lockStep_of_remove hz hone hremove
        rw [ZNode.lock] at hfs
        rw [SNSCoordinator.filesys_setZNode, SNSCoordinator.filesys_withFilesys, hfs.data] at hl
        rcases isSome_update hl with hold | hself
        · exact hold
        · rw [hself, Function.update_self] at hl
          cases hl
  · rw [hfs] at hl
    exact Or.inl hl

theorem LockInv.handle (h : LockInv c) (he : c.handle e = .ok c') : LockInv c' where
  inv := h.inv.handle he
  only := h.only.handle h.inv he
  range l hl := by
    rw [length_handle h.inv he]
    exact (range_handle h.inv he hl).elim (h.range l) id
  slaves i k hk := by
    cases slaveLockStep h.inv he i k with
    | kept hfile hholds =>
        rw [hfile]
        exact h.slaves i k (hholds.mp hk)
    | acquired hfile hholds => exact hfile
    | released hfile hholds => exact absurd hk hholds
    | promoted hp hfile hholds => exact absurd hk hholds

theorem LockInv.of_reachable (h : (SNSCoordinator.machine numClusters).Reachable c) : LockInv c := by
  apply h.invariant
  · rintro c rfl
    refine ⟨.init numClusters, ?_, ?_, ?_⟩
    · intro p hp
      rw [SNSCoordinator.init, FSMemory.files_init, PathMap.empty] at hp
      split_ifs at hp with hnil
      · exact ⟨.master 0, hnil ▸ List.nil_prefix⟩
      · cases hp
    · intro l hl
      have hnone := lockData_init l
      rw [SNSCoordinator.init, hnone] at hl
      cases hl
    · rintro i k ⟨z, hz, -⟩
      rw [zNode?_init] at hz
      cases hz
  · intro c e c' hc he
    exact hc.handle he

/-! ## Leaks -/

theorem components_path_eq (h : Inv c) {z : ZNode} (hz : c.zNode? i k = some z) (hmissed : z.missedHeartbeats < 2) :
    components z.path = (z.lock i k).place := by
  rw [(h.zNodes i k z hz).path_eq hmissed]
  exact (z.lock i k).components_path

theorem place_inj {l l' : Lock} (h : l.place = l'.place) : l = l' := by
  simp only [Lock.place, List.cons.injEq, and_true] at h
  exact Lock.eq_of_dir_file h.1 h.2

/-- Every path of a file is that of a lock. -/
theorem LockInv.lock_of_file (h : LockInv c) {clusterId : Int} {p : List Str} {d : Str}
    (hfile : c.filesys.files ((Lock.master clusterId).dir :: p) = some (.file d)) :
    ∃ l : Lock, l.clusterId = clusterId ∧ (Lock.master clusterId).dir :: p = l.place ∧
      lockData c.filesys l = some d := by
  obtain ⟨l, hl⟩ := h.only ((Lock.master clusterId).dir :: p) (by rw [hfile]; rfl)
  rw [Lock.place, List.cons_prefix_cons, List.prefix_cons_iff] at hl
  obtain ⟨hdir, rfl | ⟨q, rfl, hq⟩⟩ := hl
  · exact absurd hfile (files_dir h.inv.service.toLockTree _ d)
  · rw [List.prefix_nil.mp hq] at hfile ⊢
    rw [hdir] at hfile ⊢
    refine ⟨l, str_inj (List.append_cancel_left hdir.symm), rfl, ?_⟩
    have hplace := files_place h.inv.service.toLockTree l
    rw [Lock.place, hfile] at hplace
    cases hd : lockData c.filesys l with
    | none => simp [hd] at hplace
    | some d' => simpa [hd, eq_comm] using hplace

theorem LockInv.locked (h : LockInv c) {z : ZNode} (hz : c.zNode? i k = some z) (hmissed : z.missedHeartbeats < 2) :
    ∃ d, lockData c.filesys (z.lock i k) = some d := by
  apply Option.isSome_iff_exists.mp
  unfold ZNode.lock
  split_ifs with hm
  · exact (h.inv.lock i (SNSCoordinator.lt_length_of_zNode? hz)).mpr ⟨k, z, hz, hm⟩
  · exact h.slaves i k ⟨z, hz, by simpa using hm, hmissed⟩

/-- Only a slave lock can be without an owner. -/
theorem LockInv.noLeak_iff (h : LockInv c) :
    NoLeak c ↔ ∀ i k, (slaveLock? c i k).isSome → HoldsSlaveLock c i k := by
  constructor
  · intro hleak i k hfile
    obtain ⟨d, hd⟩ := Option.isSome_iff_exists.mp hfile
    have hplace := files_place h.inv.service.toLockTree (.slave ((i : Int) + 1) k)
    rw [show lockData c.filesys (.slave (i + 1) k) = some d from hd] at hplace
    obtain ⟨j, hj, k', ⟨z, hz, hmissed, hpath⟩, -⟩ := hleak.owned (i + 1) [(Lock.slave (i + 1) k).file] d hplace
    obtain rfl : i = j := by omega
    rw [components_path_eq h.inv hz hmissed] at hpath
    have hlock : z.lock i k' = .slave (i + 1) k := place_inj hpath
    cases hm : z.master with
    | true => simp [ZNode.lock, hm] at hlock
    | false =>
        simp only [ZNode.lock, hm, Bool.false_eq_true, ↓reduceIte, Lock.slave.injEq, true_and] at hlock
        exact ⟨z, hlock ▸ hz, hm, hmissed⟩
  · intro howned
    constructor
    · intro clusterId p d hfile
      obtain ⟨l, rfl, hplace, hd⟩ := h.lock_of_file hfile
      obtain ⟨i, hi, hid⟩ := h.range l (by rw [hd]; rfl)
      rw [hplace]
      refine ⟨i, hid, ?_⟩
      have howner : ∃ k z, c.zNode? i k = some z ∧ z.missedHeartbeats < 2 ∧ z.lock i k = l := by
        cases l with
        | master clusterId =>
            rw [show clusterId = (i : Int) + 1 from hid] at hd ⊢
            obtain ⟨k, z, hz, hm⟩ := (h.inv.lock i hi).mp (by rw [hd]; rfl)
            exact ⟨k, z, hz, ((h.inv.zNodes i k z hz).master hm).2, by rw [ZNode.lock, hm]; rfl⟩
        | slave clusterId k =>
            rw [show clusterId = (i : Int) + 1 from hid] at hd ⊢
            obtain ⟨z, hz, hm, hmissed⟩ := howned i k (Option.isSome_iff_exists.mpr ⟨d, hd⟩)
            exact ⟨k, z, hz, hmissed, by rw [ZNode.lock, hm]; rfl⟩
      obtain ⟨k, z, hz, hmissed, hlock⟩ := howner
      refine ⟨k, ⟨z, hz, hmissed, by rw [components_path_eq h.inv hz hmissed, hlock]⟩, ?_⟩
      rintro k' ⟨z', hz', hmissed', hpath⟩
      rw [components_path_eq h.inv hz' hmissed'] at hpath
      have hlock' : z'.lock i k' = z.lock i k := (place_inj hpath).trans hlock.symm
      cases hm : z.master with
      | true =>
          cases hm' : z'.master with
          | true => exact h.inv.unique i k' k z' z hz' hz hm' hm
          | false => simp [ZNode.lock, hm, hm'] at hlock'
      | false =>
          cases hm' : z'.master with
          | true => simp [ZNode.lock, hm, hm'] at hlock'
          | false => simpa [ZNode.lock, hm, hm'] using hlock'
    · intro i k z hz hmissed
      obtain ⟨d, hd⟩ := h.locked hz hmissed
      have hpath := components_path_eq h.inv hz hmissed
      refine ⟨[(z.lock i k).file], d, ?_, ?_⟩
      · rw [hpath, Lock.place, ZNode.lock_dir]
      · rw [hpath, files_place h.inv.service.toLockTree, hd]
        rfl

/-- A promotion leaves the file of the slave lock behind. -/
theorem LockInv.leak_of_promotes (h : LockInv c) (he : c.handle e = .ok c') (hp : Promotes i k c e) :
    (slaveLock? c' i k).isSome ∧ ¬ HoldsSlaveLock c' i k := by
  obtain ⟨now, info, rfl, rfl, ha, hk, hno⟩ := hp
  obtain ⟨r, hr, hok, ho⟩ := heartbeat_accepted h.inv.service ha now
  obtain ⟨r', hr', he⟩ := bind_eq_ok.mp he
  rw [hr, Except.ok.injEq] at hr'
  subst hr'
  cases he
  obtain ⟨z, hz, -, -, -, hm⟩ := heartbeat_leader h.inv ha.clusterid hr (by rw [hok]; rfl)
  constructor
  · cases ho with
    | rejected hs => exact h.slaves i _ hk
    | refreshed ha' hm' => exact h.slaves i _ hk
    | @slave j fs d ha' hm' hlock hfs =>
        rw [ha.clusterid] at hlock
        exact absurd ((h.inv.lock i ha.lt).mp (by rw [hlock]; rfl)) hno
    | @elected j fs sync ha' hm' hlock hfs hsync =>
        rw [slaveLock?, SNSCoordinator.filesys_setZNode, SNSCoordinator.filesys_withFilesys, hfs.data,
          Function.update_of_ne (by simp)]
        exact h.slaves i _ hk
  · rintro ⟨z', hz', hm', -⟩
    rw [hz, Option.some.injEq] at hz'
    rw [← hz', hm hno] at hm'
    cases hm'

/-- From a state without leaks a step leads to one without leaks unless it promotes a slave. -/
theorem noLeak_step (h : LockInv c) (hleak : NoLeak c) (he : c.handle e = .ok c') :
    NoLeak c' ↔ ¬ ∃ i k, Promotes i k c e := by
  have howned := h.noLeak_iff.mp hleak
  constructor
  · rintro hleak' ⟨i, k, hp⟩
    obtain ⟨hfile, hnot⟩ := h.leak_of_promotes he hp
    exact hnot ((h.handle he).noLeak_iff.mp hleak' i k hfile)
  · intro hno
    apply (h.handle he).noLeak_iff.mpr
    intro i k hfile'
    cases slaveLockStep h.inv he i k with
    | kept hfile hholds =>
        rw [hfile] at hfile'
        exact hholds.mpr (howned i k hfile')
    | acquired hfile hholds => exact hholds
    | released hfile hholds =>
        rw [hfile] at hfile'
        cases hfile'
    | promoted hp hfile hholds => exact absurd ⟨i, k, hp⟩ hno

theorem noLeak_init (numClusters : Int) : NoLeak (.init numClusters) := by
  have hinv : LockInv (.init numClusters) := .of_reachable (.init rfl)
  apply hinv.noLeak_iff.mpr
  intro i k hfile
  have hnone := lockData_init (.slave (i + 1) k)
  rw [slaveLock?, SNSCoordinator.init, hnone] at hfile
  cases hfile

/-- The files under the folders of the clusters are the locks of the servers in every state of a run exactly if no
heartbeat of the run makes a slave master which holds its slave lock. -/
theorem noLeak_run_iff (hrun : (SNSCoordinator.machine numClusters).Run (.init numClusters) tr c) :
    ((∀ x ∈ tr, NoLeak x.1) ∧ NoLeak c) ↔ ∀ x ∈ tr, ¬ ∃ i k, Promotes i k x.1 x.2 := by
  induction hrun with
  | nil => simp [noLeak_init]
  | @snoc tr c e c' hrun hstep ih =>
      have hinv : LockInv c := .of_reachable ⟨_, tr, rfl, hrun⟩
      simp only [List.forall_mem_append, List.forall_mem_singleton]
      rw [← ih]
      constructor
      · rintro ⟨⟨htr, hc⟩, hc'⟩
        exact ⟨⟨htr, hc⟩, (noLeak_step hinv hc hstep).mp hc'⟩
      · rintro ⟨⟨htr, hc⟩, hno⟩
        exact ⟨⟨htr, hc⟩, (noLeak_step hinv hc hstep).mpr hno⟩

/-! ## Two servers of one cluster -/

/-- The slave expires and comes back while the master stays. -/
def slaveComesBack : List SNSCoordinator.Event :=
  [.heartbeat 0 (clusterServer 1 false), .heartbeat 1 (clusterServer 2 false), .heartbeat 10 (clusterServer 1 true),
    .check 12 0 2, .check 15 0 2, .check 15 0 1, .heartbeat 16 (clusterServer 2 true)]

/-- The sender of a heartbeat is unknown, or its cluster has a master. -/
def senderWaits (c : SNSCoordinator) : SNSCoordinator.Event → Bool
  | .heartbeat _ info =>
    c.clusters.length = 1 && ((c.zNode? 0 info.serverid).isNone || (c.clusters[0]?.bind SNSCoordinator.masterOf).isSome)
  | _ => true

theorem not_promotes_of_senderWaits (h : senderWaits c e = true) : ¬ ∃ i k, Promotes i k c e := by
  rintro ⟨i, k, now, info, rfl, rfl, ha, ⟨z, hz, -⟩, hno⟩
  simp only [senderWaits, Bool.and_eq_true, decide_eq_true_eq, Bool.or_eq_true] at h
  obtain ⟨hlength, hwaits⟩ := h
  obtain rfl : i = 0 := by
    have := ha.lt
    omega
  rcases hwaits with hnone | hmaster
  · rw [hz] at hnone
    cases hnone
  · exact hno (hasMaster_iff.mpr hmaster)

theorem noLeak_run_iff_slaveComesBack : ∃ c, slaveComesBack.foldlM SNSCoordinator.handle (.init 1) = .ok c ∧
    NoLeak c := by
  obtain ⟨c, hc, hwaits⟩ : ∃ c, slaveComesBack.foldlM SNSCoordinator.handle (.init 1) = .ok c ∧
      ∀ x ∈ Machine.history SNSCoordinator.handle (.init 1) slaveComesBack, senderWaits x.1 x.2 = true :=
    ⟨_, rfl, by decide +kernel⟩
  have hrun : (SNSCoordinator.machine 1).Run (.init 1) _ c := Machine.run_of_foldlM hc
  exact ⟨c, hc, ((noLeak_run_iff hrun).mpr fun x hx => not_promotes_of_senderWaits (hwaits x hx)).2⟩

/-- The master expires and the slave takes over. -/
def slaveTakesOver : List SNSCoordinator.Event := expiry ++ [.heartbeat 15 (clusterServer 2 true)]

/-- Then the file of its slave lock stays, and its path is the master lock. -/
theorem slaveLock_leaks : ∃ c, slaveTakesOver.foldlM SNSCoordinator.handle (.init 1) = .ok c ∧
    c.filesys.fileExists (getSlaveFilepath 1 2) = .ok true ∧
    (∃ z, c.zNode? 0 2 = some z ∧ z.path = getMasterFilepath 1) ∧ ¬ NoLeak c := by
  obtain ⟨c, hc, hexists, ⟨z, hz, hpath, hm⟩, hfile⟩ : ∃ c, slaveTakesOver.foldlM
        SNSCoordinator.handle (.init 1) = .ok c ∧ c.filesys.fileExists (getSlaveFilepath 1 2) = .ok true ∧
      (∃ z, c.zNode? 0 2 = some z ∧ z.path = getMasterFilepath 1 ∧ z.master = true) ∧ (slaveLock? c 0 2).isSome :=
    ⟨_, rfl, by decide +kernel, ⟨_, rfl, by decide +kernel, rfl⟩, by decide +kernel⟩
  have hinv : LockInv c := .of_reachable (Machine.reachable_of_foldlM rfl hc)
  refine ⟨c, hc, hexists, ⟨z, hz, hpath⟩, fun hleak => ?_⟩
  obtain ⟨z', hz', hm', -⟩ := hinv.noLeak_iff.mp hleak 0 2 hfile
  rw [hz, Option.some.injEq] at hz'
  rw [← hz', hm] at hm'
  cases hm'

end DistributedSns.Coordinator
