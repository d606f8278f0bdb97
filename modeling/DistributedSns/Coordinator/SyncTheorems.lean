import DistributedSns.Coordinator.LeaderTheorems

/-!
# Sync addresses

The address of a master is kept in its entry and in its lock file. A heartbeat of the master changes the entry
only, so a slave is sent the address with which the master was elected. A newcomer is sent no address at all if
no cluster has a master, whoever else is alive.
-/

namespace DistributedSns.Coordinator

open Lib FSWrapper

variable {numClusters : Int} {c c' : SNSCoordinator} {e : SNSCoordinator.Event} {i : Nat}
  {tr : List (SNSCoordinator × SNSCoordinator.Event)}

/-- The address of the server which is made the master of the cluster with index `i` in this step. -/
def electedIn (i : Nat) (c : SNSCoordinator) : SNSCoordinator.Event → Option Str
  | .heartbeat _ info =>
    if info.clusterid = i + 1 ∧ !SNSCoordinator.registrationClash (c.zNode? i info.serverid) info ∧
        (c.clusters[i]?.bind SNSCoordinator.masterOf).isNone then some info.getAddress
    else none
  | _ => none

/-- The address with which the last master of a cluster was elected. -/
def electedAddress (i : Nat) (tr : List (SNSCoordinator × SNSCoordinator.Event)) : Option Str :=
  Machine.latest (electedIn i) tr

theorem electedAddress_concat :
    electedAddress i (tr ++ [(c, e)]) = (electedIn i c e).or (electedAddress i tr) :=
  Machine.latest_concat c e

theorem not_hasMaster_iff : (c.clusters[i]?.bind SNSCoordinator.masterOf).isNone = true ↔ ¬ HasMaster c i := by
  rw [hasMaster_iff, Option.isNone_iff_eq_none, Option.not_isSome_iff_eq_none]

theorem electedIn_eq_none (h : HasMaster c i) : electedIn i c e = none := by
  cases e with
  | heartbeat now info =>
      rw [electedIn, if_neg]
      rintro ⟨-, -, hno⟩
      exact not_hasMaster_iff.mp hno h
  | _ => rfl

theorem getAddress_ne_nil (info : ServerInfo) : info.getAddress ≠ [] := by
  simp [ServerInfo.getAddress]

theorem electedIn_ne_nil {addr : Str} (h : electedIn i c e = some addr) : addr ≠ [] := by
  cases e with
  | heartbeat now info =>
      rw [electedIn] at h
      split_ifs at h
      cases h
      exact getAddress_ne_nil info
  | _ => cases h

theorem electedAddress_ne_nil {addr : Str} (h : electedAddress i tr = some addr) : addr ≠ [] := by
  obtain ⟨x, -, hx⟩ := Machine.exists_of_latest h
  exact electedIn_ne_nil hx

/-! ## The lock file of a master -/

theorem length_heartbeat {now : Int} {info : ServerInfo} {r : SNSCoordinator × Status × Path}
    (h : HeartbeatOutcome c now info r) : r.1.clusters.length = c.clusters.length := by
  cases h <;> simp

theorem length_check {now : Int} {j : Nat} {k : Int} (h : CheckOutcome c now j k c') :
    c'.clusters.length = c.clusters.length := by
  cases h <;> simp

theorem length_handle (h : Inv c) (he : c.handle e = .ok c') : c'.clusters.length = c.clusters.length := by
  rcases handle_cases he with ⟨now, info, r, -, hr, rfl⟩ | ⟨now, j, k, -, hc⟩ | ⟨-, hcl⟩
  · exact length_heartbeat (heartbeat_outcome h.service hr)
  · exact length_check (check_outcome hc)
  · rw [hcl]

/-- Only an election writes to the lock file of a master. -/
theorem lockData_heartbeat (h : Inv c) {now : Int} {info : ServerInfo} {r : SNSCoordinator × Status × Path}
    (hr : c.heartbeat now info = .ok r) {d : Str} (hd : lockData r.1.filesys (.master (i + 1)) = some d) :
    lockData c.filesys (.master (i + 1)) = some d ∨ electedIn i c (.heartbeat now info) = some d := by
  cases heartbeat_outcome h.service hr with
  | rejected hs => exact Or.inl hd
  | refreshed ha hm => exact Or.inl hd
  | @slave j fs d' ha hm hlock hfs =>
      left
      rw [SNSCoordinator.filesys_setZNode, SNSCoordinator.filesys_withFilesys, hfs.data,
        Function.update_of_ne (by simp)] at hd
      exact hd
  | @elected j fs sync ha hm hlock hfs hsync =>
      rw [SNSCoordinator.filesys_setZNode, SNSCoordinator.filesys_withFilesys, hfs.data] at hd
      by_cases hij : info.clusterid = (i : Int) + 1
      · right
        rw [hij, Function.update_self, Option.some.injEq] at hd
        obtain rfl : j = i := by
          have := ha.clusterid
          omega
        have hno : ¬ HasMaster c j := by
          intro hmaster
          have := (h.lock j ha.lt).mpr hmaster
          rw [← hij, hlock] at this
          cases this
        rw [electedIn, if_pos ⟨hij, by rw [ha.clash]; rfl, not_hasMaster_iff.mpr hno⟩]
        exact congrArg some hd
      · left
        rw [Function.update_of_ne (by simpa using Ne.symm hij)] at hd
        exact hd

theorem lockData_check (h : Inv c) {now : Int} {j : Nat} {k : Int} (hc : CheckOutcome c now j k c') {d : Str}
    (hd : lockData c'.filesys (.master (i + 1)) = some d) : lockData c.filesys (.master (i + 1)) = some d := by
  cases hc with
  | kept => exact hd
  | missed hz hlate hne => exact hd
  | @expired z fs code hz hlate hone hremove =>
      have hfs := h.lockStep_of_remove hz hone hremove
      rw [ZNode.lock] at hfs
      rw [SNSCoordinator.filesys_setZNode, SNSCoordinator.filesys_withFilesys, hfs.data,
        Function.update_apply] at hd
      split_ifs at hd
      all_goals exact hd

/-- The lock file of a master holds the address with which it was elected. -/
structure SyncInv (tr : List (SNSCoordinator × SNSCoordinator.Event)) (c : SNSCoordinator) : Prop where
  inv : Inv c
  elected : ∀ (i : Nat) (d : Str), i < c.clusters.length → lockData c.filesys (.master (i + 1)) = some d →
    electedAddress i tr = some d

theorem SyncInv.step (h : SyncInv tr c) (he : c.handle e = .ok c') : SyncInv (tr ++ [(c, e)]) c' := by
  constructor
  · exact h.inv.handle he
  · intro i d hi hd
    rw [length_handle h.inv he] at hi
    have hkept (hd : lockData c.filesys (.master (i + 1)) = some d) :
        electedAddress i (tr ++ [(c, e)]) = some d := by
      have hm : HasMaster c i := (h.inv.lock i hi).mp (by rw [hd]; rfl)
      rw [electedAddress_concat, electedIn_eq_none hm, Option.none_or]
      exact h.elected i d hi hd
    rcases handle_cases he with ⟨now, info, r, rfl, hr, rfl⟩ | ⟨now, j, k, rfl, hc⟩ | ⟨hfs, -⟩
    · rcases lockData_heartbeat h.inv hr hd with hd | hd
      · exact hkept hd
      · rw [electedAddress_concat, hd, Option.some_or]
    · exact hkept (lockData_check h.inv (check_outcome hc) hd)
    · rw [hfs] at hd
      exact hkept hd

theorem syncInv_of_run (hrun : (SNSCoordinator.machine numClusters).Run (.init numClusters) tr c) :
    SyncInv tr c := by
  induction hrun with
  | nil =>
      constructor
      · exact .init numClusters
      · intro i d hi hd
        have hfs : (SNSCoordinator.init numClusters).filesys = .init true := rfl
        rw [hfs, lockData_init] at hd
        cases hd
  | snoc _ hs ih => exact ih.step hs

/-! ## The address sent to a slave -/

/-- A slave is sent the address of its master if and only if the master has the address with which it was
elected. -/
theorem syncAddress_current_iff (hrun : (SNSCoordinator.machine numClusters).Run (.init numClusters) tr c)
    {now : Int} {info : ServerInfo} {r : SNSCoordinator × Status × Path} (hid : info.clusterid = (i : Int) + 1)
    (hr : c.heartbeat now info = .ok r) (hok : r.2.1.code = .ok) (hslave : r.2.2.master = false) :
    (∃ k z, r.1.zNode? i k = some z ∧ z.master = true ∧ r.2.2.syncAddress = z.getAddress) ↔
      ∃ k z, c.zNode? i k = some z ∧ z.master = true ∧ electedAddress i tr = some z.getAddress := by
  have h := syncInv_of_run hrun
  have ho := heartbeat_outcome h.inv.service hr
  rcases heartbeat_entry ho with ⟨-, hno, -⟩ | ⟨j, z₀, hentry⟩
  · exact absurd hok hno
  · obtain rfl : j = i := by
      have := hentry.accepts.clusterid
      omega
    -- the reply is about another server, whose entry stays as it is
    have hother (k : Int) (z : ZNode) : (r.1.zNode? j k = some z ∧ z.master = true) ↔
        (c.zNode? j k = some z ∧ z.master = true) := by
      rw [hentry.zNode?]
      split_ifs with hk
      · obtain ⟨-, rfl⟩ := hk
        constructor
        · rintro ⟨hz, hm⟩
          cases hz
          rw [hentry.master, hslave] at hm
          cases hm
        · rintro ⟨hz, hm⟩
          have := hentry.stays z hz hm
          rw [hentry.master, hslave] at this
          cases this
      · rfl
    have hsync : electedAddress j tr = some r.2.2.syncAddress := by
      cases ho with
      | rejected hs => exact absurd hok hs
      | refreshed ha hm => cases hslave
      | slave ha hm hlock hfs =>
          rw [hid] at hlock
          exact h.elected j _ hentry.accepts.lt hlock
      | elected ha hm hlock hfs hs => cases hslave
    constructor
    · rintro ⟨k, z, hz, hm, haddr⟩
      obtain ⟨hz, hm⟩ := (hother k z).mp ⟨hz, hm⟩
      exact ⟨k, z, hz, hm, haddr ▸ hsync⟩
    · rintro ⟨k, z, hz, hm, haddr⟩
      obtain ⟨hz, hm⟩ := (hother k z).mpr ⟨hz, hm⟩
      exact ⟨k, z, hz, hm, Option.some.inj (hsync.symm.trans haddr)⟩

def addressed (serverid : Int) (registered : Bool) (port : Str) : ServerInfo :=
  { serverid, clusterid := 1, hostname := "h".toList, port, registered }

/-- A master is elected and sends its heartbeats, and a slave registers. -/
def elections : List SNSCoordinator.Event :=
  [.heartbeat 0 (addressed 1 false ['1']), .heartbeat 5 (addressed 1 true ['1']),
    .heartbeat 6 (addressed 2 false ['2'])]

/-- The next heartbeat of the slave is answered with its master's address. -/
theorem syncAddress_current_elections : ∃ c r, elections.foldlM SNSCoordinator.handle (.init 1) = .ok c ∧
    c.heartbeat 7 (addressed 2 true ['2']) = .ok r ∧
      ∃ k z, r.1.zNode? 0 k = some z ∧ z.master = true ∧ r.2.2.syncAddress = z.getAddress := by
  obtain ⟨c, hc, r, hr, hok, hslave, z, hz, hm, haddr⟩ : ∃ c,
      elections.foldlM SNSCoordinator.handle (.init 1) = .ok c ∧
      ∃ r, c.heartbeat 7 (addressed 2 true ['2']) = .ok r ∧ r.2.1.code = .ok ∧ r.2.2.master = false ∧
      ∃ z, c.zNode? 0 1 = some z ∧ z.master = true ∧
        electedAddress 0 (Machine.history SNSCoordinator.handle (.init 1) elections) = some z.getAddress :=
    ⟨_, rfl, _, rfl, rfl, rfl, _, rfl, rfl, by decide +kernel⟩
  have hrun : (SNSCoordinator.machine 1).Run (.init 1) _ c := Machine.run_of_foldlM hc
  exact ⟨c, r, hc, hr, (syncAddress_current_iff hrun (i := 0) rfl hr hok hslave).mpr ⟨1, z, hz, hm, haddr⟩⟩

/-- The master comes back at another port. -/
def portChange : List SNSCoordinator.Event :=
  [.heartbeat 0 (addressed 1 false ['1']), .heartbeat 5 (addressed 1 true ['3'])]

/-- Then a slave is sent the old address. -/
theorem syncAddress_stale : ∃ c r, portChange.foldlM SNSCoordinator.handle (.init 1) = .ok c ∧
    c.heartbeat 6 (addressed 2 false ['2']) = .ok r ∧ r.2.1.code = .ok ∧ r.2.2.master = false ∧
      r.2.2.syncAddress = "h:1".toList ∧
      ¬ ∃ k z, r.1.zNode? 0 k = some z ∧ z.master = true ∧ r.2.2.syncAddress = z.getAddress := by
  obtain ⟨c, hc, r, hr, hok, hslave, hsync, z, hz, hm, haddr⟩ : ∃ c,
      portChange.foldlM SNSCoordinator.handle (.init 1) = .ok c ∧
      ∃ r, c.heartbeat 6 (addressed 2 false ['2']) = .ok r ∧ r.2.1.code = .ok ∧ r.2.2.master = false ∧
      r.2.2.syncAddress = "h:1".toList ∧
      ∃ z, r.1.zNode? 0 1 = some z ∧ z.master = true ∧ z.getAddress = "h:3".toList :=
    ⟨_, rfl, _, rfl, rfl, rfl, by decide +kernel, _, rfl, rfl, by decide +kernel⟩
  refine ⟨c, r, hc, hr, hok, hslave, hsync, ?_⟩
  have hreach : (SNSCoordinator.machine 1).Reachable c := Machine.reachable_of_foldlM rfl hc
  have hinv := (Inv.of_reachable hreach).heartbeat (heartbeat_outcome (Inv.of_reachable hreach).service hr)
  rintro ⟨k, z', hz', hm', haddr'⟩
  obtain rfl := hinv.unique 0 k 1 z' z hz' hz hm' hm
  obtain rfl : z' = z := Option.some.inj (hz'.symm.trans hz)
  rw [hsync, haddr] at haddr'
  exact absurd haddr' (by decide)

/-! ## The address sent to a newcomer -/

theorem firstMaster_eq_some {z : ZNode} (h : c.getFirstAvailableClusterMaster i = some z) :
    ∃ j k, j ≠ i ∧ c.zNode? j k = some z ∧ z.master = true := by
  obtain ⟨⟨cluster, j⟩, hmem, hj⟩ := List.exists_of_findSome?_eq_some h
  rw [List.mk_mem_zipIdx_iff_getElem?] at hmem
  simp only at hj
  split_ifs at hj with hne
  obtain ⟨⟨k, z'⟩, hkz, rfl⟩ := Option.map_eq_some_iff.mp hj
  obtain ⟨hz, hm⟩ := SNSCoordinator.find?_of_masterOf hkz
  refine ⟨j, k, hne, ?_, hm⟩
  rw [SNSCoordinator.zNode?, hmem]
  exact hz

theorem firstMaster_eq_none (h : c.getFirstAvailableClusterMaster i = none) {j : Nat} (hj : j ≠ i) :
    ¬ HasMaster c j := by
  rw [hasMaster_iff]
  cases hcluster : c.clusters[j]? with
  | none => simp
  | some cluster =>
      have hmem : (cluster, j) ∈ c.clusters.zipIdx := List.mk_mem_zipIdx_iff_getElem?.mpr hcluster
      have hnone := List.findSome?_eq_none_iff.mp h (cluster, j) hmem
      simp only [ne_eq, hj, not_false_eq_true, ↓reduceIte, Option.map_eq_none_iff] at hnone
      simp [hnone]

/-- A newcomer is sent an address if and only if some cluster has a master: the address with which the master
of its own cluster was elected, or that of another cluster's master. -/
theorem newcomer_syncAddress (hrun : (SNSCoordinator.machine numClusters).Run (.init numClusters) tr c)
    {now : Int} {info : ServerInfo} {r : SNSCoordinator × Status × Path} (hid : info.clusterid = (i : Int) + 1)
    (hr : c.heartbeat now info = .ok r) (hok : r.2.1.code = .ok) (hnew : info.registered = false) :
    (r.2.2.syncAddress ≠ [] ↔ ∃ j, HasMaster c j) ∧
      (HasMaster c i → electedAddress i tr = some r.2.2.syncAddress) ∧
      (¬ HasMaster c i → r.2.2.syncAddress ≠ [] →
        ∃ j k z, j ≠ i ∧ c.zNode? j k = some z ∧ z.master = true ∧ r.2.2.syncAddress = z.getAddress) := by
  have h := syncInv_of_run hrun
  have hi {j : Nat} (ha : Accepts c info j) : j = i := by
    have := ha.clusterid
    omega
  cases heartbeat_outcome h.inv.service hr with
  | rejected hs => exact absurd hok hs
  | @refreshed j ha hm =>
      -- a master is active, so it cannot register again
      obtain ⟨z, hz, hzm, -⟩ := beat_of_master hm
      have hmiss := ((h.inv.zNodes j _ z hz).master hzm).2
      have hclash := ha.clash
      simp only [SNSCoordinator.registrationClash, hz, hnew, ZNode.isActive, Bool.not_false, Bool.true_and,
        decide_eq_false_iff_not] at hclash
      omega
  | @slave j fs d ha hm hlock hfs =>
      obtain rfl := hi ha
      rw [hid] at hlock
      have hmaster : HasMaster c j := (h.inv.lock j ha.lt).mp (by rw [hlock]; rfl)
      have helected := h.elected j d ha.lt hlock
      refine ⟨?_, fun _ => helected, fun hno => absurd hmaster hno⟩
      exact iff_of_true (electedAddress_ne_nil helected) ⟨j, hmaster⟩
  | @elected j fs sync ha hm hlock hfs hsync =>
      obtain rfl := hi ha
      rw [hid] at hlock
      have hno : ¬ HasMaster c j := by
        intro hmaster
        have := (h.inv.lock j ha.lt).mpr hmaster
        rw [hlock] at this
        cases this
      have hzNode := c.zNode?_setZNode ha.lt info.serverid (beat c now info j)
      have hother {j' : Nat} (hj' : j' ≠ j) (k : Int) :
          (c.setZNode j info.serverid (beat c now info j)).zNode? j' k = c.zNode? j' k := by
        rw [hzNode, if_neg fun he => hj' he.1]
      simp only [electedSync, hnew, Bool.not_false, ↓reduceIte] at hsync
      cases hfirst : (c.setZNode j info.serverid (beat c now info j)).getFirstAvailableClusterMaster j with
      | none =>
          rw [hfirst] at hsync
          refine ⟨iff_of_false (not_not.mpr hsync) ?_, fun hmaster => absurd hmaster hno,
            fun _ hne => absurd hsync hne⟩
          rintro ⟨j', k, z, hz, hzm⟩
          by_cases hj' : j' = j
          · subst hj'
            exact hno ⟨k, z, hz, hzm⟩
          · exact firstMaster_eq_none hfirst hj' ⟨k, z, (hother hj' k).trans hz, hzm⟩
      | some z =>
          obtain ⟨j', k, hj', hz, hzm⟩ := firstMaster_eq_some hfirst
          rw [hother hj'] at hz
          rw [hfirst] at hsync
          refine ⟨iff_of_true ?_ ⟨j', k, z, hz, hzm⟩, fun hmaster => absurd hmaster hno,
            fun _ _ => ⟨j', k, z, hj', hz, hzm, hsync⟩⟩
          rw [hsync]
          simp [ZNode.getAddress]

/-- Server 3 registers while the master of its cluster has expired and another server is alive. -/
theorem newcomer_left_alone : ∃ c r, expiry.foldlM SNSCoordinator.handle (.init 1) = .ok c ∧
    (∃ z, c.zNode? 0 2 = some z ∧ z.missedHeartbeats < 2) ∧
    c.heartbeat 15 (clusterServer 3 false) = .ok r ∧ r.2.1.code = .ok ∧ r.2.2.syncAddress = [] :=
  ⟨_, _, rfl, ⟨_, rfl, by decide⟩, rfl, rfl, by decide +kernel⟩

/-- With a master alive it is sent an address. -/
theorem newcomer_syncAddress_elections : ∃ c r, elections.foldlM SNSCoordinator.handle (.init 1) = .ok c ∧
    c.heartbeat 7 (addressed 3 false ['3']) = .ok r ∧ r.2.2.syncAddress ≠ [] := by
  obtain ⟨c, hc, r, hr, hok, z, hz, hm⟩ : ∃ c, elections.foldlM SNSCoordinator.handle (.init 1) = .ok c ∧
      ∃ r, c.heartbeat 7 (addressed 3 false ['3']) = .ok r ∧ r.2.1.code = .ok ∧
      ∃ z, c.zNode? 0 1 = some z ∧ z.master = true :=
    ⟨_, rfl, _, rfl, rfl, _, rfl, rfl⟩
  have hrun : (SNSCoordinator.machine 1).Run (.init 1) _ c := Machine.run_of_foldlM hc
  exact ⟨c, r, hc, hr, (newcomer_syncAddress hrun (i := 0) rfl hr hok rfl).1.mpr ⟨0, 1, z, hz, hm⟩⟩

end DistributedSns.Coordinator
