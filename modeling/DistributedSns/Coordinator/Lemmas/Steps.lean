import DistributedSns.Coordinator.Lemmas.Locks

/-!
# What a heartbeat and a check can do

Heartbeat and check are unfolded here once. Later proofs go by the cases of `HeartbeatOutcome` and
`CheckOutcome`.
-/

namespace DistributedSns.Coordinator

open Lib FSWrapper

namespace SNSCoordinator

variable {c : SNSCoordinator}

/-! ## `zNode`s -/

@[simp] theorem length_setZNode (c : SNSCoordinator) (i : Nat) (k : Int) (z : ZNode) :
    (c.setZNode i k z).clusters.length = c.clusters.length :=
  List.length_modify ..

@[simp] theorem filesys_setZNode (c : SNSCoordinator) (i : Nat) (k : Int) (z : ZNode) :
    (c.setZNode i k z).filesys = c.filesys := rfl

@[simp] theorem filesys_withFilesys (c : SNSCoordinator) (fs : FSMemory) :
    (c.withFilesys fs).filesys = fs := rfl

@[simp] theorem clusters_withFilesys (c : SNSCoordinator) (fs : FSMemory) :
    (c.withFilesys fs).clusters = c.clusters := rfl

@[simp] theorem zNode?_withFilesys (c : SNSCoordinator) (fs : FSMemory) (i : Nat) (k : Int) :
    (c.withFilesys fs).zNode? i k = c.zNode? i k := rfl

theorem withFilesys_setZNode (c : SNSCoordinator) (fs : FSMemory) (i : Nat) (k : Int) (z : ZNode) :
    (c.setZNode i k z).withFilesys fs = (c.withFilesys fs).setZNode i k z := rfl

theorem lt_length_of_zNode? {i : Nat} {k : Int} {z : ZNode} (h : c.zNode? i k = some z) :
    i < c.clusters.length := by
  obtain ⟨cluster, hc, _⟩ := Option.bind_eq_some_iff.mp h
  exact (List.getElem?_eq_some_iff.mp hc).1

theorem zNode?_setZNode {i : Nat} (hi : i < c.clusters.length) (k : Int) (z : ZNode) (i' : Nat) (k' : Int) :
    (c.setZNode i k z).zNode? i' k' = if i' = i ∧ k' = k then some z else c.zNode? i' k' := by
  simp only [zNode?, setZNode, List.getElem?_modify]
  by_cases hi' : i' = i
  · subst hi'
    rw [List.getElem?_eq_getElem hi]
    simp only [↓reduceIte, Option.map_eq_map, Option.map_some, Option.bind_some, OrdMap.find?_insert,
      true_and]
  · have hne : i ≠ i' := fun h => hi' h.symm
    simp [hi', hne]

theorem zNode?_withFilesys_setZNode {i : Nat} (hi : i < c.clusters.length) (fs : FSMemory) (k : Int)
    (z : ZNode) (i' : Nat) (k' : Int) : ((c.withFilesys fs).setZNode i k z).zNode? i' k' =
      if i' = i ∧ k' = k then some z else c.zNode? i' k' :=
  (c.withFilesys fs).zNode?_setZNode hi k z i' k'

theorem setZNode_setZNode (c : SNSCoordinator) (i : Nat) (k : Int) (z z' : ZNode) :
    (c.setZNode i k z).setZNode i k z' = c.setZNode i k z' := by
  simp only [setZNode, List.modify_modify_eq]
  congr 2
  funext m
  simp [OrdMap.insert]

theorem find?_of_masterOf {cluster : OrdMap Int ZNode} {k : Int} {z : ZNode}
    (h : masterOf cluster = some (k, z)) : cluster.find? k = some z ∧ z.master = true :=
  ⟨OrdMap.mem_entries_iff.mp (List.mem_of_find?_eq_some h), by simpa using List.find?_some h⟩

theorem masterOf_eq_none_iff {cluster : OrdMap Int ZNode} :
    masterOf cluster = none ↔ ∀ k z, cluster.find? k = some z → z.master = false := by
  simp only [masterOf, List.find?_eq_none, Prod.forall, OrdMap.mem_entries_iff, Bool.not_eq_true]

end SNSCoordinator

/-- The cluster with index `i` has a master. -/
def HasMaster (c : SNSCoordinator) (i : Nat) : Prop :=
  ∃ k z, c.zNode? i k = some z ∧ z.master = true

theorem hasMaster_iff {c : SNSCoordinator} {i : Nat} :
    HasMaster c i ↔ (c.clusters[i]?.bind SNSCoordinator.masterOf).isSome := by
  simp only [HasMaster, SNSCoordinator.zNode?]
  cases c.clusters[i]? with
  | none => simp
  | some cluster =>
      simp only [Option.bind_some]
      constructor
      · rintro ⟨k, z, hz, hm⟩
        by_contra hn
        rw [Option.not_isSome_iff_eq_none, SNSCoordinator.masterOf_eq_none_iff] at hn
        simp [hn k z hz] at hm
      · intro hs
        obtain ⟨⟨k, z⟩, he⟩ := Option.isSome_iff_exists.mp hs
        obtain ⟨hz, hm⟩ := SNSCoordinator.find?_of_masterOf he
        exact ⟨k, z, hz, hm⟩

/-! ## Heartbeats -/

/-- The ids of the message denote a cluster with index `i`, and no active server clashes with them. -/
structure Accepts (c : SNSCoordinator) (info : ServerInfo) (i : Nat) : Prop where
  lt : i < c.clusters.length
  clusterid : info.clusterid = i + 1
  clash : SNSCoordinator.registrationClash (c.zNode? i info.serverid) info = false

/-- The sender's `zNode` after the message has been noted. -/
def beat (c : SNSCoordinator) (now : Int) (info : ServerInfo) (i : Nat) : ZNode :=
  ((c.zNode? i info.serverid).getD {}).setFromServerInfo now info

/-- The address an elected server which is not registered synchronises with. -/
def electedSync (c : SNSCoordinator) (info : ServerInfo) (i : Nat) : Str :=
  if !info.registered then ((c.getFirstAvailableClusterMaster i).map (·.getAddress)).getD [] else []

/-- A heartbeat is rejected, comes from a master, finds a master, or elects its sender. -/
inductive HeartbeatOutcome (c : SNSCoordinator) (now : Int) (info : ServerInfo) :
    SNSCoordinator × Status × Path → Prop
  | rejected {s : Status} (hs : s.code ≠ .ok) : HeartbeatOutcome c now info (c, s, {})
  | refreshed {i : Nat} (ha : Accepts c info i) (hm : (beat c now info i).master = true) :
      HeartbeatOutcome c now info (c.setZNode i info.serverid (beat c now info i), .OK,
        { path := (beat c now info i).path, master := true })
  | slave {i : Nat} {fs : FSMemory} {d : Str} (ha : Accepts c info i)
      (hm : (beat c now info i).master = false)
      (hlock : lockData c.filesys (.master info.clusterid) = some d)
      (hfs : LockStep c.filesys fs (Function.update (lockData c.filesys)
        (.slave info.clusterid info.serverid) (some (beat c now info i).getAddress))) :
      HeartbeatOutcome c now info
        ((c.withFilesys fs).setZNode i info.serverid
          { beat c now info i with path := getSlaveFilepath info.clusterid info.serverid }, .OK,
        { path := getSlaveFilepath info.clusterid info.serverid, syncAddress := d })
  | elected {i : Nat} {fs : FSMemory} {sync : Str} (ha : Accepts c info i)
      (hm : (beat c now info i).master = false)
      (hlock : lockData c.filesys (.master info.clusterid) = none)
      (hfs : LockStep c.filesys fs (Function.update (lockData c.filesys)
        (.master info.clusterid) (some (beat c now info i).getAddress)))
      (hsync : sync = electedSync (c.setZNode i info.serverid (beat c now info i)) info i) :
      HeartbeatOutcome c now info
        ((c.withFilesys fs).setZNode i info.serverid
          { beat c now info i with path := getMasterFilepath info.clusterid, master := true }, .OK,
        { path := getMasterFilepath info.clusterid, master := true, syncAddress := sync })

theorem elect_spec {c : SNSCoordinator} (hs : LockService c.filesys) (i : Nat) (server : ZNode)
    (info : ServerInfo) :
    (∃ fs d, lockData c.filesys (.master info.clusterid) = some d ∧
      LockStep c.filesys fs (Function.update (lockData c.filesys)
        (.slave info.clusterid info.serverid) (some server.getAddress)) ∧
      c.elect i server info = .ok (SNSCoordinator.conclude (c.withFilesys fs) i info.serverid server
        (getSlaveFilepath info.clusterid info.serverid) false d)) ∨
    (∃ fs, lockData c.filesys (.master info.clusterid) = none ∧
      LockStep c.filesys fs (Function.update (lockData c.filesys)
        (.master info.clusterid) (some server.getAddress)) ∧
      c.elect i server info = .ok (SNSCoordinator.conclude (c.withFilesys fs) i info.serverid server
        (getMasterFilepath info.clusterid) true (electedSync c info i))) := by
  have hmaster : getMasterFilepath info.clusterid = (Lock.master info.clusterid).path := rfl
  have hslave : getSlaveFilepath info.clusterid info.serverid =
    (Lock.slave info.clusterid info.serverid).path := rfl
  cases hl : lockData c.filesys (.master info.clusterid) with
  | some d =>
      left
      have hdir : (lockDir c.filesys (.slave info.clusterid info.serverid)).isSome := by
        have hd := lockDir_of_lockData (l := .master info.clusterid) (by rw [hl]; rfl)
        rwa [lockDir_slave]
      obtain ⟨fs, hw, hfs⟩ := hs.write_eq hdir server.getAddress
      have hread : lockData fs (.master info.clusterid) = some d := by
        rw [hfs.data, Function.update_of_ne (by simp), hl]
      refine ⟨fs, d, rfl, hfs, ?_⟩
      simp only [SNSCoordinator.elect, hmaster, hslave, hs.fileExists_eq, hl, hw, hfs.service.read_eq, hread,
        bind, Except.bind, pure, Except.pure, Option.isSome_some, ↓reduceIte]
  | none =>
      right
      obtain ⟨fs, hc, hfs⟩ := hs.create_of_none hl
      have hdir : (lockDir fs (.master info.clusterid)).isSome :=
        lockDir_of_lockData (by rw [hfs.data, Function.update_self]; rfl)
      obtain ⟨fs', hw, hfs'⟩ := hfs.service.write_eq hdir server.getAddress
      refine ⟨fs', rfl, ?_, ?_⟩
      · have htrans := hfs.trans hfs'
        rwa [hfs.data, Function.update_idem] at htrans
      · simp [SNSCoordinator.elect, hmaster, hs.fileExists_eq, hl, hc, hw, bind, Except.bind, pure, Except.pure,
          electedSync]

theorem idToIndex_eq {id : Int} {i : Nat} (h : id = (i : Int) + 1) : idToIndex id = .ok (i : Int) := by
  rw [idToIndex, if_neg (by omega), h, add_sub_cancel_right]

section

variable {c : SNSCoordinator} {info : ServerInfo} {i : Nat}

theorem index_in_range (hi : i < c.clusters.length) :
    (decide ((i : Int) < 0) || decide ((i : Int) ≥ c.clusters.length)) = false := by
  simp only [Bool.or_eq_false_iff, decide_eq_false_iff_not]
  omega

/-- An active server keeps its ids. -/
theorem heartbeat_of_clash (hi : i < c.clusters.length) (hid : info.clusterid = (i : Int) + 1)
    (hclash : SNSCoordinator.registrationClash (c.zNode? i info.serverid) info = true) (now : Int) :
    c.heartbeat now info = .ok (c, SNSCoordinator.registrationFailed, {}) := by
  simp only [SNSCoordinator.heartbeat, idToIndex_eq hid, index_in_range hi, hclash, bind, Except.bind, pure,
    Except.pure, Int.toNat_natCast, ↓reduceIte]
  rfl

theorem heartbeat_of_accepts (ha : Accepts c info i) (now : Int) : c.heartbeat now info =
    if (beat c now info i).master then .ok (c.setZNode i info.serverid (beat c now info i), .OK,
      { path := (beat c now info i).path, master := true })
    else (c.setZNode i info.serverid (beat c now info i)).elect i (beat c now info i) info := by
  simp only [SNSCoordinator.heartbeat, idToIndex_eq ha.clusterid, index_in_range ha.lt, ha.clash, bind, Except.bind, pure,
    Except.pure, Int.toNat_natCast, beat]
  rfl

theorem heartbeat_accepted (hs : LockService c.filesys) (ha : Accepts c info i) (now : Int) :
    ∃ r, c.heartbeat now info = .ok r ∧ r.2.1 = .OK ∧ HeartbeatOutcome c now info r := by
  rw [heartbeat_of_accepts ha]
  cases hm : (beat c now info i).master with
  | true => exact ⟨_, rfl, rfl, .refreshed ha hm⟩
  | false =>
      have hs' : LockService (c.setZNode i info.serverid (beat c now info i)).filesys := hs
      rcases elect_spec hs' i (beat c now info i) info with ⟨fs, d, hl, hfs, he⟩ | ⟨fs, hl, hfs, he⟩
      · refine ⟨_, he, rfl, ?_⟩
        have hslave : HeartbeatOutcome c now info _ := .slave ha hm hl hfs
        simpa [SNSCoordinator.conclude, SNSCoordinator.withFilesys_setZNode,
          SNSCoordinator.setZNode_setZNode, hm] using hslave
      · refine ⟨_, he, rfl, ?_⟩
        have helected : HeartbeatOutcome c now info _ := .elected ha hm hl hfs rfl
        simpa [SNSCoordinator.conclude, SNSCoordinator.withFilesys_setZNode,
          SNSCoordinator.setZNode_setZNode, hm] using helected

end

/-- What a heartbeat does: it is rejected and changes nothing, or it is accepted. -/
theorem heartbeat_cases {c : SNSCoordinator} (now : Int) {info : ServerInfo}
    (hid : -2 ^ 31 < info.clusterid) :
    (∃ s, s.code ≠ .ok ∧ c.heartbeat now info = .ok (c, s, {})) ∨ ∃ i, Accepts c info i := by
  have hidx : idToIndex info.clusterid = .ok (info.clusterid - 1) := by
    rw [idToIndex, if_neg (by omega)]
  by_cases hrange : (decide (info.clusterid - 1 < 0) ||
      decide (info.clusterid - 1 ≥ c.clusters.length)) = true
  · refine Or.inl ⟨SNSCoordinator.invalidClusterId c.clusters.length, ?_, ?_⟩
    · simp [SNSCoordinator.invalidClusterId]
    · simp only [SNSCoordinator.heartbeat, hidx, hrange, bind, Except.bind, pure, Except.pure, ↓reduceIte]
  · simp only [Bool.or_eq_true, decide_eq_true_eq, not_or] at hrange
    obtain ⟨i, hi⟩ : ∃ i : Nat, info.clusterid = (i : Int) + 1 := ⟨(info.clusterid - 1).toNat, by omega⟩
    have hlt : i < c.clusters.length := by omega
    cases hclash : SNSCoordinator.registrationClash (c.zNode? i info.serverid) info with
    | true => exact Or.inl ⟨_, by simp [SNSCoordinator.registrationFailed], heartbeat_of_clash hlt hi hclash now⟩
    | false => exact Or.inr ⟨i, hlt, hi, hclash⟩

theorem heartbeat_spec {c : SNSCoordinator} (hs : LockService c.filesys) (now : Int) {info : ServerInfo}
    (hid : -2 ^ 31 < info.clusterid) :
    ∃ r, c.heartbeat now info = .ok r ∧ HeartbeatOutcome c now info r := by
  rcases heartbeat_cases (c := c) now hid with ⟨s, hcode, hr⟩ | ⟨i, ha⟩
  · exact ⟨_, hr, .rejected hcode⟩
  · obtain ⟨r, hr, -, ho⟩ := heartbeat_accepted hs ha now
    exact ⟨r, hr, ho⟩

theorem heartbeat_outcome {c : SNSCoordinator} (hs : LockService c.filesys) {now : Int}
    {info : ServerInfo} {r : SNSCoordinator × Status × Path} (h : c.heartbeat now info = .ok r) :
    HeartbeatOutcome c now info r := by
  by_cases hid : -2 ^ 31 < info.clusterid
  · obtain ⟨r', hr', ho⟩ := heartbeat_spec hs now hid
    rw [h, Except.ok.injEq] at hr'
    exact hr' ▸ ho
  · have hidx : idToIndex info.clusterid = .error .overflow := by
      rw [idToIndex, if_pos (by omega)]
    simp only [SNSCoordinator.heartbeat, hidx, bind, Except.bind] at h
    cases h

/-! ## Checks -/

/-- A check leaves the server alone, counts a missed heartbeat, or releases its lock at the second one. -/
inductive CheckOutcome (c : SNSCoordinator) (now : Int) (i : Nat) (k : Int) : SNSCoordinator → Prop
  | kept : CheckOutcome c now i k c
  | missed {z : ZNode} (hz : c.zNode? i k = some z)
      (hlate : now - z.lastHeartbeat > maxHeartbeatDelay) (hne : z.missedHeartbeats ≠ 1) :
      CheckOutcome c now i k (c.setZNode i k { z with missedHeartbeats := z.missedHeartbeats + 1 })
  | expired {z : ZNode} {fs : FSMemory} {code : Int} (hz : c.zNode? i k = some z)
      (hlate : now - z.lastHeartbeat > maxHeartbeatDelay) (hone : z.missedHeartbeats = 1)
      (hremove : c.filesys.remove z.path = .ok (fs, code)) :
      CheckOutcome c now i k
        ((c.withFilesys fs).setZNode i k { z with missedHeartbeats := 2, master := false })

theorem check_outcome {c c' : SNSCoordinator} {now : Int} {i : Nat} {k : Int}
    (h : c.checkServer now i k = .ok c') : CheckOutcome c now i k c' := by
  rw [SNSCoordinator.checkServer] at h
  cases hz : c.zNode? i k with
  | none =>
      rw [hz, Except.ok.injEq] at h
      exact h ▸ .kept
  | some z =>
      simp only [hz, pure, Except.pure] at h
      by_cases hlate : now - z.lastHeartbeat > maxHeartbeatDelay
      · by_cases hone : z.missedHeartbeats = 1
        · simp only [hlate, hone, ↓reduceIte, bind, Except.bind] at h
          cases hr : c.filesys.remove z.path with
          | error x =>
              rw [hr] at h
              cases h
          | ok r =>
              rw [hr, Except.ok.injEq] at h
              exact h ▸ .expired hz hlate hone hr
        · have hne : z.missedHeartbeats + 1 ≠ 2 := by omega
          simp only [hlate, hne, ↓reduceIte, Except.ok.injEq] at h
          exact h ▸ .missed hz hlate hone
      · rw [if_neg hlate, Except.ok.injEq] at h
        exact h ▸ .kept

/-! ## The other requests -/

/-- No request but a heartbeat touches the locks and the `zNode`s. -/
theorem getServer_frame {c : SNSCoordinator} {rawId : Int} {r : SNSCoordinator × Status × ServerInfo}
    (h : c.getServer rawId = .ok r) : r.1.filesys = c.filesys ∧ r.1.clusters = c.clusters := by
  simp only [SNSCoordinator.getServer, bind, Except.bind, pure, Except.pure] at h
  split at h
  · cases h
    exact ⟨rfl, rfl⟩
  · split at h
    · cases h
    · split at h
      · cases h
        exact ⟨rfl, rfl⟩
      · cases h
        exact ⟨rfl, rfl⟩

/-- An event is a heartbeat, a check, or leaves the locks and the `zNode`s alone. -/
theorem handle_cases {c c' : SNSCoordinator} {e : SNSCoordinator.Event} (h : c.handle e = .ok c') :
    (∃ now info r, e = .heartbeat now info ∧ c.heartbeat now info = .ok r ∧ r.1 = c') ∨
    (∃ now i k, e = .check now i k ∧ c.checkServer now i k = .ok c') ∨
    (c'.filesys = c.filesys ∧ c'.clusters = c.clusters) := by
  cases e with
  | heartbeat now info =>
      left
      simp only [SNSCoordinator.handle, bind, Except.bind, pure, Except.pure] at h
      cases hr : c.heartbeat now info with
      | error x => rw [hr] at h; cases h
      | ok r => rw [hr, Except.ok.injEq] at h; exact ⟨now, info, r, rfl, hr, h⟩
  | check now i k => exact Or.inr (Or.inl ⟨now, i, k, rfl, h⟩)
  | getCounterparts info =>
      simp only [SNSCoordinator.handle, bind, Except.bind, pure, Except.pure] at h
      cases hr : c.getCounterparts info with
      | error x => rw [hr] at h; cases h
      | ok r => rw [hr, Except.ok.injEq] at h; subst h; exact Or.inr (Or.inr ⟨rfl, rfl⟩)
  | getOtherClusterMasters info =>
      simp only [SNSCoordinator.handle, bind, Except.bind, pure, Except.pure] at h
      cases hr : c.getOtherClusterMasters info with
      | error x => rw [hr] at h; cases h
      | ok r => rw [hr, Except.ok.injEq] at h; subst h; exact Or.inr (Or.inr ⟨rfl, rfl⟩)
  | getUniqueClientID =>
      cases h
      exact Or.inr (Or.inr ⟨rfl, rfl⟩)
  | getServer id =>
      simp only [SNSCoordinator.handle, bind, Except.bind, pure, Except.pure] at h
      cases hr : c.getServer id with
      | error x => rw [hr] at h; cases h
      | ok r => rw [hr, Except.ok.injEq] at h; subst h; exact Or.inr (Or.inr (getServer_frame hr))

end DistributedSns.Coordinator
