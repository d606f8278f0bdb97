import DistributedSns.Coordinator.Lemmas.Invariant
import DistributedSns.System.Network

/-!
# What the coordinator's lists contain

The lists of counterparts and of other masters, read as sets of entries of the coordinator. If the processes
agree with the coordinator then different entries have different addresses.
-/

namespace DistributedSns.System

open Lib (OrdMap)
open Coordinator

theorem servers_setServer (n : Network) (addr : Str) (s : Option Server.SNSServer) (a : Str) :
    (n.setServer addr s).servers a = if a = addr then s else n.servers a :=
  Function.update_apply ..

/-! ## Entries of the lists -/

/-- The active servers of a cluster but the one with the given key. -/
def counterparts (c : SNSCoordinator) (i : Nat) (k : Int) : List (Int × ZNode) :=
  (c.clusters[i]?.getD .empty).entries.filter fun e => k ≠ e.1 ∧ e.2.isActive

/-- The masters of all clusters but the one with the given index. -/
def otherMasters (c : SNSCoordinator) (i : Nat) : List (Nat × Int × ZNode) :=
  c.clusters.zipIdx.filterMap fun e =>
    if e.2 ≠ i then (SNSCoordinator.masterOf e.1).map fun m => (e.2, m) else none

section

variable {c : SNSCoordinator} {i : Nat} {k : Int}

theorem idToIndex_cluster (i : Nat) : idToIndex (i + 1) = .ok (i : Int) := by
  rw [idToIndex, if_neg (by omega)]
  congr 1
  omega

theorem filterMap_ite {α β : Type} (p : α → Prop) [DecidablePred p] (f : α → β) (l : List α) :
    l.filterMap (fun x => if p x then some (f x) else none) = (l.filter fun x => p x).map f := by
  induction l with
  | nil => rfl
  | cons x l ih =>
      by_cases hx : p x
      · simp [hx, ih]
      · simp [hx, ih]

theorem serverList_counterparts (hi : i < c.clusters.length) {info : ServerInfo}
    (hid : info.clusterid = i + 1) : serverList c info .COUNTERPARTS =
      .ok ((counterparts c i info.serverid).map fun e => e.2.setServerInfo {}) := by
  have hcluster : c.clusterAt i = .ok c.clusters[i] := by
    rw [SNSCoordinator.clusterAt, if_neg (by omega), Int.toNat_natCast, List.getElem?_eq_getElem hi]
  rw [serverList, SNSCoordinator.getCounterparts, hid, idToIndex_cluster, ok_bind, hcluster, ok_bind,
    counterparts, List.getElem?_eq_getElem hi, Option.getD_some]
  exact congrArg Except.ok (filterMap_ite (fun e : Int × ZNode => info.serverid ≠ e.1 ∧ e.2.isActive = true) _ _)

theorem serverList_otherMasters {info : ServerInfo} (hid : info.clusterid = i + 1) :
    serverList c info .OTHER_MASTERS = .ok ((otherMasters c i).map fun e => e.2.2.setServerInfo {}) := by
  rw [serverList, SNSCoordinator.getOtherClusterMasters, hid, idToIndex_cluster, ok_bind, otherMasters,
    List.map_filterMap]
  congr 2
  funext e
  by_cases he : e.2 = i
  · simp [he]
  · have he' : (e.2 : Int) ≠ i := by omega
    simp [he, he', Function.comp_def]

theorem mem_counterparts {k' : Int} {z : ZNode} :
    (k', z) ∈ counterparts c i k ↔ c.zNode? i k' = some z ∧ k ≠ k' ∧ z.isActive = true := by
  rw [counterparts, SNSCoordinator.zNode?]
  cases c.clusters[i]? with
  | none => simp [OrdMap.empty]
  | some cluster => simp [List.mem_filter, OrdMap.mem_entries_iff]

theorem mem_otherMasters {j : Nat} {z : ZNode} (h : (j, k, z) ∈ otherMasters c i) :
    j ≠ i ∧ c.zNode? j k = some z ∧ z.master = true := by
  obtain ⟨⟨cluster, j'⟩, he, hm⟩ := List.mem_filterMap.mp h
  split_ifs at hm with hj
  obtain ⟨m, hmaster, hme⟩ := Option.map_eq_some_iff.mp hm
  cases hme
  obtain ⟨hz, hzm⟩ := SNSCoordinator.find?_of_masterOf hmaster
  rw [List.mk_mem_zipIdx_iff_getElem?] at he
  exact ⟨hj, by rw [SNSCoordinator.zNode?, he]; exact hz, hzm⟩

theorem exists_mem_otherMasters {j : Nat} (hj : j ≠ i) (h : HasMaster c j) :
    ∃ k z, (j, k, z) ∈ otherMasters c i := by
  rw [hasMaster_iff] at h
  cases hc : c.clusters[j]? with
  | none => simp [hc] at h
  | some cluster =>
      rw [hc, Option.bind_some] at h
      obtain ⟨⟨k, z⟩, hm⟩ := Option.isSome_iff_exists.mp h
      refine ⟨k, z, List.mem_filterMap.mpr ⟨(cluster, j), List.mk_mem_zipIdx_iff_getElem?.mpr hc, ?_⟩⟩
      simp [hj, hm]

theorem nodup_keys (m : OrdMap Int ZNode) : (m.entries.map Prod.fst).Nodup := by
  rw [List.nodup_map_iff_inj_on]
  · intro e he e' he' hee'
    obtain ⟨k, z⟩ := e
    obtain ⟨k', z'⟩ := e'
    cases hee'
    have hz := OrdMap.mem_entries_iff.mp he
    rw [OrdMap.mem_entries_iff.mp he', Option.some.injEq] at hz
    rw [hz]
  · exact m.sorted.imp fun h he => absurd h (by rw [he]; exact lt_irrefl _)

theorem nodup_counterparts : ((counterparts c i k).map Prod.fst).Nodup := by
  rw [counterparts]
  cases c.clusters[i]? with
  | none => exact List.nodup_nil
  | some cluster => exact (nodup_keys cluster).sublist (List.filter_sublist.map _)

theorem nodup_otherMasters : ((otherMasters c i).map Prod.fst).Nodup := by
  have hsub : ((otherMasters c i).map Prod.fst).Sublist (c.clusters.zipIdx.map Prod.snd) := by
    rw [otherMasters]
    induction c.clusters.zipIdx with
    | nil => exact .slnil
    | cons e l ih =>
        rw [List.filterMap_cons, List.map_cons]
        split_ifs with he
        · cases SNSCoordinator.masterOf e.1 with
          | none => exact ih.cons _
          | some m => exact ih.cons_cons _
        · exact ih.cons _
  exact (List.nodup_zipIdx_map_snd _).sublist hsub

end

/-! ## Processes which agree with the coordinator -/

/-- The process of the server with key `k` in the cluster with index `i`. -/
structure Agrees (i : Nat) (k : Int) (z : ZNode) (s : Server.SNSServer) : Prop where
  clusterid : s.serverInfo.clusterid = i + 1
  serverid : s.serverInfo.serverid = k
  master : s.master = z.master

instance (i : Nat) (k : Int) (z : ZNode) (s : Server.SNSServer) : Decidable (Agrees i k z s) :=
  decidable_of_iff (s.serverInfo.clusterid = i + 1 ∧ s.serverInfo.serverid = k ∧ s.master = z.master)
    ⟨fun h => ⟨h.1, h.2.1, h.2.2⟩, fun h => ⟨h.clusterid, h.serverid, h.master⟩⟩

/-- Every active server runs at its address and knows its role, and a cluster has at most one master. -/
structure Topology (n : Network) : Prop where
  process : ∀ (i : Nat) (k : Int) (z : ZNode), n.coordinator.zNode? i k = some z → z.isActive = true →
    ∃ s, n.servers z.getAddress = some s ∧ Agrees i k z s
  unique : ∀ (i : Nat) (k k' : Int) (z z' : ZNode), n.coordinator.zNode? i k = some z →
    n.coordinator.zNode? i k' = some z' → z.master = true → z'.master = true → k = k'
  active : ∀ (i : Nat) (k : Int) (z : ZNode), n.coordinator.zNode? i k = some z → z.master = true →
    z.isActive = true

/-- The address of an active server of a cluster which has a master. -/
def Target (c : SNSCoordinator) (addr : Str) : Prop :=
  ∃ i k z, c.zNode? i k = some z ∧ z.isActive = true ∧ HasMaster c i ∧ z.getAddress = addr

section

variable {n : Network} {i j : Nat} {k k' : Int} {z z' : ZNode}

/-- A reachable coordinator has at most one master in a cluster, and masters are active. -/
theorem Topology.of_inv (h : Inv n.coordinator)
    (hprocess : ∀ (i : Nat) (k : Int) (z : ZNode), n.coordinator.zNode? i k = some z → z.isActive = true →
      ∃ s, n.servers z.getAddress = some s ∧ Agrees i k z s) : Topology n := by
  constructor
  · exact hprocess
  · exact h.unique
  · intro i k z hz hm
    have := ((h.zNodes i k z hz).master hm).2
    simp only [ZNode.isActive, decide_eq_true_eq]
    omega

/-- A test of all entries of the coordinator. -/
def allZNodes (c : SNSCoordinator) (p : Nat → Int → ZNode → Bool) : Bool :=
  c.clusters.zipIdx.all fun e => e.1.entries.all fun x => p e.2 x.1 x.2

theorem of_allZNodes {c : SNSCoordinator} {p : Nat → Int → ZNode → Bool} (h : allZNodes c p = true)
    (hz : c.zNode? i k = some z) : p i k z = true := by
  rw [SNSCoordinator.zNode?] at hz
  cases hc : c.clusters[i]? with
  | none => simp [hc] at hz
  | some cluster =>
      rw [hc, Option.bind_some] at hz
      have hcluster := List.all_eq_true.mp h (cluster, i) (List.mk_mem_zipIdx_iff_getElem?.mpr hc)
      exact List.all_eq_true.mp hcluster (k, z) (OrdMap.mem_entries_iff.mpr hz)

/-- The processes agree with the coordinator, as a test. -/
def agreeing (c : SNSCoordinator) (servers : Str → Option Server.SNSServer) : Bool :=
  allZNodes c fun i k z => !z.isActive || (servers z.getAddress).any fun s => decide (Agrees i k z s)

theorem Topology.of_agreeing (h : Inv n.coordinator) (hagree : agreeing n.coordinator n.servers = true) :
    Topology n := by
  apply Topology.of_inv h
  intro i k z hz ha
  simpa [ha, Option.any_eq_true] using of_allZNodes hagree hz

theorem Topology.address_inj (h : Topology n) (hz : n.coordinator.zNode? i k = some z)
    (hz' : n.coordinator.zNode? j k' = some z') (ha : z.isActive = true) (ha' : z'.isActive = true)
    (haddr : z.getAddress = z'.getAddress) : i = j ∧ k = k' := by
  obtain ⟨s, hs, hag⟩ := h.process i k z hz ha
  obtain ⟨s', hs', hag'⟩ := h.process j k' z' hz' ha'
  rw [haddr, hs', Option.some.injEq] at hs
  subst hs
  have hij : (i : Int) + 1 = j + 1 := hag.clusterid.symm.trans hag'.clusterid
  exact ⟨by omega, hag.serverid.symm.trans hag'.serverid⟩

end

end DistributedSns.System
