import DistributedSns.Coordinator.ServerTheorems
import DistributedSns.Coordinator.SyncTheorems

/-!
# Ids out of range

`Heartbeat` checks the index it gets from a cluster id. The queries use the index, or the remainder of a client id,
as it is.
-/

namespace DistributedSns.Coordinator

open Lib SNSCoordinator

/-! ## Requests -/

/-- The requests that carry an id. -/
inductive IdRequest where
  | heartbeat (now : Int) (serverInfo : ServerInfo)
  | getCounterparts (masterInfo : ServerInfo)
  | getOtherClusterMasters (masterInfo : ServerInfo)
  | getServer (id : Int)

namespace IdRequest

/-- The status which the handler returns. -/
def status (c : SNSCoordinator) : IdRequest → Except Fault Status
  | heartbeat now serverInfo => return (← c.heartbeat now serverInfo).2.1
  | getCounterparts masterInfo => do
    let _ ← c.getCounterparts masterInfo
    return .OK
  | getOtherClusterMasters masterInfo => do
    let _ ← c.getOtherClusterMasters masterInfo
    return .OK
  | getServer id => return (← c.getServer id).2.1

/-- The id is that of a cluster, or the remainder of the client's id is the index of one. -/
def Denotes (numClusters : Int) : IdRequest → Prop
  | heartbeat _ info => 1 ≤ info.clusterid ∧ info.clusterid ≤ numClusters
  | getCounterparts info => 1 ≤ info.clusterid ∧ info.clusterid ≤ numClusters
  | getOtherClusterMasters info => 1 ≤ info.clusterid ∧ info.clusterid ≤ numClusters
  | getServer id => 1 ≤ numClusters ∧ 0 ≤ id.tmod numClusters

/-- The handler returns without a fault, and with an error if the id denotes no cluster. -/
def Handled (numClusters : Int) (c : SNSCoordinator) (r : IdRequest) : Prop :=
  ∃ s, r.status c = .ok s ∧ (¬ r.Denotes numClusters → s.code ≠ .ok)

/-- The ids with which the handlers are right. -/
def Fits (numClusters : Int) : IdRequest → Prop
  | heartbeat _ info => -2 ^ 31 < info.clusterid
  | r => r.Denotes numClusters

end IdRequest

variable {numClusters : Int} {c c' : SNSCoordinator} {id : Int} {info : ServerInfo}

/-! ## Client ids -/

/-- The remainder of the id is an index. -/
def Indexes (c : SNSCoordinator) (id : Int) : Prop := 0 < c.clusters.length ∧ 0 ≤ id.tmod c.clusters.length

theorem getActiveMaster_ok (h : Indexes c id) :
    c.getActiveMaster id = .ok (c.searchMaster c.clusters.length (id.tmod c.clusters.length).toNat) := by
  have hlen : c.clusters.length ≠ 0 := h.1.ne'
  simp only [getActiveMaster, hlen, not_lt.mpr h.2, ↓reduceIte]

theorem indexes_of_getActiveMaster {o : Option ZRef} (h : c.getActiveMaster id = .ok o) : Indexes c id := by
  simp only [getActiveMaster] at h
  split_ifs at h with hlen hneg
  exact ⟨Nat.pos_of_ne_zero hlen, not_lt.mp hneg⟩

/-- A client has a server only if its id could be searched for. -/
def RecordedIndexes (c : SNSCoordinator) : Prop := ∀ id ref, recorded c id = some ref → Indexes c id

theorem getServer_cases {r : SNSCoordinator × Status × ServerInfo} (h : c.getServer id = .ok r) :
    r.1 = assign c id (recorded c id) ∨
      Indexes c id ∧ ∃ ref, r.1 = assign (assign c id (recorded c id)) id (some ref) := by
  simp only [getServer] at h
  split at h
  · cases h
    exact Or.inl rfl
  · obtain ⟨o, hsearch, h⟩ := bind_eq_ok.mp h
    have hindex : Indexes c id := indexes_of_getActiveMaster (c := assign c id (recorded c id)) hsearch
    cases o with
    | none =>
        cases h
        exact Or.inl rfl
    | some ref =>
        cases h
        exact Or.inr ⟨hindex, ref, rfl⟩

theorem recorded_assign_of_ne {id' : Int} (h : id' ≠ id) (assigned : Option ZRef) :
    recorded (assign c id assigned) id' = recorded c id' := by
  rw [recorded, find?_assign, if_neg h, recorded]

theorem RecordedIndexes.getServer (h : RecordedIndexes c) {r : SNSCoordinator × Status × ServerInfo}
    (hr : c.getServer id = .ok r) : RecordedIndexes r.1 := by
  intro id' ref href
  rcases getServer_cases hr with heq | ⟨hindex, ref', heq⟩
  · rw [heq] at href ⊢
    by_cases hid : id' = id
    · subst hid
      rw [recorded_assign] at href
      exact h id' ref href
    · rw [recorded_assign_of_ne hid] at href
      exact h id' ref href
  · rw [heq] at href ⊢
    by_cases hid : id' = id
    · rw [hid]
      exact hindex
    · rw [recorded_assign_of_ne hid, recorded_assign_of_ne hid] at href
      exact h id' ref href

theorem RecordedIndexes.congr (h : RecordedIndexes c) (hlen : c'.clusters.length = c.clusters.length)
    (hassigned : c'.clientAssignments = c.clientAssignments) : RecordedIndexes c' := by
  intro id ref href
  rw [recorded, hassigned] at href
  rw [Indexes, hlen]
  exact h id ref href

theorem RecordedIndexes.handle (h : RecordedIndexes c) (hinv : Inv c) {e : SNSCoordinator.Event}
    (he : c.handle e = .ok c') : RecordedIndexes c' := by
  have hlen := length_handle hinv he
  cases e with
  | heartbeat now info =>
      obtain ⟨r, hr, he⟩ := bind_eq_ok.mp he
      cases he
      refine h.congr hlen ?_
      cases heartbeat_outcome hinv.service hr <;> rfl
  | check now i k =>
      refine h.congr hlen ?_
      cases check_outcome he <;> rfl
  | getCounterparts info =>
      obtain ⟨l, -, he⟩ := bind_eq_ok.mp he
      cases he
      exact h
  | getOtherClusterMasters info =>
      obtain ⟨l, -, he⟩ := bind_eq_ok.mp he
      cases he
      exact h
  | getUniqueClientID =>
      cases he
      intro id ref href
      have hassign : recorded (assign c c.rawId none) id = some ref := href
      by_cases hid : id = c.rawId
      · rw [hid, recorded_assign] at hassign
        cases hassign
      · rw [recorded_assign_of_ne hid] at hassign
        exact h id ref hassign
  | getServer id =>
      obtain ⟨r, hr, he⟩ := bind_eq_ok.mp he
      cases he
      exact h.getServer hr

theorem recordedIndexes_of_reachable (h : (machine numClusters).Reachable c) :
    RecordedIndexes c ∧ c.clusters.length = numClusters.toNat := by
  have hall : Inv c ∧ RecordedIndexes c ∧ c.clusters.length = numClusters.toNat := by
    refine h.invariant (P := fun c => Inv c ∧ RecordedIndexes c ∧ c.clusters.length = numClusters.toNat) ?_ ?_
    · rintro c rfl
      refine ⟨.init numClusters, ?_, by simp [SNSCoordinator.init]⟩
      intro id ref href
      cases href
    · rintro c e c' ⟨hinv, hrec, hlen⟩ he
      exact ⟨hinv.handle he, hrec.handle hinv he, (length_handle hinv he).trans hlen⟩
  exact hall.2

theorem getServer_returns_iff (h : RecordedIndexes c) : (∃ r, c.getServer id = .ok r) ↔ Indexes c id := by
  refine ⟨?_, ?_⟩
  · rintro ⟨r, hr⟩
    simp only [getServer] at hr
    split at hr
    next server hfilter =>
        exact h id server (Option.filter_eq_some_iff.mp hfilter).1
    next =>
        obtain ⟨o, hsearch, -⟩ := bind_eq_ok.mp hr
        exact indexes_of_getActiveMaster (c := assign c id (recorded c id)) hsearch
  · intro hindex
    have hassign : Indexes (assign c id (recorded c id)) id := hindex
    simp only [getServer]
    split
    · exact ⟨_, rfl⟩
    · have hsearch := getActiveMaster_ok hassign
      cases ho : (assign c id (recorded c id)).searchMaster (assign c id (recorded c id)).clusters.length
          (id.tmod (assign c id (recorded c id)).clusters.length).toNat with
      | none =>
          rw [ho] at hsearch
          exact ⟨_, bind_eq_ok.mpr ⟨none, hsearch, rfl⟩⟩
      | some ref =>
          rw [ho] at hsearch
          exact ⟨_, bind_eq_ok.mpr ⟨some ref, hsearch, rfl⟩⟩

/-! ## Cluster ids -/

theorem getCounterparts_returns_iff :
    (∃ l, c.getCounterparts info = .ok l) ↔ 1 ≤ info.clusterid ∧ info.clusterid ≤ c.clusters.length := by
  refine ⟨?_, ?_⟩
  · rintro ⟨l, hl⟩
    obtain ⟨i, hi, hl⟩ := bind_eq_ok.mp hl
    obtain ⟨cluster, hcluster, -⟩ := bind_eq_ok.mp hl
    rw [idToIndex] at hi
    split_ifs at hi
    cases hi
    rw [clusterAt] at hcluster
    split_ifs at hcluster with hneg
    cases hget : c.clusters[(info.clusterid - 1).toNat]? with
    | none =>
        rw [hget] at hcluster
        cases hcluster
    | some cluster' =>
        obtain ⟨hlt, -⟩ := List.getElem?_eq_some_iff.mp hget
        omega
  · rintro ⟨hpos, hle⟩
    obtain ⟨i, hi⟩ : ∃ i : Nat, info.clusterid = (i : Int) + 1 := ⟨(info.clusterid - 1).toNat, by omega⟩
    have hlt : i < c.clusters.length := by omega
    refine ⟨_, bind_eq_ok.mpr ⟨i, idToIndex_eq hi, bind_eq_ok.mpr ⟨c.clusters[i], ?_, rfl⟩⟩⟩
    rw [clusterAt, if_neg (by omega), Int.toNat_natCast, List.getElem?_eq_getElem hlt]

theorem getOtherClusterMasters_returns (h : -2 ^ 31 < info.clusterid) :
    ∃ l, c.getOtherClusterMasters info = .ok l := by
  have hindex : idToIndex info.clusterid = .ok (info.clusterid - 1) := by
    rw [idToIndex, if_neg (by omega)]
  exact ⟨_, bind_eq_ok.mpr ⟨_, hindex, rfl⟩⟩

theorem heartbeat_error (h : ¬ -2 ^ 31 < info.clusterid) (now : Int) : c.heartbeat now info = .error .overflow := by
  have hindex : idToIndex info.clusterid = .error .overflow := by
    rw [idToIndex, if_pos (by omega)]
  rw [heartbeat, hindex]
  rfl

/-! ## All requests -/

theorem handled_heartbeat_iff (hinv : Inv c) (hlen : c.clusters.length = numClusters.toNat) (now : Int) :
    (IdRequest.heartbeat now info).Handled numClusters c ↔ -2 ^ 31 < info.clusterid := by
  by_cases hid : -2 ^ 31 < info.clusterid
  · refine iff_of_true ?_ hid
    rcases heartbeat_cases (c := c) now hid with ⟨s, hcode, hr⟩ | ⟨i, ha⟩
    · exact ⟨s, bind_eq_ok.mpr ⟨_, hr, rfl⟩, fun _ => hcode⟩
    · obtain ⟨r, hr, -⟩ := heartbeat_accepted hinv.service ha now
      refine ⟨r.2.1, bind_eq_ok.mpr ⟨r, hr, rfl⟩, fun hnot => absurd ?_ hnot⟩
      have hlt := ha.lt
      have hcluster := ha.clusterid
      exact ⟨by omega, by omega⟩
  · refine iff_of_false ?_ hid
    rintro ⟨s, hs, -⟩
    obtain ⟨r, hr, -⟩ := bind_eq_ok.mp hs
    rw [heartbeat_error hid] at hr
    cases hr

/-- In every reachable state a request stays in range, and is refused if its id denotes no cluster, exactly if the id
fits the handler. -/
theorem handled_iff (h : (machine numClusters).Reachable c) (r : IdRequest) :
    r.Handled numClusters c ↔ r.Fits numClusters := by
  obtain ⟨hrec, hlen⟩ := recordedIndexes_of_reachable h
  cases r with
  | heartbeat now info => exact handled_heartbeat_iff (.of_reachable h) hlen now
  | getCounterparts info =>
      have hrange : (∃ l, c.getCounterparts info = .ok l) ↔
          (IdRequest.getCounterparts info).Denotes numClusters := by
        rw [getCounterparts_returns_iff, IdRequest.Denotes]
        omega
      refine Iff.trans ?_ hrange
      refine ⟨?_, ?_⟩
      · rintro ⟨s, hs, -⟩
        obtain ⟨l, hl, -⟩ := bind_eq_ok.mp hs
        exact ⟨l, hl⟩
      · rintro ⟨l, hl⟩
        exact ⟨.OK, bind_eq_ok.mpr ⟨l, hl, rfl⟩, fun hnot => absurd (hrange.mp ⟨l, hl⟩) hnot⟩
  | getOtherClusterMasters info =>
      refine ⟨?_, ?_⟩
      · rintro ⟨s, hs, hcode⟩
        obtain ⟨l, -, hs⟩ := bind_eq_ok.mp hs
        cases hs
        by_contra hnot
        exact hcode hnot rfl
      · intro hdenotes
        have hfirst : 1 ≤ info.clusterid := hdenotes.1
        have hreturns : ∃ l, c.getOtherClusterMasters info = .ok l := getOtherClusterMasters_returns (by omega)
        obtain ⟨l, hl⟩ := hreturns
        exact ⟨.OK, bind_eq_ok.mpr ⟨l, hl, rfl⟩, fun hnot => absurd hdenotes hnot⟩
  | getServer id =>
      have hrange : (∃ r, c.getServer id = .ok r) ↔ (IdRequest.getServer id).Denotes numClusters := by
        rw [getServer_returns_iff hrec, Indexes, hlen, IdRequest.Denotes]
        refine ⟨?_, ?_⟩
        · rintro ⟨hpos, hmod⟩
          rw [Int.toNat_of_nonneg (by omega)] at hmod
          exact ⟨by omega, hmod⟩
        · rintro ⟨hpos, hmod⟩
          rw [Int.toNat_of_nonneg (by omega)]
          exact ⟨by omega, hmod⟩
      refine Iff.trans ?_ hrange
      refine ⟨?_, ?_⟩
      · rintro ⟨s, hs, -⟩
        obtain ⟨r, hr, -⟩ := bind_eq_ok.mp hs
        exact ⟨r, hr⟩
      · rintro ⟨r, hr⟩
        exact ⟨r.2.1, bind_eq_ok.mpr ⟨r, hr, rfl⟩, fun hnot => absurd (hrange.mp ⟨r, hr⟩) hnot⟩

theorem handled_iff_counterparts :
    (IdRequest.getCounterparts { serverid := 1, clusterid := 3 }).Handled 3 (.init 3) :=
  (handled_iff (.init rfl) _).mpr (by decide : 1 ≤ (3 : Int) ∧ (3 : Int) ≤ 3)

/-- Cluster id 0 stands for index -1. -/
theorem handled_zero :
    ¬ ∀ numClusters c, (machine numClusters).Reachable c → ∀ r : IdRequest, r.Handled numClusters c := by
  intro h
  obtain ⟨s, hs, -⟩ := h 3 (.init 3) (.init rfl) (.getCounterparts { serverid := 1, clusterid := 0 })
  cases hs

end DistributedSns.Coordinator
