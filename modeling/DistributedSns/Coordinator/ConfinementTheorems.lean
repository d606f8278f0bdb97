import DistributedSns.Coordinator.Lemmas.Entries
import DistributedSns.Coordinator.Lemmas.LockFiles

/-!
# What a heartbeat leaves alone

A heartbeat changes the entry of its sender and the lock files of its cluster. A heartbeat which is rejected changes
nothing.
-/

namespace DistributedSns.Coordinator

open Lib FSWrapper

variable {numClusters : Int} {c c' : SNSCoordinator}

/-- The path is in the folder of the cluster. -/
def UnderCluster (clusterId : Int) (file : Str) : Prop := ∃ p, components file = (Lock.master clusterId).dir :: p

/-- Nothing has changed but the sender's entry and what is in the folder of its cluster. -/
structure Confined (c : SNSCoordinator) (info : ServerInfo) (c' : SNSCoordinator) : Prop where
  length : c'.clusters.length = c.clusters.length
  zNodes : ∀ (i : Nat) k, ¬ (info.clusterid = (i : Int) + 1 ∧ k = info.serverid) → c'.zNode? i k = c.zNode? i k
  found : ∀ clusterId file, clusterId ≠ info.clusterid → UnderCluster clusterId file →
    c'.filesys.fileExists file = c.filesys.fileExists file
  data : ∀ clusterId file, clusterId ≠ info.clusterid → UnderCluster clusterId file → ∀ data offset,
    c'.filesys.read file data offset = c.filesys.read file data offset
  clientAssignments : c'.clientAssignments = c.clientAssignments

/-- The cluster id is out of range, or the sender registers with the ids of an active server. -/
def Refused (c : SNSCoordinator) (info : ServerInfo) : Prop :=
  info.clusterid < 1 ∨ info.clusterid > c.clusters.length ∨ info.registered = false ∧
    ∃ i z, info.clusterid = ((i : Nat) : Int) + 1 ∧ c.zNode? i info.serverid = some z ∧ z.isActive = true

/-! ## Folders of other clusters -/

theorem LockCall.files_of_ne {fs fs' : FSMemory} {l : Lock} (h : LockCall l fs fs') {clusterId : Int}
    (hne : clusterId ≠ l.clusterId) (p : List Str) :
    fs'.files ((Lock.master clusterId).dir :: p) = fs.files ((Lock.master clusterId).dir :: p) := by
  have hdir : (Lock.master clusterId).dir ≠ l.dir := fun hd => hne (str_inj (List.append_cancel_left hd))
  apply h.frame
  · intro hp
    rw [Lock.place, List.cons_prefix_cons] at hp
    exact hdir hp.1
  · intro hp
    rw [Lock.place, List.cons_prefix_cons] at hp
    exact hdir hp.1.symm

theorem heartbeat_files (h : Inv c) {now : Int} {info : ServerInfo} {r : SNSCoordinator × Status × Path}
    (hr : c.heartbeat now info = .ok r) {clusterId : Int} (hne : clusterId ≠ info.clusterid) {file : Str}
    (hfile : UnderCluster clusterId file) : r.1.filesys.files (components file) = c.filesys.files (components file) := by
  obtain ⟨p, hp⟩ := hfile
  rcases heartbeat_lockCall h.service hr with hfs | ⟨l, hl, hcall⟩
  · rw [hfs]
  · rw [hp]
    exact hcall.files_of_ne (hl ▸ hne) p

/-! ## Heartbeats -/

theorem heartbeat_frame {now : Int} {info : ServerInfo} {r : SNSCoordinator × Status × Path}
    (h : HeartbeatOutcome c now info r) :
    r.1.clientAssignments = c.clientAssignments ∧ r.1.clusters.length = c.clusters.length := by
  cases h <;> exact ⟨rfl, by simp⟩

theorem confined_heartbeat (h : Inv c) {now : Int} {info : ServerInfo} {r : SNSCoordinator × Status × Path}
    (hr : c.heartbeat now info = .ok r) : Confined c info r.1 := by
  have ho := heartbeat_outcome h.service hr
  constructor
  · exact (heartbeat_frame ho).2
  · intro i k hik
    rcases heartbeat_entry ho with ⟨hc, -, -⟩ | ⟨j, z, hentry⟩
    · rw [hc]
    · rw [hentry.zNode?, if_neg]
      rintro ⟨rfl, rfl⟩
      exact hik ⟨hentry.accepts.clusterid, rfl⟩
  · intro clusterId file hne hfile
    rw [FSMemory.fileExists_refines, FSMemory.fileExists_refines, heartbeat_files h hr hne hfile]
  · intro clusterId file hne hfile data offset
    rw [FSMemory.read_refines, FSMemory.read_refines, PathMap.read, PathMap.read, heartbeat_files h hr hne hfile]
  · exact (heartbeat_frame ho).1

theorem refused_or_accepts (c : SNSCoordinator) (info : ServerInfo) : Refused c info ∨ ∃ i, Accepts c info i := by
  by_cases hrange : info.clusterid < 1 ∨ info.clusterid > c.clusters.length
  · exact Or.inl (hrange.imp_right Or.inl)
  · rw [not_or] at hrange
    obtain ⟨i, hid⟩ : ∃ i : Nat, info.clusterid = (i : Int) + 1 := ⟨(info.clusterid - 1).toNat, by omega⟩
    cases hclash : SNSCoordinator.registrationClash (c.zNode? i info.serverid) info with
    | false => exact Or.inr ⟨i, by omega, hid, hclash⟩
    | true =>
        cases hz : c.zNode? i info.serverid with
        | none => simp [hz, SNSCoordinator.registrationClash] at hclash
        | some z =>
            have hboth : info.registered = false ∧ z.isActive = true := by
              simpa [hz, SNSCoordinator.registrationClash] using hclash
            exact Or.inl (Or.inr (Or.inr ⟨hboth.1, i, z, hid, hz, hboth.2⟩))

theorem Accepts.not_refused {info : ServerInfo} {i : Nat} (ha : Accepts c info i) : ¬ Refused c info := by
  have hid := ha.clusterid
  have hlt := ha.lt
  rintro (hlow | hhigh | ⟨hnew, j, z, hj, hz, hactive⟩)
  · omega
  · omega
  · obtain rfl : j = i := by omega
    have hclash := ha.clash
    rw [hz, SNSCoordinator.registrationClash, hnew, hactive] at hclash
    cases hclash

theorem refused_iff (h : Inv c) {now : Int} {info : ServerInfo} {r : SNSCoordinator × Status × Path}
    (hr : c.heartbeat now info = .ok r) : r.2.1.code ≠ .ok ↔ Refused c info := by
  constructor
  · intro hcode
    rcases refused_or_accepts c info with hrefused | ⟨i, ha⟩
    · exact hrefused
    · obtain ⟨r', hr', hok, -⟩ := heartbeat_accepted h.service ha now
      rw [hr, Except.ok.injEq] at hr'
      rw [hr', hok] at hcode
      exact absurd rfl hcode
  · intro hrefused
    cases heartbeat_outcome h.service hr with
    | rejected hs => exact hs
    | refreshed ha hm => exact absurd hrefused ha.not_refused
    | slave ha hm hlock hfs => exact absurd hrefused ha.not_refused
    | elected ha hm hlock hfs hsync => exact absurd hrefused ha.not_refused

/-- A heartbeat is confined to the entry of its sender and the folder of its cluster. It is rejected for two reasons
only, and then it changes nothing. -/
theorem heartbeat_confined (h : (SNSCoordinator.machine numClusters).Reachable c) {now : Int} {info : ServerInfo}
    {r : SNSCoordinator × Status × Path} (hr : c.heartbeat now info = .ok r) :
    Confined c info r.1 ∧ (r.2.1.code ≠ .ok ↔ Refused c info) ∧ (Refused c info → r.1 = c) := by
  have hinv := Inv.of_reachable h
  have hrefused := refused_iff hinv hr
  refine ⟨confined_heartbeat hinv hr, hrefused, fun hno => ?_⟩
  rcases heartbeat_entry (heartbeat_outcome hinv.service hr) with ⟨hc, -, -⟩ | ⟨i, z, hentry⟩
  · exact hc
  · exact absurd hno hentry.accepts.not_refused

/-- A server of each of two clusters registers. -/
def twoClusters : List SNSCoordinator.Event :=
  [.heartbeat 0 { serverid := 1, clusterid := 1, hostname := ['a'], port := ['1'] },
    .heartbeat 0 { serverid := 1, clusterid := 2, hostname := ['b'], port := ['1'] }]

theorem heartbeat_confined_twoClusters : ∃ c r, twoClusters.foldlM SNSCoordinator.handle (.init 2) = .ok c ∧
    c.heartbeat 1 { serverid := 2, clusterid := 1, hostname := ['a'], port := ['2'] } = .ok r ∧
    Confined c { serverid := 2, clusterid := 1, hostname := ['a'], port := ['2'] } r.1 := by
  obtain ⟨c, hc, r, hr⟩ : ∃ c, twoClusters.foldlM SNSCoordinator.handle (.init 2) = .ok c ∧
      ∃ r, c.heartbeat 1 { serverid := 2, clusterid := 1, hostname := ['a'], port := ['2'] } = .ok r :=
    ⟨_, rfl, _, rfl⟩
  exact ⟨c, r, hc, hr, (heartbeat_confined (Machine.reachable_of_foldlM rfl hc) hr).1⟩

end DistributedSns.Coordinator
