import DistributedSns.Coordinator.Lemmas.Invariant

/-!
# The master lock

In every reachable state of the coordinator the lock file of a cluster, the flag of its `zNode`s and the
path of its master agree.
-/

namespace DistributedSns.Coordinator

open Lib FSWrapper

variable {numClusters : Int} {c : SNSCoordinator}

theorem masterLock_exclusive (h : (SNSCoordinator.machine numClusters).Reachable c) {i : Nat}
    (hi : i < c.clusters.length) :
    (∀ k k' z z', c.zNode? i k = some z → c.zNode? i k' = some z' →
      z.master = true → z'.master = true → k = k') ∧
    (∃ found, c.filesys.fileExists (getMasterFilepath (i + 1)) = .ok found ∧
      (found = true ↔ ∃ k z, c.zNode? i k = some z ∧ z.master = true)) ∧
    (∀ k z, c.zNode? i k = some z → z.master = true →
      z.path = getMasterFilepath (i + 1) ∧ z.missedHeartbeats < 2) := by
  have hinv := Inv.of_reachable h
  refine ⟨hinv.unique i, ⟨_, hinv.service.fileExists_eq (l := .master (i + 1)), hinv.lock i hi⟩, ?_⟩
  intro k z hz hm
  exact (hinv.zNodes i k z hz).master hm

/-- Two servers register, the master expires and comes back after the other one has taken over. -/
def takeover : List SNSCoordinator.Event :=
  let info (serverid : Int) (registered : Bool) : ServerInfo :=
    { serverid, clusterid := 1, hostname := "h".toList, port := "1".toList, registered }
  [.heartbeat 0 (info 1 false), .heartbeat 8 (info 2 false), .check 11 0 1, .check 14 0 1,
    .heartbeat 15 (info 2 true), .heartbeat 16 (info 1 true), .check 27 0 1]

theorem masterLock_exclusive_takeover : ∃ c, takeover.foldlM SNSCoordinator.handle (.init 1) = .ok c ∧
    (∀ k k' z z', c.zNode? 0 k = some z → c.zNode? 0 k' = some z' →
      z.master = true → z'.master = true → k = k') ∧
    (∃ found, c.filesys.fileExists (getMasterFilepath (0 + 1)) = .ok found ∧
      (found = true ↔ ∃ k z, c.zNode? 0 k = some z ∧ z.master = true)) ∧
    (∀ k z, c.zNode? 0 k = some z → z.master = true →
      z.path = getMasterFilepath (0 + 1) ∧ z.missedHeartbeats < 2) := by
  refine ⟨_, rfl, ?_⟩
  have hr : (SNSCoordinator.machine 1).Reachable _ := Machine.reachable_of_foldlM (l := takeover) rfl rfl
  exact masterLock_exclusive (i := 0) hr (by decide)

end DistributedSns.Coordinator
