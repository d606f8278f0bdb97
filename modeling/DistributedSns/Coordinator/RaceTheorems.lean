import DistributedSns.Coordinator.Lemmas.Election

/-!
# Races between handlers and the check loop

The handlers of `Heartbeat` and the check loop share the `zNode`s and the lock service without a common
lock. Both results say which steps must be kept apart, and each is followed by a run in which they are not.
-/

namespace DistributedSns.Coordinator

open Lib FSWrapper SNSCoordinator

/-! ## Expiry -/

theorem SystemInv.init (numClusters : Int) : SystemInv { coordinator := .init numClusters } where
  tree := LockService.init.toLockTree
  paths i k z hz := by
    have hnone : (SNSCoordinator.init numClusters).zNode? i k = none := zNode?_init numClusters i k
    rw [hnone] at hz
    cases hz
  handlers := by simp
  winners := by simp
  check := trivial
  held i hi := by
    have hnone : lockData (SNSCoordinator.init numClusters).filesys (.master (i + 1)) = none :=
      lockData_init _
    simp [hnone] at hi

theorem SystemInv.step {s s' : System} {a : Action} (hs : SystemInv s) (hC : s.overwritesHolder a = false)
    (ha : s.step a = .ok s') : SystemInv s' := by
  cases a with
  | arrive now info =>
      cases ha
      have hmem (h : Handler) (hm : h ∈ s.handlers ++ [{ now := now, info := info }]) :
          h ∈ s.handlers ∨ h = { now := now, info := info } := by simpa using hm
      refine ⟨hs.tree, hs.paths, fun h hm => ?_, fun h hm rawPath sync hpc => ?_, hs.check, fun i hi => ?_⟩
      · rcases hmem h hm with hm | rfl
        · exact hs.handlers h hm
        · trivial
      · rcases hmem h hm with hm | rfl
        · exact hs.winners h hm rawPath sync hpc
        · cases hpc
      · obtain ⟨k, hk⟩ := hs.held i hi
        refine ⟨k, ?_⟩
        rw [System.holdsLock_iff] at hk ⊢
        exact hk.imp id (Or.imp (fun ⟨h, hm, hh⟩ => ⟨h, List.mem_append_left _ hm, hh⟩) id)
  | run n =>
      rcases run_cases ha with ⟨-, rfl⟩ | ⟨h, r, hn, hh, rfl⟩
      · exact hs
      · exact hs.run hn hC (handler_outcome hs.tree (hs.handlers h (List.mem_of_getElem? hn)) hh)
  | check now i k =>
      rw [System.step] at ha
      split at ha
      · rename_i server hidle hz
        split_ifs at ha
        · cases ha
          refine ⟨hs.tree, hs.paths, hs.handlers, hs.winners, Option.isSome_of_eq_some hz, fun j hj => ?_⟩
          obtain ⟨k', hk'⟩ := hs.held j hj
          refine ⟨k', ?_⟩
          rw [System.holdsLock_iff] at hk' ⊢
          refine hk'.imp id (Or.imp id ?_)
          rintro ⟨hr, -⟩
          simp [hidle] at hr
        · cases ha
          exact hs
      · cases ha
        exact hs
  | proceed => exact hs.proceed ha

def server1 (registered : Bool) : ServerInfo :=
  { serverid := 1, clusterid := 1, hostname := "h".toList, port := "1".toList, registered }

/-- A server registers and becomes master. -/
def registration : List Action :=
  .arrive 0 (server1 false) :: List.replicate 17 (.run 0)

/-- A race gives usable replies if no step loses it, and a race which is over and gave usable replies has no
step which lost it. -/
theorem race_usable {i : Nat} {s₀ s : System} {tr : List (System × Nat)} (hr : (race i).Run s₀ tr s)
    (h₀ : Race i s₀) :
    ((∀ x ∈ tr, x.1.losesRace x.2 = false) → Usable s i) ∧
    (s.Quiescent → Usable s i → ∀ x ∈ tr, x.1.losesRace x.2 = false) := by
  constructor
  · intro hC
    have hs : RaceInv i s := hr.invariant_of (C := fun s n => s.losesRace n = false) hC (.init h₀)
      fun _ _ _ hs hC h => hs.run hC h
    exact hs.usable
  · intro hq hu
    have hs₀ : Orderly s₀ := ⟨(RaceInv.init h₀).tree, (RaceInv.init h₀).ok⟩
    exact (spoiled_or_kept hr hs₀).2.resolve_right (hu.not_spoiled hq)

def server2 : ServerInfo :=
  { serverid := 2, clusterid := 1, hostname := "h".toList, port := "2".toList }

/-- Two servers send their first heartbeats. -/
def twoServers : System :=
  { coordinator := .init 1, handlers := [{ now := 0, info := server1 false }, { now := 0, info := server2 }] }

theorem race_twoServers : Race 0 twoServers where
  inv := .init 1
  lt := by decide
  noMaster := by simp [hasMaster_iff, twoServers, SNSCoordinator.init, masterOf, OrdMap.empty]
  starting := by decide
  distinct := by decide
  idle := rfl

/-- The handlers run one after the other. -/
def oneByOne : List Nat := List.replicate 17 0 ++ List.replicate 15 1

theorem race_usable_twoServers : ∃ s₀ tr s, Race 0 s₀ ∧ (race 0).Run s₀ tr s ∧ s.Quiescent ∧ Usable s 0 := by
  have hrun : ∃ s, oneByOne.foldlM (fun s n => System.step s (.run n)) twoServers = .ok s ∧ s.Quiescent ∧
      ∀ x ∈ Machine.history (fun s n => System.step s (.run n)) twoServers oneByOne,
        x.1.losesRace x.2 = false :=
    ⟨_, rfl, by decide +kernel, by decide +kernel⟩
  obtain ⟨s, hs, hq, hC⟩ := hrun
  have hr : (race 0).Run twoServers _ s := Machine.run_of_foldlM hs
  exact ⟨twoServers, _, s, race_twoServers, hr, hq, (race_usable hr race_twoServers).1 hC⟩

/-- Both find no lock, and the second calls `create` after the first. -/
theorem race_lost_twoServers : ∃ s₀ tr s, Race 0 s₀ ∧ (race 0).Run s₀ tr s ∧ s.Quiescent ∧ ¬ Usable s 0 := by
  have hrun : ∃ s, (List.replicate 12 0 ++ List.replicate 12 1 ++ List.replicate 5 0 ++
      List.replicate 3 1).foldlM (fun s n => System.step s (.run n)) twoServers = .ok s ∧ s.Quiescent ∧
      ∃ h ∈ s.handlers, h.spoiled = true :=
    ⟨_, rfl, by decide +kernel, by decide +kernel⟩
  obtain ⟨s, hs, hq, hsp⟩ := hrun
  exact ⟨twoServers, _, s, race_twoServers, Machine.run_of_foldlM hs, hq, fun hu => hu.not_spoiled hq hsp⟩

end DistributedSns.Coordinator
