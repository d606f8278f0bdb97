import DistributedSns.Coordinator.Lemmas.Entries

/-!
# Leaders

A master stays master until a check counts its second missed heartbeat, and a cluster without a master gets one
with the next heartbeat which is accepted.
-/

namespace DistributedSns.Coordinator

open Lib

variable {numClusters : Int} {c c' : SNSCoordinator} {e : SNSCoordinator.Event} {i : Nat}

/-- A heartbeat for the cluster with index `i` which is accepted. -/
def AcceptedFor (i : Nat) (c : SNSCoordinator) (e : SNSCoordinator.Event) : Prop :=
  ∃ now info r, e = .heartbeat now info ∧ info.clusterid = (i : Int) + 1 ∧ c.heartbeat now info = .ok r ∧
    r.2.1.code = .ok

/-- The check counts the second missed heartbeat of a server. -/
def SecondMiss (i : Nat) (k : Int) (c : SNSCoordinator) (e : SNSCoordinator.Event) (c' : SNSCoordinator) : Prop :=
  ∃ now z z', e = .check now i k ∧ c.zNode? i k = some z ∧ c'.zNode? i k = some z' ∧
    z.missedHeartbeats < z'.missedHeartbeats ∧ z'.missedHeartbeats = 2

theorem zNode?_congr (hcl : c'.clusters = c.clusters) (j : Nat) (k : Int) : c'.zNode? j k = c.zNode? j k := by
  rw [SNSCoordinator.zNode?, SNSCoordinator.zNode?, hcl]

theorem master_step (h : Inv c) (he : c.handle e = .ok c') {k : Int} {z : ZNode} (hz : c.zNode? i k = some z)
    (hm : z.master = true) (hmiss : ¬ SecondMiss i k c e c') : ∃ z', c'.zNode? i k = some z' ∧ z'.master = true := by
  rcases handle_cases he with ⟨now, info, r, rfl, hr, rfl⟩ | ⟨now, j, k', rfl, hc⟩ | ⟨-, hcl⟩
  · rcases heartbeat_entry (heartbeat_outcome h.service hr) with ⟨hc, -, -⟩ | ⟨j, z', hentry⟩
    · rw [hc]
      exact ⟨z, hz, hm⟩
    · rw [hentry.zNode?]
      split_ifs with hik
      · obtain ⟨rfl, rfl⟩ := hik
        exact ⟨z', rfl, hentry.stays z hz hm⟩
      · exact ⟨z, hz, hm⟩
  · rcases check_entry (check_outcome hc) with rfl | ⟨z₀, z', hz₀, -, hmaster, hzNode⟩
    · exact ⟨z, hz, hm⟩
    · by_cases hik : i = j ∧ k = k'
      · obtain ⟨rfl, rfl⟩ := hik
        obtain rfl : z = z₀ := Option.some.inj (hz.symm.trans hz₀)
        have hz' : c'.zNode? i k = some z' := by rw [hzNode, if_pos ⟨rfl, rfl⟩]
        rcases hmaster with hm' | ⟨-, htwo, -, hone⟩
        · exact ⟨z', hz', hm'.trans hm⟩
        · exact absurd ⟨now, z, z', rfl, hz, hz', by omega, htwo⟩ hmiss
      · rw [hzNode, if_neg hik]
        exact ⟨z, hz, hm⟩
  · rw [zNode?_congr hcl]
    exact ⟨z, hz, hm⟩

/-- Only a heartbeat which is accepted makes a master. -/
theorem hasMaster_step (h : Inv c) (he : c.handle e = .ok c') (hacc : ¬ AcceptedFor i c e)
    (hno : ¬ HasMaster c i) : ¬ HasMaster c' i := by
  rintro ⟨k, z, hz, hm⟩
  rcases handle_cases he with ⟨now, info, r, rfl, hr, rfl⟩ | ⟨now, j, k', rfl, hc⟩ | ⟨-, hcl⟩
  · rcases heartbeat_entry (heartbeat_outcome h.service hr) with ⟨hc, -, -⟩ | ⟨j, z', hentry⟩
    · rw [hc] at hz
      exact hno ⟨k, z, hz, hm⟩
    · rw [hentry.zNode?] at hz
      split_ifs at hz with hik
      · have hok : r.2.1.code = .ok := by
          rw [hentry.ok]
          rfl
        exact hacc ⟨now, info, r, rfl, hik.1 ▸ hentry.accepts.clusterid, hr, hok⟩
      · exact hno ⟨k, z, hz, hm⟩
  · rcases check_entry (check_outcome hc) with rfl | ⟨z₀, z', hz₀, -, hmaster, hzNode⟩
    · exact hno ⟨k, z, hz, hm⟩
    · rw [hzNode] at hz
      split_ifs at hz with hik
      · obtain ⟨rfl, rfl⟩ := hik
        cases hz
        rcases hmaster with hm' | ⟨hm', -⟩
        · exact hno ⟨k, z₀, hz₀, hm'.symm.trans hm⟩
        · rw [hm'] at hm
          cases hm
      · exact hno ⟨k, z, hz, hm⟩
  · rw [zNode?_congr hcl] at hz
    exact hno ⟨k, z, hz, hm⟩

theorem hasMaster_run {tr : List (SNSCoordinator × SNSCoordinator.Event)}
    (hrun : (SNSCoordinator.machine numClusters).Run c tr c') (h : Inv c)
    (hacc : ∀ x ∈ tr, ¬ AcceptedFor i x.1 x.2) (hno : ¬ HasMaster c i) : ¬ HasMaster c' i := by
  have hboth : Inv c' ∧ ¬ HasMaster c' i :=
    hrun.invariant_of (P := fun c => Inv c ∧ ¬ HasMaster c i) hacc ⟨h, hno⟩
      fun _ _ _ hP hC hs => ⟨hP.1.handle hs, hasMaster_step hP.1 hs hC hP.2⟩
  exact hboth.2

/-- What an accepted heartbeat leaves in its cluster: the reply says what the sender's entry says, and the
sender is the only master if there was none. -/
theorem heartbeat_leader (h : Inv c) {now : Int} {info : ServerInfo} {r : SNSCoordinator × Status × Path}
    (hid : info.clusterid = (i : Int) + 1) (hr : c.heartbeat now info = .ok r) (hok : r.2.1.code = .ok) :
    ∃ z, r.1.zNode? i info.serverid = some z ∧ r.2.2.master = z.master ∧ r.2.2.path = z.path ∧
      HasMaster r.1 i ∧ (¬ HasMaster c i → z.master = true) := by
  have ho := heartbeat_outcome h.service hr
  rcases heartbeat_entry ho with ⟨-, hno, -⟩ | ⟨j, z, hentry⟩
  · exact absurd hok hno
  · have hj : j = i := by
      have := hentry.accepts.clusterid
      omega
    subst hj
    have hz : r.1.zNode? j info.serverid = some z := by rw [hentry.zNode?, if_pos ⟨rfl, rfl⟩]
    refine ⟨z, hz, hentry.master.symm, hentry.path.symm, ?_⟩
    have hlock := h.lock j hentry.accepts.lt
    cases ho with
    | rejected hs => exact absurd hok hs
    | refreshed ha hm =>
        exact ⟨⟨_, z, hz, hentry.master⟩, fun _ => hentry.master⟩
    | @slave _ fs d ha hm hd hfs =>
        -- the lock belongs to another server, which stays master
        rw [hid] at hd
        obtain ⟨k, z₀, hz₀, hm₀⟩ := hlock.mp (by rw [hd]; rfl)
        refine ⟨⟨k, ?_⟩, fun hno => absurd ⟨k, z₀, hz₀, hm₀⟩ hno⟩
        rw [hentry.zNode?]
        split_ifs with hk
        · obtain ⟨-, rfl⟩ := hk
          exact ⟨z, rfl, hentry.stays z₀ hz₀ hm₀⟩
        · exact ⟨z₀, hz₀, hm₀⟩
    | elected ha hm hl hfs hsync =>
        exact ⟨⟨_, z, hz, hentry.master⟩, fun _ => hentry.master⟩

/-- A master stays until its second miss; a cluster without a master gets the sender of the next heartbeat which
is accepted; and an accepted heartbeat leaves exactly one master and is answered with the sender's entry. -/
theorem leader_stability (h : (SNSCoordinator.machine numClusters).Reachable c) (i : Nat) :
    (∀ e c' k z, (SNSCoordinator.machine numClusters).step c e c' → c.zNode? i k = some z → z.master = true →
      ¬ SecondMiss i k c e c' → ∃ z', c'.zNode? i k = some z' ∧ z'.master = true) ∧
    (¬ HasMaster c i → ∀ tr c₁ now info r, (SNSCoordinator.machine numClusters).Run c tr c₁ →
      (∀ x ∈ tr, ¬ AcceptedFor i x.1 x.2) → info.clusterid = (i : Int) + 1 → c₁.heartbeat now info = .ok r →
      r.2.1.code = .ok → ∃ z, r.1.zNode? i info.serverid = some z ∧ z.master = true) ∧
    (∀ now info r, info.clusterid = (i : Int) + 1 → c.heartbeat now info = .ok r → r.2.1.code = .ok →
      (∃! k, ∃ z, r.1.zNode? i k = some z ∧ z.master = true) ∧
      ∃ z, r.1.zNode? i info.serverid = some z ∧ r.2.2.master = z.master ∧ r.2.2.path = z.path) := by
  have hinv := Inv.of_reachable h
  refine ⟨?_, ?_, ?_⟩
  · intro e c' k z hs hz hm hmiss
    exact master_step hinv hs hz hm hmiss
  · intro hno tr c₁ now info r hrun hacc hid hr hok
    have hinv₁ : Inv c₁ := hrun.invariant hinv fun _ _ _ hP hs => hP.handle hs
    obtain ⟨z, hz, -, -, -, helected⟩ := heartbeat_leader hinv₁ hid hr hok
    exact ⟨z, hz, helected (hasMaster_run hrun hinv hacc hno)⟩
  · intro now info r hid hr hok
    obtain ⟨z, hz, hmaster, hpath, ⟨k, hk⟩, -⟩ := heartbeat_leader hinv hid hr hok
    refine ⟨⟨k, hk, ?_⟩, z, hz, hmaster, hpath⟩
    rintro k' ⟨z', hz', hm'⟩
    obtain ⟨z₀, hz₀, hm₀⟩ := hk
    exact (hinv.heartbeat (heartbeat_outcome hinv.service hr)).unique i k' k z' z₀ hz' hz₀ hm' hm₀

def clusterServer (serverid : Int) (registered : Bool) : ServerInfo :=
  { serverid, clusterid := 1, hostname := "h".toList, port := "1".toList, registered }

/-- A master expires while another server of its cluster is alive. -/
def expiry : List SNSCoordinator.Event :=
  [.heartbeat 0 (clusterServer 1 false), .heartbeat 8 (clusterServer 2 false), .check 11 0 1, .check 14 0 1]

/-- Then a server which has never registered takes over. -/
theorem leader_stability_newcomer : ∃ c r z, expiry.foldlM SNSCoordinator.handle (.init 1) = .ok c ∧
    c.heartbeat 15 (clusterServer 3 false) = .ok r ∧ r.1.zNode? 0 3 = some z ∧ z.master = true := by
  obtain ⟨c, hc, hno, r, hr, hok⟩ : ∃ c, expiry.foldlM SNSCoordinator.handle (.init 1) = .ok c ∧
      (c.clusters[0]?.bind SNSCoordinator.masterOf).isSome = false ∧
      ∃ r, c.heartbeat 15 (clusterServer 3 false) = .ok r ∧ r.2.1.code = .ok :=
    ⟨_, rfl, by decide +kernel, _, rfl, rfl⟩
  have hreach : (SNSCoordinator.machine 1).Reachable c := Machine.reachable_of_foldlM rfl hc
  have hnone : ¬ HasMaster c 0 := by
    rw [hasMaster_iff, hno]
    simp
  obtain ⟨z, hz, hm⟩ := (leader_stability hreach 0).2.1 hnone [] c 15 (clusterServer 3 false) r .nil (by simp)
    rfl hr hok
  exact ⟨c, r, z, hc, hr, hz, hm⟩

end DistributedSns.Coordinator
