import DistributedSns.Coordinator.Lemmas.Entries

/-!
# Servers whose lock has been released

The second missed heartbeat releases the lock of a server, and the third one makes it inactive.
-/

namespace DistributedSns.Coordinator

open Lib

variable {numClusters : Int} {c c₁ c₂ : SNSCoordinator} {e : SNSCoordinator.Event} {i : Nat} {k : Int}
  {tr : List (SNSCoordinator × SNSCoordinator.Event)}

/-! ## Events of one server -/

/-- A heartbeat of the server which is accepted. -/
def AcceptedFrom (i : Nat) (k : Int) (c : SNSCoordinator) (e : SNSCoordinator.Event) : Prop :=
  ∃ now info r, e = .heartbeat now info ∧ info.clusterid = (i : Int) + 1 ∧ info.serverid = k ∧
    c.heartbeat now info = .ok r ∧ r.2.1.code = .ok

/-- A check which counts a missed heartbeat of the server. -/
def Misses (i : Nat) (k : Int) (c : SNSCoordinator) (e : SNSCoordinator.Event) : Prop :=
  ∃ now z, e = .check now i k ∧ c.zNode? i k = some z ∧ now - z.lastHeartbeat > maxHeartbeatDelay

/-- A check which releases the lock of the server. -/
def Releases (i : Nat) (k : Int) (c : SNSCoordinator) (e : SNSCoordinator.Event) : Prop :=
  Misses i k c e ∧ ∃ z, c.zNode? i k = some z ∧ z.missedHeartbeats + 1 = 2

/-- The server counts as gone: it is no counterpart of any server, and a registration with its ids is accepted. -/
structure Gone (c : SNSCoordinator) (i : Nat) (k : Int) : Prop where
  inactive : ∃ z, c.zNode? i k = some z ∧ z.isActive = false
  counterparts : ∀ info l, info.clusterid = (i : Int) + 1 → c.getCounterparts info = .ok l → ∀ s ∈ l, s.serverid ≠ k
  registration : ∀ now info, info.clusterid = (i : Int) + 1 → info.serverid = k → info.registered = false →
    ∃ r, c.heartbeat now info = .ok r ∧ r.2.1.code = .ok

/-- The server counts as present: it is a counterpart of every other server of its cluster, and a registration with
its ids is rejected. -/
structure Present (c : SNSCoordinator) (i : Nat) (k : Int) : Prop where
  active : ∃ z, c.zNode? i k = some z ∧ z.isActive = true
  counterparts : ∀ info, info.clusterid = (i : Int) + 1 → info.serverid ≠ k →
    ∃ l, c.getCounterparts info = .ok l ∧ ∃ s ∈ l, s.serverid = k
  registration : ∀ now info, info.clusterid = (i : Int) + 1 → info.serverid = k → info.registered = false →
    ∃ r, c.heartbeat now info = .ok r ∧ r.2.1.code ≠ .ok

/-! ## The counter -/

theorem missed_checkServer {now : Int} {z : ZNode} (hz : c.zNode? i k = some z) (h : c.checkServer now i k = .ok c₁) :
    ∃ z₁, c₁.zNode? i k = some z₁ ∧ z₁.missedHeartbeats =
      z.missedHeartbeats + if now - z.lastHeartbeat > maxHeartbeatDelay then 1 else 0 := by
  have hi := SNSCoordinator.lt_length_of_zNode? hz
  simp only [SNSCoordinator.checkServer, hz, pure, Except.pure] at h
  split_ifs at h with hlate htwo
  · obtain ⟨⟨fs, code⟩, -, h⟩ := bind_eq_ok.mp h
    cases h
    refine ⟨_, by rw [SNSCoordinator.zNode?_withFilesys_setZNode hi, if_pos ⟨rfl, rfl⟩], ?_⟩
    simp [hlate]
  · cases h
    refine ⟨_, by rw [SNSCoordinator.zNode?_setZNode hi, if_pos ⟨rfl, rfl⟩], ?_⟩
    simp [hlate]
  · cases h
    exact ⟨z, hz, by simp [hlate]⟩

theorem not_misses_of_ne {z : ZNode} (hz : c.zNode? i k = some z)
    (h : ∀ now, e = .check now i k → ¬ now - z.lastHeartbeat > maxHeartbeatDelay) : ¬ Misses i k c e := by
  rintro ⟨now, z', he, hz', hlate⟩
  rw [hz, Option.some.injEq] at hz'
  exact h now he (hz' ▸ hlate)

/-- Until the server is heard of again, its counter goes up with each miss and stays as it is otherwise. -/
theorem missed_step (h : Inv c) (he : c.handle e = .ok c₁) (hquiet : ¬ AcceptedFrom i k c e) {z : ZNode}
    (hz : c.zNode? i k = some z) : ∃ z₁, c₁.zNode? i k = some z₁ ∧
      (Misses i k c e ∧ z₁.missedHeartbeats = z.missedHeartbeats + 1 ∨
        ¬ Misses i k c e ∧ z₁.missedHeartbeats = z.missedHeartbeats) := by
  by_cases hcheck : ∃ now, e = .check now i k
  · obtain ⟨now, rfl⟩ := hcheck
    obtain ⟨z₁, hz₁, hmissed⟩ := missed_checkServer hz he
    refine ⟨z₁, hz₁, ?_⟩
    split_ifs at hmissed with hlate
    · exact .inl ⟨⟨now, z, rfl, hz, hlate⟩, hmissed⟩
    · refine .inr ⟨not_misses_of_ne hz ?_, hmissed⟩
      rintro now' hnow
      cases hnow
      exact hlate
  · have hmiss : ¬ Misses i k c e := not_misses_of_ne hz fun now hnow => absurd ⟨now, hnow⟩ hcheck
    suffices hsame : c₁.zNode? i k = some z from ⟨z, hsame, .inr ⟨hmiss, rfl⟩⟩
    rcases handle_cases he with ⟨now, info, r, rfl, hr, rfl⟩ | ⟨now, j, k', rfl, hc⟩ | ⟨-, hcl⟩
    · rcases heartbeat_entry (heartbeat_outcome h.service hr) with ⟨hc, -, -⟩ | ⟨j, z', hentry⟩
      · rw [hc, hz]
      · rw [hentry.zNode?, if_neg, hz]
        rintro ⟨rfl, rfl⟩
        have hok : r.2.1.code = .ok := by
          rw [hentry.ok]
          rfl
        exact hquiet ⟨now, info, r, rfl, hentry.accepts.clusterid, rfl, hr, hok⟩
    · rcases check_entry (check_outcome hc) with rfl | ⟨z₀, z', -, -, -, hzNode⟩
      · exact hz
      · rw [hzNode, if_neg, hz]
        rintro ⟨rfl, rfl⟩
        exact hcheck ⟨now, rfl⟩
    · rw [SNSCoordinator.zNode?, hcl]
      exact hz

/-- From the release on the counter is two until a check misses the server again, and greater afterwards. -/
theorem missed_run (h : Inv c) (hrun : (SNSCoordinator.machine numClusters).Run c tr c₂)
    (hquiet : ∀ x ∈ tr, ¬ AcceptedFrom i k x.1 x.2) {z : ZNode} (hz : c.zNode? i k = some z)
    (htwo : z.missedHeartbeats = 2) : ∃ z₂, c₂.zNode? i k = some z₂ ∧ 2 ≤ z₂.missedHeartbeats ∧
      (3 ≤ z₂.missedHeartbeats ↔ ∃ x ∈ tr, Misses i k x.1 x.2) := by
  induction hrun with
  | nil => exact ⟨z, hz, by omega, by simp [htwo]⟩
  | @snoc tr c₁ e c₂ hrun hstep ih =>
      obtain ⟨z₁, hz₁, hge, hiff⟩ := ih fun x hx => hquiet x (List.mem_append_left _ hx)
      have hinv : Inv c₁ := hrun.invariant h fun _ _ _ hP hs => hP.handle hs
      have hlast : ¬ AcceptedFrom i k c₁ e := hquiet (c₁, e) (List.mem_append_right _ List.mem_cons_self)
      obtain ⟨z₂, hz₂, hcount⟩ := missed_step hinv hstep hlast hz₁
      refine ⟨z₂, hz₂, ?_, ?_⟩
      · rcases hcount with ⟨-, hcount⟩ | ⟨-, hcount⟩ <;> omega
      · simp only [List.mem_append, List.mem_singleton, or_and_right, exists_or, exists_eq_left, ← hiff]
        rcases hcount with ⟨hmiss, hcount⟩ | ⟨hmiss, hcount⟩
        · simp only [hmiss, or_true, iff_true]
          omega
        · simp only [hmiss, or_false, hcount]

/-! ## Present or gone -/

theorem clusterAt_eq {z : ZNode} (hz : c.zNode? i k = some z) :
    ∃ cluster, c.clusterAt i = .ok cluster ∧ ∀ k, cluster.find? k = c.zNode? i k := by
  obtain ⟨cluster, hc, -⟩ := Option.bind_eq_some_iff.mp hz
  refine ⟨cluster, ?_, fun k => ?_⟩
  · rw [SNSCoordinator.clusterAt, if_neg (by omega), Int.toNat_natCast, hc]
  · rw [SNSCoordinator.zNode?, hc, Option.bind_some]

/-- The reply to `GetCounterparts` has the active servers of the cluster but the sender. -/
theorem mem_getCounterparts (h : Inv c) {z : ZNode} (hz : c.zNode? i k = some z) {info : ServerInfo}
    (hid : info.clusterid = (i : Int) + 1) : ∃ l, c.getCounterparts info = .ok l ∧
      ((∃ s ∈ l, s.serverid = k) ↔ info.serverid ≠ k ∧ z.isActive = true) := by
  obtain ⟨cluster, hcluster, hfind⟩ := clusterAt_eq hz
  refine ⟨_, by rw [SNSCoordinator.getCounterparts, idToIndex_eq hid, ok_bind, hcluster]; rfl, ?_⟩
  simp only [List.mem_filterMap, Prod.exists, OrdMap.mem_entries_iff, hfind]
  constructor
  · rintro ⟨s, ⟨key, z', hz', hs⟩, hk⟩
    split_ifs at hs with hactive
    cases hs
    obtain rfl : key = k := (h.zNodes i key z' hz').serverId.symm.trans hk
    rw [hz, Option.some.injEq] at hz'
    exact hz' ▸ hactive
  · intro hactive
    exact ⟨_, ⟨k, z, hz, if_pos hactive⟩, (h.zNodes i k z hz).serverId⟩

/-- A registration with the ids of a server is accepted unless the server is active. -/
theorem registration_accepted_iff (h : Inv c) {z : ZNode} (hz : c.zNode? i k = some z) (now : Int) {info : ServerInfo}
    (hid : info.clusterid = (i : Int) + 1) (hk : info.serverid = k) (hnew : info.registered = false) :
    ∃ r, c.heartbeat now info = .ok r ∧ (r.2.1.code = .ok ↔ z.isActive = false) := by
  have hi := SNSCoordinator.lt_length_of_zNode? hz
  have hclash : SNSCoordinator.registrationClash (c.zNode? i info.serverid) info = z.isActive := by
    rw [hk, hz, SNSCoordinator.registrationClash, hnew]
    rfl
  cases hactive : z.isActive with
  | true =>
      exact ⟨_, heartbeat_of_clash hi hid (hclash.trans hactive) now, by simp [SNSCoordinator.registrationFailed]⟩
  | false =>
      obtain ⟨r, hr, hok, -⟩ := heartbeat_accepted h.service ⟨hi, hid, hclash.trans hactive⟩ now
      exact ⟨r, hr, by simp [hok, Status.OK]⟩

theorem gone_of_inactive (h : Inv c) {z : ZNode} (hz : c.zNode? i k = some z) (hactive : z.isActive = false) :
    Gone c i k where
  inactive := ⟨z, hz, hactive⟩
  counterparts info l hid hl s hs hk := by
    obtain ⟨l', hl', hmem⟩ := mem_getCounterparts h hz hid
    rw [hl, Except.ok.injEq] at hl'
    subst hl'
    have hboth := hmem.mp ⟨s, hs, hk⟩
    rw [hactive] at hboth
    cases hboth.2
  registration now info hid hk hnew := by
    obtain ⟨r, hr, hok⟩ := registration_accepted_iff h hz now hid hk hnew
    exact ⟨r, hr, hok.mpr hactive⟩

theorem present_of_active (h : Inv c) {z : ZNode} (hz : c.zNode? i k = some z) (hactive : z.isActive = true) :
    Present c i k where
  active := ⟨z, hz, hactive⟩
  counterparts info hid hk := by
    obtain ⟨l, hl, hmem⟩ := mem_getCounterparts h hz hid
    exact ⟨l, hl, hmem.mpr ⟨hk, hactive⟩⟩
  registration now info hid hk hnew := by
    obtain ⟨r, hr, hok⟩ := registration_accepted_iff h hz now hid hk hnew
    refine ⟨r, hr, fun hcode => ?_⟩
    rw [hok.mp hcode] at hactive
    cases hactive

/-- After the release of its lock and before it is heard of again, a server counts as gone exactly if a check has
missed it once more. Until then it counts as present. -/
theorem gone_iff_missed_again (h : (SNSCoordinator.machine numClusters).Reachable c)
    (hstep : (SNSCoordinator.machine numClusters).step c e c₁) (hrelease : Releases i k c e)
    (hrun : (SNSCoordinator.machine numClusters).Run c₁ tr c₂) (hquiet : ∀ x ∈ tr, ¬ AcceptedFrom i k x.1 x.2) :
    (Gone c₂ i k ↔ ∃ x ∈ tr, Misses i k x.1 x.2) ∧ ((¬ ∃ x ∈ tr, Misses i k x.1 x.2) → Present c₂ i k) := by
  have hinv := Inv.of_reachable h
  obtain ⟨⟨now, z, rfl, hz, hlate⟩, z', hz', hone⟩ := hrelease
  obtain rfl : z = z' := Option.some.inj (hz.symm.trans hz')
  obtain ⟨z₁, hz₁, hmissed⟩ := missed_checkServer hz hstep
  rw [if_pos hlate, hone] at hmissed
  have hinv₁ : Inv c₁ := hinv.handle hstep
  have hinv₂ : Inv c₂ := hrun.invariant hinv₁ fun _ _ _ hP hs => hP.handle hs
  obtain ⟨z₂, hz₂, htwo, hiff⟩ := missed_run hinv₁ hrun hquiet hz₁ hmissed
  rw [← hiff]
  have hactive : z₂.isActive = false ↔ 3 ≤ z₂.missedHeartbeats := by
    simp only [ZNode.isActive, decide_eq_false_iff_not]
    omega
  refine ⟨⟨?_, fun hthree => gone_of_inactive hinv₂ hz₂ (hactive.mpr hthree)⟩, fun hthree => ?_⟩
  · rintro ⟨⟨z, hz, hinactive⟩, -, -⟩
    rw [hz₂, Option.some.injEq] at hz
    subst hz
    exact hactive.mp hinactive
  · apply present_of_active hinv₂ hz₂
    rw [← Bool.not_eq_false]
    exact fun hinactive => hthree (hactive.mp hinactive)

/-! ## A server which goes silent -/

def silentServer : ServerInfo := { serverid := 1, clusterid := 1, hostname := ['h'], port := ['1'] }

/-- The second check releases the lock. -/
def firstMiss : List SNSCoordinator.Event := [.heartbeat 0 silentServer, .check 11 0 1]

theorem releases_secondMiss {c : SNSCoordinator} {z : ZNode} (hz : c.zNode? 0 1 = some z)
    (hlast : z.lastHeartbeat = 0) (hone : z.missedHeartbeats = 1) : Releases 0 1 c (.check 14 0 1) := by
  refine ⟨⟨14, z, rfl, hz, ?_⟩, z, hz, by rw [hone]⟩
  rw [hlast]
  decide

theorem gone_iff_missed_again_third : ∃ c, (SNSCoordinator.machine 1).Reachable c ∧ Gone c 0 1 := by
  obtain ⟨c, hc, ⟨z, hz, hlast, hone⟩, c₁, hc₁, c₂, hc₂, z₁, hz₁, hlast₁⟩ :
      ∃ c, firstMiss.foldlM SNSCoordinator.handle (.init 1) = .ok c ∧
        (∃ z, c.zNode? 0 1 = some z ∧ z.lastHeartbeat = 0 ∧ z.missedHeartbeats = 1) ∧
        ∃ c₁, c.handle (.check 14 0 1) = .ok c₁ ∧ ∃ c₂, c₁.handle (.check 17 0 1) = .ok c₂ ∧
          ∃ z₁, c₁.zNode? 0 1 = some z₁ ∧ z₁.lastHeartbeat = 0 :=
    ⟨_, rfl, ⟨_, rfl, rfl, rfl⟩, _, rfl, _, rfl, _, rfl, rfl⟩
  have hreach : (SNSCoordinator.machine 1).Reachable c := Machine.reachable_of_foldlM rfl hc
  have hrun : (SNSCoordinator.machine 1).Run c₁ [(c₁, .check 17 0 1)] c₂ := .snoc .nil hc₂
  refine ⟨c₂, (hreach.step hc₁).step hc₂, ?_⟩
  apply (gone_iff_missed_again hreach hc₁ (releases_secondMiss hz hlast hone) hrun ?_).1.mpr
  · refine ⟨_, List.mem_cons_self, 17, z₁, rfl, hz₁, ?_⟩
    rw [hlast₁]
    decide
  · rintro x hx ⟨now, info, r, he, -⟩
    rw [List.mem_singleton.mp hx] at he
    cases he

/-- Between the second and the third miss the server has no lock, but it is a counterpart of the other servers and
its ids are taken. -/
theorem present_without_lock : ∃ c c₁, (SNSCoordinator.machine 1).Reachable c ∧
    (SNSCoordinator.machine 1).step c (.check 14 0 1) c₁ ∧ Releases 0 1 c (.check 14 0 1) ∧
    c₁.filesys.fileExists (getMasterFilepath 1) = .ok false ∧ (∃ z, c₁.zNode? 0 1 = some z ∧ z.isActive = true) ∧
    (∃ l, c₁.getCounterparts { silentServer with serverid := 2 } = .ok l ∧ l.map (·.serverid) = [1]) ∧
    ∃ r, c₁.heartbeat 15 silentServer = .ok r ∧ r.2.1.code = .alreadyExists := by
  obtain ⟨c, hc, ⟨z, hz, hlast, hone⟩, c₁, hc₁, hrest⟩ :
      ∃ c, firstMiss.foldlM SNSCoordinator.handle (.init 1) = .ok c ∧
        (∃ z, c.zNode? 0 1 = some z ∧ z.lastHeartbeat = 0 ∧ z.missedHeartbeats = 1) ∧
        ∃ c₁, c.handle (.check 14 0 1) = .ok c₁ ∧ c₁.filesys.fileExists (getMasterFilepath 1) = .ok false ∧
          (∃ z, c₁.zNode? 0 1 = some z ∧ z.isActive = true) ∧
          (∃ l, c₁.getCounterparts { silentServer with serverid := 2 } = .ok l ∧ l.map (·.serverid) = [1]) ∧
          ∃ r, c₁.heartbeat 15 silentServer = .ok r ∧ r.2.1.code = .alreadyExists :=
    ⟨_, rfl, ⟨_, rfl, rfl, rfl⟩, _, rfl, by decide +kernel, ⟨_, rfl, rfl⟩, ⟨_, rfl, by decide +kernel⟩, _, rfl, rfl⟩
  exact ⟨c, c₁, Machine.reachable_of_foldlM rfl hc, hc₁, releases_secondMiss hz hlast hone, hrest⟩

end DistributedSns.Coordinator
