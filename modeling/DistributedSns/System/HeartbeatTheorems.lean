import DistributedSns.System.Lemmas.Roles

/-!
# Two masters of one cluster

Nothing fences off a master which has lost the lock. Two processes of a cluster take themselves for its master
only while one of them has not heard of its expiry, or if one was registered in the place of the other.
-/

namespace DistributedSns.System.Heartbeats

open Lib (Machine)
open Server (SNSServer)

theorem two_masters_superseded {numClusters : Int} {c₀ c : State} {tr : List (State × Event)}
    (h₀ : (machine numClusters).init c₀) (hrun : (machine numClusters).Run c₀ tr c) {p q : Str}
    {s t : SNSServer} (hpq : p ≠ q) (hs : c.network.servers p = some s) (ht : c.network.servers q = some t)
    (hcluster : s.serverInfo.clusterid = t.serverInfo.clusterid) (hms : s.master = true)
    (hmt : t.master = true) :
    (s.serverInfo.serverid = t.serverInfo.serverid → Replaced tr p q s.serverInfo) ∧
    (s.serverInfo.serverid ≠ t.serverInfo.serverid → ∃ i : Nat, s.serverInfo.clusterid = i + 1 ∧
      ((¬ c.IsMaster i s.serverInfo.serverid ∧ Superseded tr p i s.serverInfo.serverid) ∨
        (¬ c.IsMaster i t.serverInfo.serverid ∧ Superseded tr q i t.serverInfo.serverid))) := by
  have h := roleInv_of_run h₀ hrun
  have hp := h.process p s hs
  have hq := h.process q t ht
  have henrolled {p : Str} {s : SNSServer} (hok : ProcessOk tr c p s) (hm : s.master = true) :
      Enrolled c p s := by
    left
    cases hreg : s.serverInfo.registered with
    | true => rfl
    | false =>
        rw [hok.unregistered hreg] at hm
        cases hm
  constructor
  · intro hserver
    exact h.replaced p q s t hpq hs ht (henrolled hp hms) (henrolled hq hmt) hcluster hserver
  · intro hserver
    obtain ⟨i, hi, hflag⟩ := hp.flag hms
    obtain ⟨j, hj, hflag'⟩ := hq.flag hmt
    have hij : j = i := by omega
    subst hij
    refine ⟨j, hi, ?_⟩
    by_cases hmp : c.IsMaster j s.serverInfo.serverid
    · right
      have hmq : ¬ c.IsMaster j t.serverInfo.serverid := by
        rintro ⟨z', hz', hm'⟩
        obtain ⟨z, hz, hm⟩ := hmp
        exact hserver (h.inv.unique j _ _ z z' hz hz' hm hm')
      exact ⟨hmq, hflag'.resolve_left hmq⟩
    · exact Or.inl ⟨hmp, hflag.resolve_left hmp⟩

/-- The master's heartbeats are late, another server of its cluster is elected and hears of it first. -/
def lateMaster : List Event :=
  [.start ['a'] ['h'] ['1'] 1 1, .handle 0 ['a'], .receive ['a'],
    .start ['b'] ['h'] ['2'] 1 2, .handle 8 ['b'], .receive ['b'],
    .check 11 0 1, .check 14 0 1, .sendHeartbeat ['b'], .handle 15 ['b'], .receive ['b']]

theorem lateMaster_masters : ∃ c, lateMaster.foldlM State.step (.init 1) = .ok c ∧
    ∃ s, c.network.servers ['a'] = some s ∧ ∃ t, c.network.servers ['b'] = some t ∧
      s.serverInfo.clusterid = t.serverInfo.clusterid ∧ s.serverInfo.serverid ≠ t.serverInfo.serverid ∧
      s.master = true ∧ t.master = true :=
  ⟨_, rfl, _, rfl, _, rfl, rfl, by decide, rfl, rfl⟩

theorem two_masters_superseded_lateMaster : ∃ c tr, (machine 1).Run (.init 1) tr c ∧ ∃ s t,
    c.network.servers ['a'] = some s ∧ c.network.servers ['b'] = some t ∧ s.master = true ∧ t.master = true ∧
      ∃ i : Nat, s.serverInfo.clusterid = i + 1 ∧
        ((¬ c.IsMaster i s.serverInfo.serverid ∧ Superseded tr ['a'] i s.serverInfo.serverid) ∨
          (¬ c.IsMaster i t.serverInfo.serverid ∧ Superseded tr ['b'] i t.serverInfo.serverid)) := by
  obtain ⟨c, hc, s, hs, t, ht, hcluster, hserver, hms, hmt⟩ := lateMaster_masters
  have hrun : (machine 1).Run (.init 1) _ c := Machine.run_of_foldlM hc
  have hinit : (machine 1).init (.init 1) := rfl
  have h := two_masters_superseded hinit hrun (by decide) hs ht hcluster hms hmt
  exact ⟨c, _, hrun, s, t, hs, ht, hms, hmt, h.2 hserver⟩

/-- Two live processes of one cluster with two ids both take themselves for its master. -/
theorem two_masters_reachable : ∃ c, (machine 1).Reachable c ∧ ∃ p q s t, p ≠ q ∧
    c.network.servers p = some s ∧ c.network.servers q = some t ∧
      s.serverInfo.clusterid = t.serverInfo.clusterid ∧ s.serverInfo.serverid ≠ t.serverInfo.serverid ∧
      s.master = true ∧ t.master = true := by
  obtain ⟨c, hc, s, hs, t, ht, h⟩ := lateMaster_masters
  exact ⟨c, Machine.reachable_of_foldlM rfl hc, ['a'], ['b'], s, t, by decide, hs, ht, h⟩

end DistributedSns.System.Heartbeats
