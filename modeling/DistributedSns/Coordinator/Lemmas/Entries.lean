import DistributedSns.Coordinator.Lemmas.Invariant

/-!
# The entries after a heartbeat or a check

A heartbeat or a check changes at most one entry of the coordinator. What the reply to a heartbeat says is what
the sender's entry says afterwards.
-/

namespace DistributedSns.Coordinator

open Lib FSWrapper

/-- The address in a message. -/
def ServerInfo.getAddress (info : ServerInfo) : Str := info.hostname ++ ":".toList ++ info.port

/-- The entry of the sender after a heartbeat which has been accepted. -/
structure Entry (c : SNSCoordinator) (info : ServerInfo) (r : SNSCoordinator × Status × Path) (i : Nat)
    (z : ZNode) : Prop where
  accepts : Accepts c info i
  ok : r.2.1 = .OK
  master : z.master = r.2.2.master
  path : z.path = r.2.2.path
  stays : ∀ z₀, c.zNode? i info.serverid = some z₀ → z₀.master = true → z.master = true
  address : z.getAddress = info.getAddress
  zNode? : ∀ j k, r.1.zNode? j k = if j = i ∧ k = info.serverid then some z else c.zNode? j k

theorem heartbeat_entry {c : SNSCoordinator} {now : Int} {info : ServerInfo}
    {r : SNSCoordinator × Status × Path} (h : HeartbeatOutcome c now info r) :
    (r.1 = c ∧ r.2.1.code ≠ .ok ∧ r.2.2.master = false) ∨ ∃ i z, Entry c info r i z := by
  have hbeat {i : Nat} {z₀ : ZNode} (hz₀ : c.zNode? i info.serverid = some z₀) :
      (beat c now info i).master = z₀.master := by
    rw [beat, hz₀]
    rfl
  cases h with
  | rejected hs => exact Or.inl ⟨rfl, hs, rfl⟩
  | @refreshed i ha hm =>
      refine Or.inr ⟨i, beat c now info i, ha, rfl, hm, rfl, ?_, rfl, ?_⟩
      · intro z₀ _ _
        exact hm
      · exact c.zNode?_setZNode ha.lt _ _
  | @slave i fs d ha hm hlock hfs =>
      refine Or.inr ⟨i, { beat c now info i with path := getSlaveFilepath info.clusterid info.serverid },
        ha, rfl, hm, rfl, ?_, rfl, ?_⟩
      · intro z₀ hz₀ hm₀
        rw [hbeat hz₀, hm₀] at hm
        cases hm
      · exact c.zNode?_withFilesys_setZNode ha.lt fs _ _
  | @elected i fs sync ha hm hlock hfs hsync =>
      refine Or.inr ⟨i, { beat c now info i with path := getMasterFilepath info.clusterid, master := true },
        ha, rfl, rfl, rfl, ?_, rfl, ?_⟩
      · intro z₀ _ _
        rfl
      · exact c.zNode?_withFilesys_setZNode ha.lt fs _ _

/-- A check changes at most one entry, whose flag it clears at the second missed heartbeat. -/
theorem check_entry {c c' : SNSCoordinator} {now : Int} {i : Nat} {k : Int} (h : CheckOutcome c now i k c') :
    c' = c ∨ ∃ z z', c.zNode? i k = some z ∧ z'.getAddress = z.getAddress ∧
      (z'.master = z.master ∨ (z'.master = false ∧ z'.missedHeartbeats = 2 ∧
        now - z.lastHeartbeat > maxHeartbeatDelay ∧ z.missedHeartbeats = 1)) ∧
      ∀ j k', c'.zNode? j k' = if j = i ∧ k' = k then some z' else c.zNode? j k' := by
  cases h with
  | kept => exact Or.inl rfl
  | @missed z hz hlate hne =>
      refine Or.inr ⟨z, { z with missedHeartbeats := z.missedHeartbeats + 1 }, hz, rfl, Or.inl rfl, ?_⟩
      exact SNSCoordinator.zNode?_setZNode (SNSCoordinator.lt_length_of_zNode? hz) k _
  | @expired z fs code hz hlate hone hremove =>
      refine Or.inr ⟨z, { z with missedHeartbeats := 2, master := false }, hz, rfl,
        Or.inr ⟨rfl, rfl, hlate, hone⟩, ?_⟩
      exact SNSCoordinator.zNode?_withFilesys_setZNode (SNSCoordinator.lt_length_of_zNode? hz) fs k _

end DistributedSns.Coordinator
