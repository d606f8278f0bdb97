import DistributedSns.Server.Lemmas.Handlers
import DistributedSns.System.Lemmas.Topology

/-!
# Where a request is handled

Calls as changes of the network: a call makes the processes at a list of addresses handle the request, each
of them once. A slave's list is its own address, a master's list are the members of its cluster.
-/

namespace DistributedSns.System

open Coordinator
open Server
open Server.SNSServer (Method)

section

variable (tz : TimeZone) (method : Method) (request : Request)

/-- What is left of a process which has handled the request. -/
def after (s : SNSServer) : Option SNSServer :=
  match s.handle tz method request with
  | .ok (s', _) => some s'
  | .error _ => none

/-- The network when the processes at the given addresses have handled the request. -/
def Network.handled (n : Network) (addrs : List Str) : Network :=
  { n with
    servers := fun addr =>
      if addr ∈ addrs then (n.servers addr).bind (after tz method request) else n.servers addr }

/-- The addresses at which a call to a master executes the handler. -/
def block (c : SNSCoordinator) (e : Nat × Int × ZNode) : List Str :=
  e.2.2.getAddress ::
    if method = .ADD_POST then [] else (counterparts c e.1 e.2.1).map fun e => e.2.getAddress

end

/-! ## Processes -/

section

variable {n : Network} {i : Nat} {k : Int} {z : ZNode} {s s' : SNSServer} {addr : Str}

theorem Agrees.sameProcess (h : Agrees i k z s) (hs : SameProcess s s') : Agrees i k z s' where
  clusterid := by rw [hs.serverInfo, h.clusterid]
  serverid := by rw [hs.serverInfo, h.serverid]
  master := by rw [hs.master, h.master]

theorem Topology.setServer (ht : Topology n) (hs : n.servers addr = some s) (hsame : SameProcess s s') :
    Topology (n.setServer addr s') := by
  constructor
  · intro j k' z' hz' ha'
    obtain ⟨s₁, hs₁, hag⟩ := ht.process j k' z' hz' ha'
    by_cases haddr : z'.getAddress = addr
    · rw [haddr, hs, Option.some.injEq] at hs₁
      subst hs₁
      refine ⟨s', ?_, hag.sameProcess hsame⟩
      rw [servers_setServer, if_pos haddr]
    · refine ⟨s₁, ?_, hag⟩
      rw [servers_setServer, if_neg haddr, hs₁]
  · exact ht.unique
  · exact ht.active

end

/-! ## Addresses -/

/-- The address of an active server of the cluster with index `i`. -/
def Member (c : SNSCoordinator) (i : Nat) (addr : Str) : Prop :=
  ∃ k z, c.zNode? i k = some z ∧ z.isActive = true ∧ z.getAddress = addr

section

variable {n : Network} {method : Method} {i j : Nat} {k : Int} {z : ZNode} {addr : Str}

theorem Member.cluster_inj (ht : Topology n) (hi : Member n.coordinator i addr)
    (hj : Member n.coordinator j addr) : i = j := by
  obtain ⟨k, z, hz, ha, rfl⟩ := hi
  obtain ⟨k', z', hz', ha', haddr⟩ := hj
  exact (ht.address_inj hz hz' ha ha' haddr.symm).1

theorem mem_counterparts_address :
    addr ∈ (counterparts n.coordinator i k).map (fun e => e.2.getAddress) ↔
      ∃ k' z', n.coordinator.zNode? i k' = some z' ∧ k ≠ k' ∧ z'.isActive = true ∧ z'.getAddress = addr := by
  rw [List.mem_map]
  constructor
  · rintro ⟨⟨k', z'⟩, he, rfl⟩
    obtain ⟨hz', hne, ha⟩ := mem_counterparts.mp he
    exact ⟨k', z', hz', hne, ha, rfl⟩
  · rintro ⟨k', z', hz', hne, ha, rfl⟩
    exact ⟨(k', z'), mem_counterparts.mpr ⟨hz', hne, ha⟩, rfl⟩

theorem nodup_counterparts_address (ht : Topology n) :
    ((counterparts n.coordinator i k).map fun e => e.2.getAddress).Nodup := by
  apply (List.Nodup.of_map _ nodup_counterparts).map_on
  rintro ⟨k', z'⟩ he ⟨k'', z''⟩ he' haddr
  obtain ⟨hz', -, ha'⟩ := mem_counterparts.mp he
  obtain ⟨hz'', -, ha''⟩ := mem_counterparts.mp he'
  obtain ⟨-, rfl⟩ := ht.address_inj hz' hz'' ha' ha'' haddr
  rw [hz', Option.some.injEq] at hz''
  rw [hz'']

theorem not_mem_counterparts_address (ht : Topology n) (hz : n.coordinator.zNode? i k = some z)
    (ha : z.isActive = true) :
    z.getAddress ∉ (counterparts n.coordinator i k).map fun e => e.2.getAddress := by
  rw [mem_counterparts_address]
  rintro ⟨k', z', hz', hne, ha', haddr⟩
  exact hne (ht.address_inj hz hz' ha ha' haddr.symm).2

theorem member_of_mem_block (hz : n.coordinator.zNode? i k = some z) (ha : z.isActive = true)
    (h : addr ∈ block method n.coordinator (i, k, z)) : Member n.coordinator i addr := by
  rcases List.mem_cons.mp h with rfl | h
  · exact ⟨k, z, hz, ha, rfl⟩
  · split_ifs at h
    · simp at h
    · obtain ⟨k', z', hz', -, ha', haddr⟩ := mem_counterparts_address.mp h
      exact ⟨k', z', hz', ha', haddr⟩

theorem nodup_block (ht : Topology n) (hz : n.coordinator.zNode? i k = some z) (ha : z.isActive = true) :
    (block method n.coordinator (i, k, z)).Nodup := by
  rw [block]
  split_ifs
  · exact List.nodup_singleton _
  · exact List.nodup_cons.mpr ⟨not_mem_counterparts_address ht hz ha, nodup_counterparts_address ht⟩

/-- An entry of the list of other masters is the active master of another cluster. -/
theorem Topology.otherMaster (ht : Topology n) (h : (j, k, z) ∈ otherMasters n.coordinator i) :
    j ≠ i ∧ n.coordinator.zNode? j k = some z ∧ z.isActive = true ∧ z.master = true := by
  obtain ⟨hne, hz, hm⟩ := mem_otherMasters h
  exact ⟨hne, hz, ht.active j k z hz hm, hm⟩

theorem pairwise_otherMasters (ht : Topology n) : (otherMasters n.coordinator i).Pairwise fun e e' =>
    List.Disjoint (block method n.coordinator e) (block method n.coordinator e') := by
  have hpair := List.pairwise_map.mp (nodup_otherMasters (c := n.coordinator) (i := i))
  apply hpair.imp_of_mem
  rintro ⟨j, k, z⟩ ⟨j', k', z'⟩ he he' hne addr hm hm'
  obtain ⟨-, hz, ha, -⟩ := ht.otherMaster he
  obtain ⟨-, hz', ha', -⟩ := ht.otherMaster he'
  exact hne ((member_of_mem_block hz ha hm).cluster_inj ht (member_of_mem_block hz' ha' hm'))

theorem nodup_otherBlocks (ht : Topology n) :
    ((otherMasters n.coordinator i).flatMap (block method n.coordinator)).Nodup := by
  rw [List.nodup_flatMap]
  constructor
  · rintro ⟨j, k, z⟩ he
    obtain ⟨-, hz, ha, -⟩ := ht.otherMaster he
    exact nodup_block ht hz ha
  · exact pairwise_otherMasters ht

theorem not_member_otherBlocks (ht : Topology n) (hm : Member n.coordinator i addr) :
    addr ∉ (otherMasters n.coordinator i).flatMap (block method n.coordinator) := by
  intro h
  obtain ⟨⟨j, k, z⟩, he, h⟩ := List.mem_flatMap.mp h
  obtain ⟨hne, hz, ha, -⟩ := ht.otherMaster he
  exact hne ((member_of_mem_block hz ha h).cluster_inj ht hm)

end

/-! ## The recipients of a client's request -/

/-- The addresses to which a master sends a client's request. -/
def clientRecipients (c : SNSCoordinator) (e : Nat × Int × ZNode) : List Str :=
  ((counterparts c e.1 e.2.1).map fun e => e.2.getAddress) ++
    (otherMasters c e.1).flatMap (block .ADD_POST c)

section

variable {n : Network} {i : Nat} {k : Int} {z : ZNode} {addr : Str}

theorem mem_clientRecipients (ht : Topology n) : addr ∈ clientRecipients n.coordinator (i, k, z) ↔
    ∃ j k' z', n.coordinator.zNode? j k' = some z' ∧ z'.isActive = true ∧ z'.getAddress = addr ∧
      ((j = i ∧ k ≠ k') ∨ (j ≠ i ∧ z'.master = true)) := by
  rw [clientRecipients, List.mem_append, mem_counterparts_address, List.mem_flatMap]
  constructor
  · rintro (⟨k', z', hz', hne, ha', haddr⟩ | ⟨⟨j, k', z'⟩, he, hmem⟩)
    · exact ⟨i, k', z', hz', ha', haddr, Or.inl ⟨rfl, hne⟩⟩
    · obtain ⟨hne, hz', ha', hm'⟩ := ht.otherMaster he
      rw [block, if_pos rfl, List.mem_singleton] at hmem
      exact ⟨j, k', z', hz', ha', hmem.symm, Or.inr ⟨hne, hm'⟩⟩
  · rintro ⟨j, k', z', hz', ha', haddr, ⟨rfl, hne⟩ | ⟨hne, hm'⟩⟩
    · exact Or.inl ⟨k', z', hz', hne, ha', haddr⟩
    · obtain ⟨k'', z'', he⟩ := exists_mem_otherMasters hne ⟨k', z', hz', hm'⟩
      obtain ⟨-, hz'', -, hm''⟩ := ht.otherMaster he
      obtain rfl := ht.unique j k' k'' z' z'' hz' hz'' hm' hm''
      rw [hz', Option.some.injEq] at hz''
      subst hz''
      refine Or.inr ⟨_, he, ?_⟩
      rw [block, if_pos rfl, List.mem_singleton, haddr]

/-- Which active servers get the request of a client of the master `(i, k, z)`. -/
theorem address_mem_clientRecipients (ht : Topology n) {j : Nat} {k' : Int} {z' : ZNode}
    (hz' : n.coordinator.zNode? j k' = some z') (ha' : z'.isActive = true) :
    z'.getAddress ∈ clientRecipients n.coordinator (i, k, z) ↔
      (j = i ∧ k ≠ k') ∨ (j ≠ i ∧ z'.master = true) := by
  rw [mem_clientRecipients ht]
  constructor
  · rintro ⟨j', k'', z'', hz'', ha'', haddr, h⟩
    obtain ⟨rfl, rfl⟩ := ht.address_inj hz'' hz' ha'' ha' haddr
    rw [hz', Option.some.injEq] at hz''
    rwa [hz'']
  · intro h
    exact ⟨j, k', z', hz', ha', rfl, h⟩

section

variable (ht : Topology n) (hz : n.coordinator.zNode? i k = some z) (hm : z.master = true)
include ht hz hm

theorem master_mem_clientRecipients {j : Nat} {k₁ : Int} {z₁ : ZNode} (hz₁ : n.coordinator.zNode? j k₁ = some z₁)
    (hm₁ : z₁.master = true) : z₁.getAddress ∈ clientRecipients n.coordinator (i, k, z) ↔ j ≠ i := by
  rw [address_mem_clientRecipients ht hz₁ (ht.active j k₁ z₁ hz₁ hm₁)]
  constructor
  · rintro (⟨rfl, hne⟩ | ⟨hne, -⟩)
    · exact absurd (ht.unique j k k₁ z z₁ hz hz₁ hm hm₁) hne
    · exact hne
  · exact fun hne => Or.inr ⟨hne, hm₁⟩

theorem slave_mem_clientRecipients {j : Nat} {k₁ k₂ : Int} {z₁ z₂ : ZNode}
    (hz₁ : n.coordinator.zNode? j k₁ = some z₁) (hm₁ : z₁.master = true)
    (hz₂ : n.coordinator.zNode? j k₂ = some z₂) (ha₂ : z₂.isActive = true) (hne : k₁ ≠ k₂) :
    z₂.getAddress ∈ clientRecipients n.coordinator (i, k, z) ↔ j = i := by
  rw [address_mem_clientRecipients ht hz₂ ha₂]
  constructor
  · rintro (⟨rfl, -⟩ | ⟨-, hm₂⟩)
    · rfl
    · exact absurd (ht.unique j k₁ k₂ z₁ z₂ hz₁ hz₂ hm₁ hm₂) hne
  · rintro rfl
    exact Or.inl ⟨rfl, fun hk => hne ((ht.unique j k k₁ z z₁ hz hz₁ hm hm₁).symm.trans hk)⟩

end

theorem nodup_clientRecipients (ht : Topology n) : (clientRecipients n.coordinator (i, k, z)).Nodup := by
  rw [clientRecipients, List.nodup_append']
  refine ⟨nodup_counterparts_address ht, nodup_otherBlocks ht, ?_⟩
  intro addr hmem
  obtain ⟨k', z', hz', -, ha', haddr⟩ := mem_counterparts_address.mp hmem
  exact not_member_otherBlocks ht ⟨k', z', hz', ha', haddr⟩

end

/-! ## Calls -/

section

variable {n : Network} {tz : TimeZone} {method : Method} {request : Request} {s s' : SNSServer} {reply : Reply}
  {addr : Str} {done : List Str}

theorem handle_from_server (s : SNSServer) (b : Bool) :
    s.handle tz method { request with from_server := b } = s.handle tz method request := by
  cases method <;> rfl

theorem handled_concat (hs : n.servers addr = some s) (hdone : addr ∉ done) :
    (n.handled tz method request done).setServer addr (after tz method request s) =
      n.handled tz method request (done ++ [addr]) := by
  rw [Network.setServer, Network.handled, Network.handled]
  congr 1
  funext a
  by_cases ha : a = addr
  · subst ha
    simp [hs]
  · simp [ha]

theorem handled_nil : n.handled tz method request [] = n := by
  simp [Network.handled]

theorem servers_handled (hs : n.servers addr = some s) (hdone : addr ∉ done) :
    (n.handled tz method request done).servers addr = some s := by
  simp [Network.handled, hdone, hs]

theorem after_eq_some (hh : s.handle tz method request = .ok (s', reply)) :
    after tz method request s = some s' := by
  rw [after, hh]

theorem call_error {e : Fault} (hs : n.servers addr = some s) (hh : s.handle tz method request = .error e)
    (fuel : Nat) : call tz method (fuel + 1) request n addr = .ok (n.setServer addr none, [addr]) := by
  simp only [call, hs, hh]

theorem call_post {request : Request} (hs : n.servers addr = some s)
    (hh : s.handle tz .ADD_POST request = .ok (s', reply)) (fuel : Nat) :
    call tz .ADD_POST (fuel + 1) request n addr = .ok (n.setServer addr s', [addr]) := by
  simp only [call, hs, hh, ↓reduceIte]

theorem call_complete (hs : n.servers addr = some s) (hh : s.handle tz method request = .ok (s', reply))
    (hpost : method ≠ .ADD_POST) (fuel : Nat) : call tz method (fuel + 1) request n addr = (do
      let r ← propogate (call tz method fuel) (n.setServer addr s') s' request
      return (r.1, addr :: r.2)) := by
  rw [call, hs]
  simp only [hh, hpost, ↓reduceIte]

theorem propogate_slave {rpc : Request → Rpc} (hm : s.master = false) : propogate rpc n s request = .ok (n, []) := by
  rw [propogate, hm]
  rfl

theorem propogate_from_server {rpc : Request → Rpc} (hm : s.master = true) :
    propogate rpc n s { request with from_server := true } =
      propogateHelper (rpc { request with from_server := true }) n s.serverInfo .COUNTERPARTS := by
  simp only [propogate, hm, ↓reduceIte, Bool.not_true, Bool.false_eq_true]
  cases propogateHelper (rpc { request with from_server := true }) n s.serverInfo .COUNTERPARTS <;> rfl

/-- A slave, and every receiver of a post, handles the request and does not forward it. -/
theorem call_leaf (hs : n.servers addr = some s) (hdone : addr ∉ done)
    (hleaf : method = .ADD_POST ∨ s.master = false) (fuel : Nat) (b : Bool) :
    call tz method (fuel + 1) { request with from_server := b } (n.handled tz method request done) addr =
      .ok (n.handled tz method request (done ++ [addr]), [addr]) := by
  have hs' : (n.handled tz method request done).servers addr = some s := servers_handled hs hdone
  rw [← handled_concat hs hdone]
  cases hh : s.handle tz method request with
  | error e => rw [call_error hs' ((handle_from_server s b).trans hh), after, hh]
  | ok r =>
      obtain ⟨s', reply⟩ := r
      rw [after_eq_some hh]
      by_cases hpost : method = .ADD_POST
      · subst hpost
        exact call_post hs' hh fuel
      · have hm : s'.master = false := (handle_sameProcess hh).master.trans (hleaf.resolve_left hpost)
        rw [call_complete hs' ((handle_from_server s b).trans hh) hpost, propogate_slave hm]
        rfl

/-- Calls to processes with disjoint lists of addresses. -/
theorem sendAll_blocks {γ : Type} (rpc : Rpc) (receiver : γ → Str) (blocks : γ → List Str) {l : List γ}
    (hrpc : ∀ x ∈ l, ∀ done : List Str, (blocks x).Disjoint done →
      rpc (n.handled tz method request done) (receiver x) =
        .ok (n.handled tz method request (done ++ blocks x), blocks x))
    (hpair : l.Pairwise fun x y => (blocks x).Disjoint (blocks y))
    (hdone : ∀ x ∈ l, (blocks x).Disjoint done) :
    sendAll rpc (n.handled tz method request done) (l.map receiver) =
      .ok (n.handled tz method request (done ++ l.flatMap blocks), l.flatMap blocks) := by
  induction l generalizing done with
  | nil => simp [sendAll]
  | cons x l ih =>
      obtain ⟨hx, hpair⟩ := List.pairwise_cons.mp hpair
      have hl : ∀ y ∈ l, (blocks y).Disjoint (done ++ blocks x) := by
        intro y hy
        rw [List.disjoint_append_right]
        exact ⟨hdone y (List.mem_cons_of_mem _ hy), (hx y hy).symm⟩
      have hrest := ih (fun y hy => hrpc y (List.mem_cons_of_mem _ hy)) hpair hl
      rw [List.map_cons, sendAll, hrpc x List.mem_cons_self done (hdone x List.mem_cons_self), ok_bind]
      simp only [hrest, ok_bind, List.flatMap_cons, List.append_assoc]
      rfl

end

/-! ## Propagation by a master -/

section

variable {n : Network} {tz : TimeZone} {method : Method} {request : Request} {s : SNSServer} {i : Nat}
  {k : Int} {z : ZNode} {done : List Str}

/-- The counterparts of a master are slaves. -/
theorem Topology.counterpart (ht : Topology n) (hz : n.coordinator.zNode? i k = some z) (hm : z.master = true)
    {e : Int × ZNode} (he : e ∈ counterparts n.coordinator i k) :
    ∃ s, n.servers e.2.getAddress = some s ∧ s.master = false := by
  obtain ⟨k', z'⟩ := e
  obtain ⟨hz', hne, ha'⟩ := mem_counterparts.mp he
  obtain ⟨s', hs', hag'⟩ := ht.process i k' z' hz' ha'
  refine ⟨s', hs', ?_⟩
  rw [hag'.master]
  by_contra hm'
  exact hne (ht.unique i k k' z z' hz hz' hm (by simpa using hm'))

theorem propogateHelper_counterparts (ht : Topology n) (hz : n.coordinator.zNode? i k = some z)
    (hm : z.master = true) (hag : Agrees i k z s)
    (hdone : ((counterparts n.coordinator i k).map fun e => e.2.getAddress).Disjoint done) (fuel : Nat) :
    propogateHelper (call tz method (fuel + 1) { request with from_server := true })
        (n.handled tz method request done) s.serverInfo .COUNTERPARTS =
      .ok (n.handled tz method request
          (done ++ (counterparts n.coordinator i k).map fun e => e.2.getAddress),
        (counterparts n.coordinator i k).map fun e => e.2.getAddress) := by
  have hlist := serverList_counterparts (SNSCoordinator.lt_length_of_zNode? hz) hag.clusterid
  rw [hag.serverid] at hlist
  refine bind_eq_ok.mpr ⟨_, hlist, ?_⟩
  rw [List.map_map]
  change sendAll _ _ ((counterparts n.coordinator i k).map fun e => e.2.getAddress) = _
  conv_rhs => rw [List.map_eq_flatMap]
  refine sendAll_blocks _ (fun e : Int × ZNode => e.2.getAddress) (fun e => [e.2.getAddress]) ?_ ?_ ?_
  · intro e he done' hdone'
    obtain ⟨s', hs', hm'⟩ := ht.counterpart hz hm he
    exact call_leaf hs' (List.singleton_disjoint.mp hdone') (Or.inr hm') fuel true
  · apply (List.pairwise_map.mp (nodup_counterparts_address ht)).imp
    intro e e' hne
    simpa using Ne.symm hne
  · intro e he
    exact List.singleton_disjoint.mpr (hdone (List.mem_map_of_mem he))

/-- A request from another server reaches the whole cluster of a master. -/
theorem call_master (ht : Topology n) (hz : n.coordinator.zNode? i k = some z) (hm : z.master = true)
    (hcomplete : method ≠ .ADD_POST → ∀ s, n.servers z.getAddress = some s →
      ∃ r, s.handle tz method request = .ok r)
    (hdone : (block method n.coordinator (i, k, z)).Disjoint done) (fuel : Nat) :
    call tz method (fuel + 2) { request with from_server := true } (n.handled tz method request done)
        z.getAddress =
      .ok (n.handled tz method request (done ++ block method n.coordinator (i, k, z)),
        block method n.coordinator (i, k, z)) := by
  have ha := ht.active i k z hz hm
  obtain ⟨s, hs, hag⟩ := ht.process i k z hz ha
  have hnot : z.getAddress ∉ done := fun h => hdone List.mem_cons_self h
  by_cases hpost : method = .ADD_POST
  · rw [block, if_pos hpost]
    exact call_leaf hs hnot (Or.inl hpost) (fuel + 1) true
  · rw [block, if_neg hpost] at hdone ⊢
    obtain ⟨⟨s', reply⟩, hh⟩ := hcomplete hpost s hs
    have hag' := hag.sameProcess (handle_sameProcess hh)
    have hdisj : ((counterparts n.coordinator i k).map fun e => e.2.getAddress).Disjoint
        (done ++ [z.getAddress]) := by
      rw [List.disjoint_append_right, List.disjoint_singleton]
      exact ⟨(List.disjoint_cons_left.mp hdone).2, not_mem_counterparts_address ht hz ha⟩
    rw [call_complete (servers_handled hs hnot) ((handle_from_server s true).trans hh) hpost,
      ← after_eq_some hh, handled_concat hs hnot, propogate_from_server (hag'.master.trans hm),
      propogateHelper_counterparts ht hz hm hag' hdisj fuel, ok_bind, List.append_assoc]
    rfl

/-- A master which has handled a client's request forwards it to its counterparts and to the other masters. -/
theorem propogate_client (ht : Topology n) (hz : n.coordinator.zNode? i k = some z) (hm : z.master = true)
    (hag : Agrees i k z s) (hclient : request.from_server = false)
    (hcomplete : method ≠ .ADD_POST → ∀ j k z, (j, k, z) ∈ otherMasters n.coordinator i →
      ∀ s, n.servers z.getAddress = some s → ∃ r, s.handle tz method request = .ok r)
    (hdone : ((counterparts n.coordinator i k).map fun e => e.2.getAddress).Disjoint done)
    (hdone' : ∀ a ∈ done, Member n.coordinator i a) (fuel : Nat) :
    propogate (call tz method (fuel + 2)) (n.handled tz method request done) s request =
      .ok (n.handled tz method request (done ++
          (((counterparts n.coordinator i k).map fun e => e.2.getAddress) ++
            (otherMasters n.coordinator i).flatMap (block method n.coordinator))),
        ((counterparts n.coordinator i k).map fun e => e.2.getAddress) ++
          (otherMasters n.coordinator i).flatMap (block method n.coordinator)) := by
  have hlist := serverList_otherMasters (c := n.coordinator) hag.clusterid
  have hothers : propogateHelper (call tz method (fuel + 2)  { request with from_server := true })
      (n.handled tz method request (done ++ (counterparts n.coordinator i k).map fun e => e.2.getAddress))
      s.serverInfo .OTHER_MASTERS =
        .ok (n.handled tz method request ((done ++
            (counterparts n.coordinator i k).map fun e => e.2.getAddress) ++
              (otherMasters n.coordinator i).flatMap (block method n.coordinator)),
          (otherMasters n.coordinator i).flatMap (block method n.coordinator)) := by
    refine bind_eq_ok.mpr ⟨_, hlist, ?_⟩
    rw [List.map_map]
    refine sendAll_blocks _ (fun e : Nat × Int × ZNode => e.2.2.getAddress) _ ?_ (pairwise_otherMasters ht) ?_
    · rintro ⟨j, k', z'⟩ he done' hdone'
      obtain ⟨-, hz', -, hm'⟩ := ht.otherMaster he
      exact call_master ht hz' hm' (fun hpost => hcomplete hpost j k' z' he) hdone' fuel
    · intro e he a ha' hmem
      have hnot (hmem : Member n.coordinator i a) :
          a ∉ (otherMasters n.coordinator i).flatMap (block method n.coordinator) :=
        not_member_otherBlocks ht hmem
      apply hnot _ (List.mem_flatMap.mpr ⟨e, he, ha'⟩)
      rcases List.mem_append.mp hmem with hmem | hmem
      · exact hdone' a hmem
      · obtain ⟨k', z', hz', -, hact, haddr⟩ := mem_counterparts_address.mp hmem
        exact ⟨k', z', hz', hact, haddr⟩
  have hcounter : propogateHelper (call tz method (fuel + 2) { request with from_server := true })
      (n.handled tz method request done) s.serverInfo .COUNTERPARTS = _ :=
    propogateHelper_counterparts ht hz hm hag hdone (fuel + 1)
  simp only [propogate, hag.master, hm, hclient, Bool.not_false, ↓reduceIte, hcounter, hothers, ok_bind,
    List.append_assoc]
  rfl

end

end DistributedSns.System
