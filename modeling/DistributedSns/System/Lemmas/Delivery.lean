import DistributedSns.System.Delivery

/-!
# The invariant of the delivery

At every server the requests which have been handled and those which are still to come are the accepted
ones. A slave gets a request from its master, so what is on its way to the master is also on its way to the
slave.
-/

namespace DistributedSns.System

open Lib (update)
open Coordinator
open Server
open Server.SNSServer (Method)

/-! ## Recipients -/

section

variable {n : Network} {s : SNSServer} {request : Request} {i : Nat} {k : Int} {z : ZNode} {addr : Str}

theorem recipients_slave {c : SNSCoordinator} (hm : s.master = false) : recipients c s request = .ok [] := by
  rw [recipients, hm]
  rfl

theorem recipients_client (hz : n.coordinator.zNode? i k = some z) (hm : z.master = true)
    (hag : Agrees i k z s) (hclient : request.from_server = false) :
    recipients n.coordinator s request = .ok (clientRecipients n.coordinator (i, k, z)) := by
  have hcounter := serverList_counterparts (SNSCoordinator.lt_length_of_zNode? hz) hag.clusterid
  have hothers := serverList_otherMasters (c := n.coordinator) hag.clusterid
  have hblocks : (otherMasters n.coordinator i).flatMap (block .ADD_POST n.coordinator) =
      (otherMasters n.coordinator i).map fun e => e.2.2.getAddress := by
    rw [List.map_eq_flatMap]
    rfl
  rw [hag.serverid] at hcounter
  simp only [recipients, hag.master, hm, hclient, Bool.not_false, ↓reduceIte, hcounter, hothers, ok_bind,
    clientRecipients, hblocks, List.map_append, List.map_map]
  rfl

theorem recipients_forwarded (hz : n.coordinator.zNode? i k = some z) (hm : z.master = true)
    (hag : Agrees i k z s) (hserver : request.from_server = true) :
    recipients n.coordinator s request =
      .ok ((counterparts n.coordinator i k).map fun e => e.2.getAddress) := by
  have hcounter := serverList_counterparts (SNSCoordinator.lt_length_of_zNode? hz) hag.clusterid
  rw [hag.serverid] at hcounter
  simp only [recipients, hag.master, hm, hserver, Bool.not_true, Bool.false_eq_true, ↓reduceIte, hcounter,
    ok_bind, List.map_map]
  rfl

/-- Which active servers get what the master `(i, k, z)` has got from another master. -/
theorem address_mem_counterparts (ht : Topology n) {j : Nat} {k' : Int} {z' : ZNode}
    (hz' : n.coordinator.zNode? j k' = some z') (ha' : z'.isActive = true) :
    z'.getAddress ∈ (counterparts n.coordinator i k).map (fun e => e.2.getAddress) ↔ j = i ∧ k ≠ k' := by
  rw [mem_counterparts_address]
  constructor
  · rintro ⟨k'', z'', hz'', hne, ha'', haddr⟩
    obtain ⟨rfl, rfl⟩ := ht.address_inj hz'' hz' ha'' ha' haddr
    exact ⟨rfl, hne⟩
  · rintro ⟨rfl, hne⟩
    exact ⟨k', z', hz', hne, ha', rfl⟩

section

variable (ht : Topology n) (hz : n.coordinator.zNode? i k = some z) {j : Nat} {k₁ : Int} {z₁ : ZNode}
  (hz₁ : n.coordinator.zNode? j k₁ = some z₁) (hm₁ : z₁.master = true)
include ht hz hz₁ hm₁

/-- No master forwards to a master. -/
theorem master_not_mem_counterparts : ¬ (z.master = true ∧
    z₁.getAddress ∈ (counterparts n.coordinator i k).map fun e => e.2.getAddress) := by
  rw [address_mem_counterparts ht hz₁ (ht.active j k₁ z₁ hz₁ hm₁)]
  rintro ⟨hm, rfl, hne⟩
  exact hne (ht.unique j k k₁ z z₁ hz hz₁ hm hm₁)

/-- It is the master of its cluster who forwards to a slave. -/
theorem slave_mem_counterparts (ha : z.isActive = true) {k₂ : Int} {z₂ : ZNode}
    (hz₂ : n.coordinator.zNode? j k₂ = some z₂) (ha₂ : z₂.isActive = true) (hne : k₁ ≠ k₂) :
    (z.master = true ∧ z₂.getAddress ∈ (counterparts n.coordinator i k).map fun e => e.2.getAddress) ↔
      z.getAddress = z₁.getAddress := by
  rw [address_mem_counterparts ht hz₂ ha₂]
  constructor
  · rintro ⟨hm, rfl, -⟩
    obtain rfl := ht.unique j k k₁ z z₁ hz hz₁ hm hm₁
    rw [hz, Option.some.injEq] at hz₁
    rw [hz₁]
  · intro he
    obtain ⟨rfl, rfl⟩ := ht.address_inj hz hz₁ ha (ht.active _ _ _ hz₁ hm₁) he
    rw [hz, Option.some.injEq] at hz₁
    exact ⟨hz₁ ▸ hm₁, rfl, hne⟩

end

end

/-! ## Packets -/

/-- The requests on their way to an address. -/
def toward (addr : Str) (l : List Packet) : List (Method × Request) :=
  l.filterMap fun p => if p.addr = addr then some (p.method, p.request) else none

section

variable {addr : Str} {l l' : List Packet}

theorem toward_append : toward addr (l ++ l') = toward addr l ++ toward addr l' := List.filterMap_append

theorem toward_send {addrs : List Str} (h : addrs.Nodup) (method : Method) (request : Request) :
    toward addr (addrs.map fun a => ⟨a, method, request⟩) = if addr ∈ addrs then [(method, request)] else [] := by
  induction addrs with
  | nil => rfl
  | cons a addrs ih =>
      obtain ⟨ha, hnodup⟩ := List.nodup_cons.mp h
      have hrest := ih hnodup
      rw [toward] at hrest ⊢
      rw [List.map_cons, List.filterMap_cons]
      by_cases he : a = addr
      · subst he
        rw [hrest, if_neg ha]
        simp
      · have he' : addr ≠ a := Ne.symm he
        simp only [he, ↓reduceIte, hrest, List.mem_cons, he', false_or]

theorem toward_take {i : Nat} {p : Packet} (h : l[i]? = some p) :
    (toward addr l).Perm
      ((if p.addr = addr then [(p.method, p.request)] else []) ++ toward addr (l.eraseIdx i)) := by
  obtain ⟨hi, rfl⟩ := List.getElem?_eq_some_iff.mp h
  have hperm : (toward addr l).Perm (toward addr (l[i] :: l.eraseIdx i)) :=
    (List.getElem_cons_eraseIdx_perm hi).symm.filterMap _
  refine hperm.trans ?_
  rw [toward, List.filterMap_cons]
  split_ifs <;> exact .refl _

end

/-! ## Histories -/

section

variable {c : Config} {tr : List (Config × Event)} {p : Packet} {addr : Str}

theorem handledAt_concat {e : Event} (h : handled c e = some p) : handledAt addr (tr ++ [(c, e)]) =
    handledAt addr tr ++ if p.addr = addr then [(p.method, forwarded p.request)] else [] := by
  rw [handledAt, List.filterMap_append, handledAt]
  congr 1
  simp only [List.filterMap_cons, h, Option.bind_some]
  split_ifs <;> rfl

theorem accepted_accept : accepted (tr ++ [(c, .accept p)]) = accepted tr ++ [(p.method, forwarded p.request)] := by
  rw [accepted, List.filterMap_append]
  rfl

theorem accepted_deliver {i : Nat} : accepted (tr ++ [(c, .deliver i)]) = accepted tr := by
  rw [accepted, List.filterMap_append]
  exact List.append_nil _

theorem forwarded_eq {request : Request} (h : request.from_server = true) : forwarded request = request := by
  rw [forwarded, ← h]

end

/-! ## The invariant -/

structure DeliveryInv (g : Graph) (tr : List (Config × Event)) (c : Config) : Prop where
  topology : Topology c.network
  target : ∀ (addr : Str) (s : SNSServer), c.network.servers addr = some s → Target c.network.coordinator addr
  wellFormed : ∀ (addr : Str) (s : SNSServer), c.network.servers addr = some s → WellFormed s
  graph : ∀ (addr : Str) (s : SNSServer), c.network.servers addr = some s →
    s.graph = (handledAt addr tr).foldl (update write) g
  packet : ∀ p ∈ c.inFlight, p.request.from_server = true ∧ Target c.network.coordinator p.addr
  master : ∀ (j : Nat) (k : Int) (z : ZNode), c.network.coordinator.zNode? j k = some z → z.master = true →
    (handledAt z.getAddress tr ++ toward z.getAddress c.inFlight).Perm (accepted tr)
  slave : ∀ (j : Nat) (k k' : Int) (z z' : ZNode), c.network.coordinator.zNode? j k = some z →
    z.master = true → c.network.coordinator.zNode? j k' = some z' → z'.isActive = true → k ≠ k' →
    (handledAt z'.getAddress tr ++ (toward z'.getAddress c.inFlight ++ toward z.getAddress c.inFlight)).Perm
      (accepted tr)

/-- What a step does whose handler returns. -/
structure Moved (tz : TimeZone) (c : Config) (e : Event) (c' : Config) (p : Packet) (s s' : SNSServer)
    (addrs : List Str) : Prop where
  handled : handled c e = some p
  server : c.network.servers p.addr = some s
  handle : ∃ reply, s.handle tz p.method p.request = .ok (s', reply)
  recipients : recipients c.network.coordinator s' p.request = .ok addrs
  network : c'.network = c.network.setServer p.addr s'
  inFlight : c'.inFlight = (c.taken e).inFlight ++ addrs.map fun addr => ⟨addr, p.method, forwarded p.request⟩

section

variable {tz : TimeZone} {g : Graph} {tr : List (Config × Event)} {c c' : Config} {e : Event} {p q : Packet}
  {s s' : SNSServer} {addrs : List Str}

theorem Target.running (ht : Topology c.network) {addr : Str} (h : Target c.network.coordinator addr) :
    ∃ s, c.network.servers addr = some s := by
  obtain ⟨j, k, z, hz, ha, -, rfl⟩ := h
  obtain ⟨s, hs, -⟩ := ht.process j k z hz ha
  exact ⟨s, hs⟩

theorem handled_accept (h : handled c (.accept p) = some q) : q = p ∧ Accepts c p := by
  rw [handled] at h
  split_ifs at h with hacc
  cases h
  exact ⟨rfl, hacc⟩

theorem answerable_forwarded {method : Method} {request : Request} :
    Answerable tz g (method, forwarded request) ↔ Answerable tz g (method, request) := by
  have hnames : namesUsers g (method, forwarded request) = namesUsers g (method, request) := by cases method <;> rfl
  have hadds : addsEdge g (method, forwarded request) = addsEdge g (method, request) := by cases method <;> rfl
  constructor
  · intro h
    exact ⟨hnames ▸ h.names, fun hedge => h.follow (hadds.trans hedge), h.post⟩
  · intro h
    exact ⟨hnames ▸ h.names, fun hedge => h.follow (hadds.symm.trans hedge), h.post⟩

/-- A server can answer the request which comes next. -/
theorem DeliveryInv.answerable (h : DeliveryInv g tr c) (hp : handled c e = some p)
    (hs : c.network.servers p.addr = some s) (ha : AnswerableInTurn tz g (handledAt p.addr (tr ++ [(c, e)]))) :
    ∃ s' reply, s.handle tz p.method p.request = .ok (s', reply) := by
  rw [handledAt_concat hp, if_pos rfl, answerableInTurn_concat, ← h.graph _ s hs, answerable_forwarded] at ha
  exact (h.wellFormed _ s hs).handle_iff.mpr ha.2

theorem moved_of_step (h : DeliveryInv g tr c) (hstep : (deliveryMachine tz).step c e c')
    (ha : ∀ p s, handled c e = some p → c.network.servers p.addr = some s →
      AnswerableInTurn tz g (handledAt p.addr (tr ++ [(c, e)]))) : ∃ p s s' addrs, Moved tz c e c' p s s' addrs := by
  have hnetwork : (c.taken e).network = c.network := by cases e <;> rfl
  replace hstep : c.step tz e = .ok c' := hstep
  rw [Config.step] at hstep
  cases hp : handled c e with
  | none => simp [hp] at hstep
  | some p =>
      have hserver : ∃ s, c.network.servers p.addr = some s := by
        cases e with
        | accept q =>
            obtain ⟨rfl, hacc⟩ := handled_accept hp
            obtain ⟨s, hs, -⟩ := hacc.master
            exact ⟨s, hs⟩
        | deliver i => exact (h.packet p (List.mem_of_getElem? hp)).2.running h.topology
      obtain ⟨s, hs⟩ := hserver
      obtain ⟨s', reply, hh⟩ := h.answerable hp hs (ha p s hp hs)
      simp only [hp, Config.handle, hnetwork, hs, hh] at hstep
      obtain ⟨addrs, haddrs, hc⟩ := bind_eq_ok.mp hstep
      cases hc
      exact ⟨p, s, s', addrs, hp, hs, ⟨reply, hh⟩, haddrs, rfl, rfl⟩

theorem Moved.sameProcess (hm : Moved tz c e c' p s s' addrs) : SameProcess s s' := by
  obtain ⟨reply, hh⟩ := hm.handle
  exact handle_sameProcess hh

theorem Moved.coordinator (hm : Moved tz c e c' p s s' addrs) :
    c'.network.coordinator = c.network.coordinator := by
  rw [hm.network]
  rfl

theorem Moved.topology (hm : Moved tz c e c' p s s' addrs) (h : DeliveryInv g tr c) : Topology c'.network := by
  rw [hm.network]
  exact h.topology.setServer hm.server hm.sameProcess

theorem Moved.server_cases (hm : Moved tz c e c' p s s' addrs) {addr : Str} {r : SNSServer}
    (hr : c'.network.servers addr = some r) :
    (addr = p.addr ∧ r = s') ∨ (addr ≠ p.addr ∧ c.network.servers addr = some r) := by
  rw [hm.network, servers_setServer] at hr
  split_ifs at hr with haddr
  · cases hr
    exact Or.inl ⟨haddr, rfl⟩
  · exact Or.inr ⟨haddr, hr⟩

theorem Moved.graph (hm : Moved tz c e c' p s s' addrs) (h : DeliveryInv g tr c) {addr : Str} {r : SNSServer}
    (hr : c'.network.servers addr = some r) :
    r.graph = (handledAt addr (tr ++ [(c, e)])).foldl (update write) g := by
  rw [handledAt_concat hm.handled]
  rcases hm.server_cases hr with ⟨rfl, rfl⟩ | ⟨hne, hr⟩
  · obtain ⟨reply, hh⟩ := hm.handle
    rw [if_pos rfl, List.foldl_append, ← h.graph _ s hm.server, graph_handle (h.wellFormed _ s hm.server) hh]
    rw [List.foldl_cons, List.foldl_nil]
    funext f
    simp only [Lib.update, Lib.writeTo, forwarded, write_from_server]
  · rw [if_neg (Ne.symm hne), List.append_nil]
    exact h.graph _ r hr

theorem Moved.target (hm : Moved tz c e c' p s s' addrs) (h : DeliveryInv g tr c) (addr : Str) (r : SNSServer)
    (hr : c'.network.servers addr = some r) : Target c'.network.coordinator addr := by
  rw [hm.coordinator]
  rcases hm.server_cases hr with ⟨rfl, -⟩ | ⟨-, hr⟩
  · exact h.target _ s hm.server
  · exact h.target _ r hr

theorem Moved.wellFormed (hm : Moved tz c e c' p s s' addrs) (h : DeliveryInv g tr c) (addr : Str)
    (r : SNSServer) (hr : c'.network.servers addr = some r) : WellFormed r := by
  rcases hm.server_cases hr with ⟨-, rfl⟩ | ⟨-, hr⟩
  · obtain ⟨reply, hh⟩ := hm.handle
    exact (handle_outcome (h.wellFormed _ s hm.server) hh).wellFormed (h.wellFormed _ s hm.server)
  · exact h.wellFormed _ r hr

/-- The entry of the coordinator for the process which handles a packet. -/
theorem Moved.entry (hm : Moved tz c e c' p s s' addrs) (h : DeliveryInv g tr c) :
    ∃ i k z, c.network.coordinator.zNode? i k = some z ∧ z.isActive = true ∧ z.getAddress = p.addr ∧
      HasMaster c.network.coordinator i ∧ Agrees i k z s := by
  obtain ⟨i, k, z, hz, ha, hi, haddr⟩ := h.target _ s hm.server
  obtain ⟨s₁, hs₁, hag⟩ := h.topology.process i k z hz ha
  rw [haddr, hm.server, Option.some.injEq] at hs₁
  exact ⟨i, k, z, hz, ha, haddr, hi, hs₁ ▸ hag⟩

theorem DeliveryInv.accept (h : DeliveryInv g tr c) (hm : Moved tz c (.accept q) c' p s s' addrs) :
    DeliveryInv g (tr ++ [(c, .accept q)]) c' := by
  obtain ⟨rfl, hacc⟩ := handled_accept hm.handled
  have ht := h.topology
  obtain ⟨i, k, z, hz, ha, haddr, hi, hag⟩ := hm.entry h
  have hzm : z.master = true := by
    obtain ⟨s₁, hs₁, hs₁m⟩ := hacc.master
    rw [hm.server, Option.some.injEq] at hs₁
    rw [← hag.master, hs₁, hs₁m]
  have haddrs : addrs = clientRecipients c.network.coordinator (i, k, z) := by
    have := hm.recipients
    rw [recipients_client hz hzm (hag.sameProcess hm.sameProcess) hacc.client, Except.ok.injEq] at this
    exact this.symm
  have htoward (a : Str) : toward a c'.inFlight = toward a c.inFlight ++
      if a ∈ clientRecipients c.network.coordinator (i, k, z) then [(p.method, forwarded p.request)] else [] := by
    rw [hm.inFlight, toward_append, haddrs, toward_send (nodup_clientRecipients ht)]
    rfl
  constructor
  · exact hm.topology h
  · exact hm.target h
  · exact hm.wellFormed h
  · intro addr r hr
    exact hm.graph h hr
  · intro q hq
    rw [hm.coordinator]
    rw [hm.inFlight, List.mem_append] at hq
    rcases hq with hq | hq
    · exact h.packet q hq
    · obtain ⟨a, hmem, rfl⟩ := List.mem_map.mp hq
      refine ⟨rfl, ?_⟩
      rw [haddrs, mem_clientRecipients ht] at hmem
      obtain ⟨j, k', z', hz', ha', haddr', hcase⟩ := hmem
      refine ⟨j, k', z', hz', ha', ?_, haddr'⟩
      rcases hcase with ⟨rfl, -⟩ | ⟨-, hm'⟩
      · exact hi
      · exact ⟨k', z', hz', hm'⟩
  · intro j k₁ z₁ hz₁ hm₁
    rw [hm.coordinator] at hz₁
    have ha₁ := ht.active j k₁ z₁ hz₁ hm₁
    have hperm := h.master j k₁ z₁ hz₁ hm₁
    rw [handledAt_concat hm.handled, accepted_accept, htoward]
    rw [List.perm_iff_count] at hperm ⊢
    intro x
    have hx := hperm x
    have hself : p.addr = z₁.getAddress ↔ j = i := by
      rw [← haddr]
      constructor
      · intro he
        exact (ht.address_inj hz₁ hz ha₁ ha he.symm).1
      · rintro rfl
        obtain rfl := ht.unique j k k₁ z z₁ hz hz₁ hzm hm₁
        rw [hz, Option.some.injEq] at hz₁
        rw [hz₁]
    have hrec := master_mem_clientRecipients ht hz hzm hz₁ hm₁
    simp only [List.count_append, apply_ite (List.count x), List.count_nil, hself, hrec] at hx ⊢
    split_ifs <;> omega
  · intro j k₁ k₂ z₁ z₂ hz₁ hm₁ hz₂ ha₂ hne
    rw [hm.coordinator] at hz₁ hz₂
    have hperm := h.slave j k₁ k₂ z₁ z₂ hz₁ hm₁ hz₂ ha₂ hne
    rw [handledAt_concat hm.handled, accepted_accept, htoward, htoward]
    rw [List.perm_iff_count] at hperm ⊢
    intro x
    have hx := hperm x
    have hself : p.addr ≠ z₂.getAddress := by
      intro he
      obtain ⟨rfl, rfl⟩ := ht.address_inj hz₂ hz ha₂ ha (he.symm.trans haddr.symm)
      exact hne (ht.unique j k₁ k₂ z₁ z hz₁ hz hm₁ hzm)
    have hrec₁ := master_mem_clientRecipients ht hz hzm hz₁ hm₁
    have hrec₂ := slave_mem_clientRecipients ht hz hzm hz₁ hm₁ hz₂ ha₂ hne
    simp only [List.count_append, apply_ite (List.count x), List.count_nil, hself, hrec₁, hrec₂,
      ↓reduceIte] at hx ⊢
    split_ifs <;> omega

theorem DeliveryInv.deliver (h : DeliveryInv g tr c) {n : Nat} (hm : Moved tz c (.deliver n) c' p s s' addrs) :
    DeliveryInv g (tr ++ [(c, .deliver n)]) c' := by
  have ht := h.topology
  obtain ⟨i, k, z, hz, ha, haddr, hi, hag⟩ := hm.entry h
  have hserver := (h.packet p (List.mem_of_getElem? hm.handled)).1
  have hforward : forwarded p.request = p.request := forwarded_eq hserver
  have haddrs : addrs = if z.master = true then
      (counterparts c.network.coordinator i k).map fun e => e.2.getAddress else [] := by
    have hr := hm.recipients
    cases hzm : z.master with
    | false =>
        rw [recipients_slave (by rw [hm.sameProcess.master, hag.master, hzm]), Except.ok.injEq] at hr
        exact hr.symm
    | true =>
        rw [recipients_forwarded hz hzm (hag.sameProcess hm.sameProcess) hserver, Except.ok.injEq] at hr
        exact hr.symm
  have htoward (a : Str) : toward a c'.inFlight = toward a (c.inFlight.eraseIdx n) ++
      if z.master = true ∧ a ∈ (counterparts c.network.coordinator i k).map fun e => e.2.getAddress
      then [(p.method, forwarded p.request)] else [] := by
    have htaken : (c.taken (.deliver n)).inFlight = c.inFlight.eraseIdx n := rfl
    rw [hm.inFlight, toward_append, htaken, haddrs]
    cases z.master with
    | false => rfl
    | true =>
        rw [if_pos rfl, toward_send (nodup_counterparts_address ht)]
        simp only [true_and]
  have htake (a : Str) : (toward a c.inFlight).Perm _ := toward_take hm.handled
  constructor
  · exact hm.topology h
  · exact hm.target h
  · exact hm.wellFormed h
  · intro addr r hr
    exact hm.graph h hr
  · intro q hq
    rw [hm.coordinator]
    rw [hm.inFlight, List.mem_append] at hq
    rcases hq with hq | hq
    · exact h.packet q (List.mem_of_mem_eraseIdx hq)
    · obtain ⟨a, hmem, rfl⟩ := List.mem_map.mp hq
      rw [haddrs] at hmem
      split_ifs at hmem
      · obtain ⟨k', z', hz', -, ha', haddr'⟩ := mem_counterparts_address.mp hmem
        exact ⟨rfl, i, k', z', hz', ha', hi, haddr'⟩
      · simp at hmem
  · intro j k₁ z₁ hz₁ hm₁
    rw [hm.coordinator] at hz₁
    have hperm := h.master j k₁ z₁ hz₁ hm₁
    have htake₁ := htake z₁.getAddress
    rw [handledAt_concat hm.handled, accepted_deliver, htoward]
    rw [List.perm_iff_count] at hperm htake₁ ⊢
    intro x
    have hx := hperm x
    have hx' := htake₁ x
    have hrec := master_not_mem_counterparts ht hz hz₁ hm₁
    simp only [List.count_append, hforward, hrec, ↓reduceIte, List.count_nil] at hx hx' ⊢
    omega
  · intro j k₁ k₂ z₁ z₂ hz₁ hm₁ hz₂ ha₂ hne
    rw [hm.coordinator] at hz₁ hz₂
    have hperm := h.slave j k₁ k₂ z₁ z₂ hz₁ hm₁ hz₂ ha₂ hne
    have htake₁ := htake z₁.getAddress
    have htake₂ := htake z₂.getAddress
    rw [handledAt_concat hm.handled, accepted_deliver, htoward, htoward]
    rw [List.perm_iff_count] at hperm htake₁ htake₂ ⊢
    intro x
    have hx := hperm x
    have hx₁ := htake₁ x
    have hx₂ := htake₂ x
    -- the master forwards to the slave what it takes out of the network
    have hrec₁ := master_not_mem_counterparts ht hz hz₁ hm₁
    have hrec₂ := slave_mem_counterparts ht hz hz₁ hm₁ ha hz₂ ha₂ hne
    rw [haddr] at hrec₂
    simp only [List.count_append, apply_ite (List.count x), List.count_nil, hforward, hrec₁, hrec₂,
      ↓reduceIte] at hx hx₁ hx₂ ⊢
    split_ifs at hx₁ hx₂ ⊢ <;> omega

theorem DeliveryInv.step (h : DeliveryInv g tr c) (hstep : (deliveryMachine tz).step c e c')
    (ha : ∀ p s, handled c e = some p → c.network.servers p.addr = some s →
      AnswerableInTurn tz g (handledAt p.addr (tr ++ [(c, e)]))) : DeliveryInv g (tr ++ [(c, e)]) c' := by
  obtain ⟨p, s, s', addrs, hm⟩ := moved_of_step h hstep ha
  cases e with
  | accept q => exact h.accept hm
  | deliver n => exact h.deliver hm

theorem DeliveryInv.start (h : Start c g) : DeliveryInv g [] c where
  topology := h.topology
  target := h.target
  wellFormed := h.wellFormed
  graph := h.graph
  packet p hp := by simp [h.quiet] at hp
  master j k z _ _ := by simp [h.quiet, handledAt, toward, accepted]
  slave j k k' z z' _ _ _ _ _ := by simp [h.quiet, handledAt, toward, accepted]

theorem coordinator_of_run {c₀ : Config} (hrun : (deliveryMachine tz).Run c₀ tr c) :
    c.network.coordinator = c₀.network.coordinator := by
  apply hrun.invariant (P := fun c => c.network.coordinator = c₀.network.coordinator) rfl
  intro c e c' hc hstep
  replace hstep : c.step tz e = .ok c' := hstep
  rw [← hc]
  have htaken : (c.taken e).network.coordinator = c.network.coordinator := by cases e <;> rfl
  rw [Config.step] at hstep
  cases hp : handled c e with
  | none => simp [hp] at hstep
  | some p =>
      simp only [hp, Config.handle] at hstep
      split at hstep
      · cases hstep
        exact htaken
      · split at hstep
        · cases hstep
          exact htaken
        · obtain ⟨addrs, -, hstep⟩ := bind_eq_ok.mp hstep
          cases hstep
          exact htaken

/-- A run in which all requests are delivered in order keeps the invariant. -/
theorem deliveryInv_of_run {c₀ : Config} (h₀ : Start c₀ g) (hrun : (deliveryMachine tz).Run c₀ tr c)
    (horder : DeliveredInOrder tz c₀ tr) : DeliveryInv g tr c := by
  induction hrun with
  | nil => exact .start h₀
  | @snoc tr c e c' hrun hstep ih =>
      have hbefore : DeliveredInOrder tz c₀ tr := by
        intro addr s hs
        have hall := horder addr s hs
        rw [handledAt, List.filterMap_append, answerableInTurn_append] at hall
        exact hall.1
      have hinv := ih hbefore
      refine hinv.step hstep ?_
      intro p s hp hs
      have htarget := hinv.target p.addr s hs
      rw [coordinator_of_run hrun] at htarget
      obtain ⟨s₀, hs₀⟩ := htarget.running h₀.topology
      rw [← h₀.graph _ s₀ hs₀]
      exact horder p.addr s₀ hs₀

/-- When nothing is in flight every server has handled the accepted requests, each once. -/
theorem DeliveryInv.perm (h : DeliveryInv g tr c) (hquiet : c.inFlight = []) {addr : Str}
    (haddr : Target c.network.coordinator addr) : (handledAt addr tr).Perm (accepted tr) := by
  obtain ⟨j, k', z', hz', ha', ⟨k, z, hz, hm⟩, rfl⟩ := haddr
  by_cases hk : k = k'
  · subst hk
    rw [hz, Option.some.injEq] at hz'
    subst hz'
    simpa [hquiet, toward] using h.master j k z hz hm
  · simpa [hquiet, toward] using h.slave j k k' z z' hz hm hz' ha' hk

end

end DistributedSns.System
