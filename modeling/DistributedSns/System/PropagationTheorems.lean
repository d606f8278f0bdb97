import DistributedSns.Server.Graph
import DistributedSns.System.Lemmas.Propagation

/-!
# Propagation

An account request reaches every active server of every cluster which has a master, once. A post does not go
beyond the masters of the other clusters.
-/

namespace DistributedSns.System

open Coordinator
open Server
open Server.SNSServer (Method formatMessageOutput addPostHelper)

variable {n : Network} {tz : TimeZone} {i : Nat} {k : Int} {z : ZNode} {addr : Str}

/-! ## Account requests -/

section

variable {method : Method} {request : Request}

/-- The addresses at which a client's request to a master is handled. -/
def reached (method : Method) (c : SNSCoordinator) (e : Nat × Int × ZNode) : List Str :=
  block method c e ++ (otherMasters c e.1).flatMap (block method c)

theorem member_iff_mem_block (ht : Topology n) (hmethod : method ≠ .ADD_POST)
    (hz : n.coordinator.zNode? i k = some z) (hm : z.master = true) :
    addr ∈ block method n.coordinator (i, k, z) ↔ Member n.coordinator i addr := by
  have ha := ht.active i k z hz hm
  constructor
  · exact member_of_mem_block hz ha
  · rintro ⟨k', z', hz', ha', rfl⟩
    rw [block, if_neg hmethod]
    by_cases hk : k = k'
    · subst hk
      rw [hz, Option.some.injEq] at hz'
      rw [hz']
      exact List.mem_cons_self
    · exact List.mem_cons_of_mem _ (mem_counterparts_address.mpr ⟨k', z', hz', hk, ha', rfl⟩)

theorem target_iff : Target n.coordinator addr ↔ ∃ j, HasMaster n.coordinator j ∧ Member n.coordinator j addr := by
  constructor
  · rintro ⟨j, k', z', hz', ha', hj, haddr⟩
    exact ⟨j, hj, k', z', hz', ha', haddr⟩
  · rintro ⟨j, hj, k', z', hz', ha', haddr⟩
    exact ⟨j, k', z', hz', ha', hj, haddr⟩

theorem mem_reached (ht : Topology n) (hmethod : method ≠ .ADD_POST) (hz : n.coordinator.zNode? i k = some z)
    (hm : z.master = true) : addr ∈ reached method n.coordinator (i, k, z) ↔ Target n.coordinator addr := by
  rw [reached, List.mem_append, member_iff_mem_block ht hmethod hz hm, List.mem_flatMap, target_iff]
  constructor
  · rintro (hmem | ⟨⟨j, k', z'⟩, he, hmem⟩)
    · exact ⟨i, ⟨k, z, hz, hm⟩, hmem⟩
    · obtain ⟨-, hz', -, hm'⟩ := ht.otherMaster he
      exact ⟨j, ⟨k', z', hz', hm'⟩, (member_iff_mem_block ht hmethod hz' hm').mp hmem⟩
  · rintro ⟨j, hj, hmem⟩
    by_cases hji : j = i
    · exact Or.inl (hji ▸ hmem)
    · obtain ⟨k', z', he⟩ := exists_mem_otherMasters hji hj
      obtain ⟨-, hz', -, hm'⟩ := ht.otherMaster he
      exact Or.inr ⟨_, he, (member_iff_mem_block ht hmethod hz' hm').mpr hmem⟩

theorem nodup_reached (ht : Topology n) (hz : n.coordinator.zNode? i k = some z) (ha : z.isActive = true) :
    (reached method n.coordinator (i, k, z)).Nodup := by
  rw [reached, List.nodup_append']
  refine ⟨nodup_block ht hz ha, nodup_otherBlocks ht, ?_⟩
  intro addr hmem
  exact not_member_otherBlocks ht (member_of_mem_block hz ha hmem)

/-- A client's call to a master. -/
theorem call_client (ht : Topology n) (hmethod : method ≠ .ADD_POST) (hz : n.coordinator.zNode? i k = some z)
    (hm : z.master = true) (hclient : request.from_server = false)
    (hcomplete : ∀ addr s, Target n.coordinator addr → n.servers addr = some s →
      ∃ r, s.handle tz method request = .ok r) (fuel : Nat) :
    call tz method (fuel + 3) request n z.getAddress =
      .ok (n.handled tz method request (reached method n.coordinator (i, k, z)),
        reached method n.coordinator (i, k, z)) := by
  have ha := ht.active i k z hz hm
  obtain ⟨s, hs, hag⟩ := ht.process i k z hz ha
  obtain ⟨⟨s', reply⟩, hh⟩ := hcomplete _ s ⟨i, k, z, hz, ha, ⟨k, z, hz, hm⟩, rfl⟩ hs
  have hothers : method ≠ .ADD_POST → ∀ j k z, (j, k, z) ∈ otherMasters n.coordinator i →
      ∀ s, n.servers z.getAddress = some s → ∃ r, s.handle tz method request = .ok r := by
    intro _ j k' z' he s'' hs''
    obtain ⟨-, hz', ha', hm'⟩ := ht.otherMaster he
    exact hcomplete _ s'' ⟨j, k', z', hz', ha', ⟨k', z', hz', hm'⟩, rfl⟩ hs''
  have hdone : ((counterparts n.coordinator i k).map fun e => e.2.getAddress).Disjoint [z.getAddress] := by
    rw [List.disjoint_singleton]
    exact not_mem_counterparts_address ht hz ha
  have hfirst : (n.handled tz method request []).setServer z.getAddress (after tz method request s) = _ :=
    handled_concat hs List.not_mem_nil
  rw [handled_nil, after_eq_some hh, List.nil_append] at hfirst
  have hmember : ∀ a ∈ [z.getAddress], Member n.coordinator i a := by
    intro a ha'
    rw [List.mem_singleton.mp ha']
    exact ⟨k, z, hz, ha, rfl⟩
  rw [call_complete hs hh hmethod, hfirst, propogate_client ht hz hm (hag.sameProcess (handle_sameProcess hh))
    hclient hothers hdone hmember fuel, ok_bind, reached, block, if_neg hmethod]
  rfl

/-- A client's account request to a master comes to an end, and every active server of every cluster with a
master has then handled it once, the master included; no other process has handled it. -/
theorem propogate_exactly_once (ht : Topology n) (hmethod : method ≠ .ADD_POST)
    (hz : n.coordinator.zNode? i k = some z) (hm : z.master = true) (hclient : request.from_server = false)
    (hcomplete : ∀ addr s, Target n.coordinator addr → n.servers addr = some s →
      ∃ r, s.handle tz method request = .ok r) :
    ∃ n' executed, (∀ fuel ≥ 3, call tz method fuel request n z.getAddress = .ok (n', executed)) ∧
      (∀ addr, Target n.coordinator addr → executed.count addr = 1 ∧ ∃ s s' reply, n.servers addr = some s ∧
        s.handle tz method request = .ok (s', reply) ∧ n'.servers addr = some s') ∧
      (∀ addr, ¬ Target n.coordinator addr → addr ∉ executed ∧ n'.servers addr = n.servers addr) := by
  have hnodup : (reached method n.coordinator (i, k, z)).Nodup := nodup_reached ht hz (ht.active i k z hz hm)
  refine ⟨n.handled tz method request (reached method n.coordinator (i, k, z)),
    reached method n.coordinator (i, k, z), ?_, ?_, ?_⟩
  · intro fuel hfuel
    obtain ⟨fuel, rfl⟩ := Nat.exists_eq_add_of_le' hfuel
    exact call_client ht hmethod hz hm hclient hcomplete fuel
  · intro addr hmem
    have hreached := (mem_reached ht hmethod hz hm).mpr hmem
    obtain ⟨j, k', z', hz', ha', hj, rfl⟩ := hmem
    obtain ⟨s, hs, -⟩ := ht.process j k' z' hz' ha'
    obtain ⟨⟨s', reply⟩, hh⟩ := hcomplete _ s ⟨j, k', z', hz', ha', hj, rfl⟩ hs
    refine ⟨List.count_eq_one_of_mem hnodup hreached, s, s', reply, hs, hh, ?_⟩
    rw [Network.handled]
    simp only [hreached, ↓reduceIte, hs, Option.bind_some, after_eq_some hh]
  · intro addr hnot
    have hnot' : addr ∉ reached method n.coordinator (i, k, z) :=
      fun h => hnot ((mem_reached ht hmethod hz hm).mp h)
    exact ⟨hnot', if_neg hnot'⟩

end

/-! ## Two clusters with slaves -/

/-- Two servers of cluster 1 and three of cluster 2 register, and the last one misses three heartbeats. -/
def registrations : List SNSCoordinator.Event :=
  let info (clusterid serverid : Int) (hostname port : Str) : ServerInfo :=
    { clusterid, serverid, hostname, port }
  [.heartbeat 0 (info 1 1 ['a'] ['1']), .heartbeat 0 (info 1 2 ['a'] ['2']),
    .heartbeat 0 (info 2 1 ['b'] ['1']), .heartbeat 0 (info 2 2 ['b'] ['2']),
    .heartbeat 0 (info 2 3 ['b'] ['3']), .check 20 1 3, .check 40 1 3, .check 60 1 3]

/-- A server at which the users `a` and `b` have logged in. -/
def replica (clusterid serverid : Int) (master : Bool) (stream : Option StreamId) : SNSServer where
  serverInfo := { clusterid, serverid }
  master := master
  heap := [{ username := ['a'], connected := true, stream }, { username := ['b'], connected := true }]
  client_db := [0, 1]

def replicas (addr : Str) : Option SNSServer :=
  if addr = ['a', ':', '1'] then some (replica 1 1 true (some 0))
  else if addr = ['a', ':', '2'] then some (replica 1 2 false none)
  else if addr = ['b', ':', '1'] then some (replica 2 1 true none)
  else if addr = ['b', ':', '2'] then some (replica 2 2 false none)
  else if addr = ['b', ':', '3'] then some (replica 2 3 false none)
  else none

theorem replicas_eq {addr : Str} {s : SNSServer} (h : replicas addr = some s) :
    ∃ clusterid serverid master stream, s = replica clusterid serverid master stream := by
  rw [replicas] at h
  split_ifs at h <;> cases h <;> exact ⟨_, _, _, _, rfl⟩

theorem wellFormed_replica (clusterid serverid : Int) (master : Bool) (stream : Option StreamId) :
    WellFormed (replica clusterid serverid master stream) := by
  have hheap (i : Nat) (c : Client) (hc : (replica clusterid serverid master stream).heap[i]? = some c) :
      (i = 0 ∧ c = { username := ['a'], connected := true, stream }) ∨
        (i = 1 ∧ c = { username := ['b'], connected := true }) := by
    match i, hc with
    | 0, hc => exact Or.inl ⟨rfl, (Option.some.inj hc).symm⟩
    | 1, hc => exact Or.inr ⟨rfl, (Option.some.inj hc).symm⟩
  constructor
  · rfl
  · intro i j c d hc hd he
    rcases hheap i c hc with ⟨rfl, rfl⟩ | ⟨rfl, rfl⟩
    · rcases hheap j d hd with ⟨rfl, rfl⟩ | ⟨rfl, rfl⟩
      · rfl
      · simp at he
    · rcases hheap j d hd with ⟨rfl, rfl⟩ | ⟨rfl, rfl⟩
      · simp at he
      · rfl
  · intro i c hc
    rcases hheap i c hc with ⟨-, rfl⟩ | ⟨-, rfl⟩ <;> rfl
  · intro i c hc j hj
    rcases hheap i c hc with ⟨-, rfl⟩ | ⟨-, rfl⟩ <;> simp at hj
  · intro i c hc j hj
    rcases hheap i c hc with ⟨-, rfl⟩ | ⟨-, rfl⟩ <;> simp at hj
  · intro i j c d hc hd
    rcases hheap i c hc with ⟨-, rfl⟩ | ⟨-, rfl⟩ <;> rcases hheap j d hd with ⟨-, rfl⟩ | ⟨-, rfl⟩ <;> simp
  · intro i c hc
    rcases hheap i c hc with ⟨-, rfl⟩ | ⟨-, rfl⟩ <;> simp
  · intro i c hc
    rcases hheap i c hc with ⟨-, rfl⟩ | ⟨-, rfl⟩ <;> simp
  · intro i c hc
    rcases hheap i c hc with ⟨-, rfl⟩ | ⟨-, rfl⟩ <;> simp
  · intro i c hc
    rcases hheap i c hc with ⟨-, rfl⟩ | ⟨-, rfl⟩ <;> rfl

theorem registrations_topology {c : SNSCoordinator}
    (hc : registrations.foldlM SNSCoordinator.handle (.init 2) = .ok c) (hagree : agreeing c replicas = true) :
    Topology { coordinator := c, servers := replicas } :=
  .of_agreeing (.of_reachable (Lib.Machine.reachable_of_foldlM rfl hc)) hagree

theorem propogate_exactly_once_registrations : ∃ c n' executed,
    registrations.foldlM SNSCoordinator.handle (.init 2) = .ok c ∧
      call .utc .LOGIN 3 { username := ['c'] } { coordinator := c, servers := replicas } ['a', ':', '1'] =
        .ok (n', executed) ∧
      executed.count ['a', ':', '1'] = 1 ∧ executed.count ['b', ':', '2'] = 1 := by
  have hrun : ∃ c, registrations.foldlM SNSCoordinator.handle (.init 2) = .ok c ∧
      agreeing c replicas = true ∧
      (∃ z, c.zNode? 0 1 = some z ∧ z.master = true ∧ z.getAddress = ['a', ':', '1']) ∧
      (∃ z, c.zNode? 1 1 = some z ∧ z.master = true) ∧
      (∃ z, c.zNode? 1 2 = some z ∧ z.isActive = true ∧ z.getAddress = ['b', ':', '2']) :=
    ⟨_, rfl, by decide +kernel, ⟨_, rfl, by decide +kernel, by decide +kernel⟩, ⟨_, rfl, by decide +kernel⟩,
      ⟨_, rfl, by decide +kernel, by decide +kernel⟩⟩
  obtain ⟨c, hc, hagree, ⟨z, hz, hm, haddr⟩, ⟨z', hz', hm'⟩, ⟨z'', hz'', ha'', haddr''⟩⟩ := hrun
  have ht := registrations_topology hc hagree
  have hcomplete : ∀ addr s, Target c addr → replicas addr = some s →
      ∃ r, s.handle .utc .LOGIN { username := ['c'] } = .ok r := by
    intro addr s _ hs
    obtain ⟨clusterid, serverid, master, stream, rfl⟩ := replicas_eq hs
    exact ⟨_, rfl⟩
  obtain ⟨n', executed, hcall, hreached, -⟩ :=
    propogate_exactly_once ht (by decide) hz hm rfl hcomplete
  rw [haddr] at hcall
  refine ⟨c, n', executed, hc, hcall 3 le_rfl, ?_, ?_⟩
  · exact (hreached _ ⟨0, 1, z, hz, ht.active 0 1 z hz hm, ⟨1, z, hz, hm⟩, haddr⟩).1
  · exact (hreached _ ⟨1, 2, z'', hz'', ha'', ⟨1, z', hz', hm'⟩, haddr''⟩).1

/-! ## Posts -/

section

variable {message : Message} {stream : StreamId} {s s' : SNSServer}

/-- The process at the address has appended the post once to its list and once to its file. -/
def PostedOnce (tz : TimeZone) (message : Message) (n n' : Network) (addr : Str) : Prop :=
  ∃ s s' data, n.servers addr = some s ∧ n'.servers addr = some s' ∧
    formatMessageOutput tz message = .ok data ∧ s'.all_posts = s.all_posts ++ [.ofMessage message] ∧
      s'.posts = s.posts ++ data

theorem post_client (ht : Topology n) (hz : n.coordinator.zNode? i k = some z) (hm : z.master = true)
    (hs : n.servers z.getAddress = some s) (hsame : SameProcess s s')
    (haccept : s.timeline tz stream message = .ok (s', some message)) (fuel : Nat) :
    post tz (fuel + 2) stream message n z.getAddress =
      .ok ((n.setServer z.getAddress s').handled tz .ADD_POST { message } (clientRecipients n.coordinator (i, k, z)),
        clientRecipients n.coordinator (i, k, z)) := by
  have ha := ht.active i k z hz hm
  obtain ⟨s₁, hs₁, hag⟩ := ht.process i k z hz ha
  rw [hs, Option.some.injEq] at hs₁
  subst hs₁
  have ht' := ht.setServer hs hsame
  have hnone : ((counterparts n.coordinator i k).map fun e => e.2.getAddress).Disjoint [] :=
    List.disjoint_nil_right _
  have hprop : propogate (call tz .ADD_POST (fuel + 2))
      ((n.setServer z.getAddress s').handled tz .ADD_POST { message } []) s' { message } = _ :=
    propogate_client ht' hz hm (hag.sameProcess hsame) rfl (fun h => absurd rfl h) hnone (by simp) fuel
  rw [handled_nil, List.nil_append] at hprop
  simp only [post, hs, haccept, hprop]
  rfl

/-- A process which gets a post appends it if and only if it knows the author. -/
theorem after_post_iff {r : SNSServer} (hr : WellFormed r) {data : Str}
    (hdata : formatMessageOutput tz message = .ok data) :
    (∃ r', after tz .ADD_POST { message } r = some r' ∧ r'.all_posts = r.all_posts ++ [.ofMessage message] ∧
      r'.posts = r.posts ++ data) ↔ r.hasUser message.username = true := by
  rw [SNSServer.hasUser, Option.isSome_iff_exists]
  constructor
  · rintro ⟨r', hafter, -⟩
    rw [after] at hafter
    cases hh : r.handle tz .ADD_POST { message } with
    | error e => simp [hh] at hafter
    | ok x =>
        obtain ⟨r₁, hr₁, -⟩ := bind_eq_ok.mp hh
        obtain ⟨j, data', w, hj, -⟩ := addPostHelper_eq hr₁
        exact ⟨j, hj⟩
  · rintro ⟨j, hj⟩
    obtain ⟨r₁, hr₁⟩ := addPostHelper_total hr.followers hj hdata true
    have hh : r.handle tz .ADD_POST { message } = .ok (r₁, {}) := by
      refine bind_eq_ok.mpr ⟨r₁, ?_, rfl⟩
      rw [hj]
      exact hr₁
    obtain ⟨j', data', w, -, hdata', rfl⟩ := addPostHelper_eq hr₁
    rw [hdata, Except.ok.injEq] at hdata'
    subst hdata'
    exact ⟨_, after_eq_some hh, rfl, rfl⟩

/-- The network after the post has been accepted by the process at `addr` and added at the given addresses. -/
def Network.posted (n : Network) (tz : TimeZone) (message : Message) (addr : Str) (s' : SNSServer)
    (addrs : List Str) : Network :=
  (n.setServer addr s').handled tz .ADD_POST { message } addrs

theorem servers_posted {addrs : List Str} {a : Str} (h : addr ∉ addrs) :
    (n.posted tz message addr s' addrs).servers a =
      if a ∈ addrs then (n.servers a).bind (after tz .ADD_POST { message })
      else if a = addr then some s' else n.servers a := by
  rw [Network.posted, Network.handled]
  simp only [servers_setServer]
  by_cases ha : a ∈ addrs
  · have hne : a ≠ addr := by
      rintro rfl
      exact h ha
    simp [ha, hne]
  · simp [ha]

/-- A post that a master accepts reaches every replica if and only if the other clusters have no active slaves
and every receiver knows its author. -/
theorem post_reaches_replicas_iff (ht : Topology n)
    (hwf : ∀ addr s, n.servers addr = some s → WellFormed s) (hz : n.coordinator.zNode? i k = some z)
    (hm : z.master = true) (hs : n.servers z.getAddress = some s)
    (haccept : s.timeline tz stream message = .ok (s', some message)) :
    ∃ n' executed, (∀ fuel ≥ 2, post tz fuel stream message n z.getAddress = .ok (n', executed)) ∧
      ((∀ addr, Target n.coordinator addr → PostedOnce tz message n n' addr) ↔
        ∀ j k' z', n.coordinator.zNode? j k' = some z' → z'.isActive = true → HasMaster n.coordinator j →
          (j = i ∨ z'.master = true) ∧
            ∃ s, n.servers z'.getAddress = some s ∧ s.hasUser message.username = true) := by
  have ha := ht.active i k z hz hm
  obtain ⟨-, -, -, i₀, data, w, hauthor, hdata, hs'⟩ := timeline_posted haccept
  have hsame : SameProcess s s' := by
    rw [hs']
    exact ⟨rfl, rfl⟩
  have hnot : z.getAddress ∉ clientRecipients n.coordinator (i, k, z) := by
    rw [address_mem_clientRecipients ht hz ha]
    simp
  refine ⟨n.posted tz message z.getAddress s' (clientRecipients n.coordinator (i, k, z)),
    clientRecipients n.coordinator (i, k, z), ?_, ?_⟩
  · intro fuel hfuel
    obtain ⟨fuel, rfl⟩ := Nat.exists_eq_add_of_le' hfuel
    exact post_client ht hz hm hs hsame haccept fuel
  constructor
  · intro hall j k' z' hz' ha' hj
    obtain ⟨r, r', data', hr, hr', hdata', hlist, hfile⟩ := hall _ ⟨j, k', z', hz', ha', hj, rfl⟩
    rw [hdata, Except.ok.injEq] at hdata'
    subst hdata'
    rw [servers_posted hnot] at hr'
    split_ifs at hr' with hmem haddr
    · rw [hr, Option.bind_some] at hr'
      rw [address_mem_clientRecipients ht hz' ha'] at hmem
      refine ⟨hmem.imp (·.1) (·.2), r, hr, ?_⟩
      exact (after_post_iff (hwf _ r hr) hdata).mp ⟨r', hr', hlist, hfile⟩
    · obtain ⟨rfl, rfl⟩ := ht.address_inj hz' hz ha' ha haddr
      refine ⟨Or.inl rfl, s, by rw [haddr, hs], ?_⟩
      rw [SNSServer.hasUser, hauthor]
      rfl
    · -- a server which is not reached keeps its list
      rw [hr, Option.some.injEq] at hr'
      rw [hr'] at hlist
      simp at hlist
  · rintro hcond _ ⟨j, k', z', hz', ha', hj, rfl⟩
    obtain ⟨hji, r, hr, huser⟩ := hcond j k' z' hz' ha' hj
    by_cases hmem : (j = i ∧ k ≠ k') ∨ (j ≠ i ∧ z'.master = true)
    · obtain ⟨r', hafter, hlist, hfile⟩ := (after_post_iff (hwf _ r hr) hdata).mpr huser
      refine ⟨r, r', data, hr, ?_, hdata, hlist, hfile⟩
      rw [servers_posted hnot, if_pos ((address_mem_clientRecipients ht hz' ha').mpr hmem), hr]
      exact hafter
    · obtain ⟨rfl, rfl⟩ : j = i ∧ k = k' := by
        by_cases hij : j = i
        · exact ⟨hij, by_contra fun hk => hmem (Or.inl ⟨hij, hk⟩)⟩
        · exact absurd (Or.inr ⟨hij, hji.resolve_left hij⟩) hmem
      rw [hz, Option.some.injEq] at hz'
      subst hz'
      refine ⟨s, s', data, hs, ?_, hdata, ?_, ?_⟩
      · rw [servers_posted hnot, if_neg hnot, if_pos rfl]
      · rw [hs']
      · rw [hs']

/-- With the first cluster alone the post reaches the slave. -/
theorem post_reaches_replicas_iff_oneCluster : ∃ c n' executed,
    (registrations.take 2).foldlM SNSCoordinator.handle (.init 2) = .ok c ∧
      post .utc 2 0 { username := ['a'], msg := ['x'] } { coordinator := c, servers := replicas } ['a', ':', '1'] =
        .ok (n', executed) ∧
      PostedOnce .utc { username := ['a'], msg := ['x'] } { coordinator := c, servers := replicas } n'
        ['a', ':', '2'] := by
  have hrun : ∃ c, (registrations.take 2).foldlM SNSCoordinator.handle (.init 2) = .ok c ∧
      agreeing c replicas = true ∧
      (∃ z, c.zNode? 0 1 = some z ∧ z.master = true ∧ z.getAddress = ['a', ':', '1']) ∧
      (∃ z, c.zNode? 0 2 = some z ∧ z.isActive = true ∧ z.getAddress = ['a', ':', '2']) ∧
      allZNodes c (fun j _ z => j == 0 && (replicas z.getAddress).any (·.hasUser ['a'])) = true :=
    ⟨_, rfl, by decide +kernel, ⟨_, rfl, by decide +kernel, by decide +kernel⟩,
      ⟨_, rfl, by decide +kernel, by decide +kernel⟩, by decide +kernel⟩
  obtain ⟨c, hc, hagree, ⟨z, hz, hm, haddr⟩, ⟨z', hz', ha', haddr'⟩, hall⟩ := hrun
  have ht : Topology { coordinator := c, servers := replicas } :=
    .of_agreeing (.of_reachable (Lib.Machine.reachable_of_foldlM rfl hc)) hagree
  have hwf : ∀ addr s, replicas addr = some s → WellFormed s := by
    intro addr s hs
    obtain ⟨clusterid, serverid, master, stream, rfl⟩ := replicas_eq hs
    exact wellFormed_replica clusterid serverid master stream
  have hs : replicas z.getAddress = some (replica 1 1 true (some 0)) := by
    rw [haddr]
    rfl
  have haccept : (replica 1 1 true (some 0)).timeline .utc 0 { username := ['a'], msg := ['x'] } =
      .ok (_, some { username := ['a'], msg := ['x'] }) := rfl
  obtain ⟨n', executed, hpost, hiff⟩ := post_reaches_replicas_iff ht hwf hz hm hs haccept
  rw [haddr] at hpost
  refine ⟨c, n', executed, hc, hpost 2 le_rfl, hiff.mpr ?_ _ ⟨0, 2, z', hz', ha', ⟨1, z, hz, hm⟩, haddr'⟩⟩
  intro j k' z'' hz'' _ _
  have htest := of_allZNodes hall hz''
  simp only [Bool.and_eq_true, beq_iff_eq, Option.any_eq_true] at htest
  exact ⟨Or.inl htest.1, htest.2⟩

/-- The slave of the second cluster never gets a post accepted by the master of the first one. -/
theorem post_misses_slave : ∃ c s s' n',
    registrations.foldlM SNSCoordinator.handle (.init 2) = .ok c ∧
      Topology { coordinator := c, servers := replicas } ∧ Target c ['b', ':', '2'] ∧
      replicas ['a', ':', '1'] = some s ∧
      s.timeline .utc 0 { username := ['a'], msg := ['x'] } =
        .ok (s', some { username := ['a'], msg := ['x'] }) ∧
      post .utc 2 0 { username := ['a'], msg := ['x'] } { coordinator := c, servers := replicas } ['a', ':', '1'] =
        .ok (n', [['a', ':', '2'], ['b', ':', '1']]) ∧
      ¬ PostedOnce .utc { username := ['a'], msg := ['x'] } { coordinator := c, servers := replicas } n'
        ['b', ':', '2'] := by
  have hrun : ∃ c, registrations.foldlM SNSCoordinator.handle (.init 2) = .ok c ∧
      agreeing c replicas = true ∧ (∃ z, c.zNode? 1 1 = some z ∧ z.master = true) ∧
      (∃ z, c.zNode? 1 2 = some z ∧ z.isActive = true ∧ z.getAddress = ['b', ':', '2']) ∧
      ∃ n', post .utc 2 0 { username := ['a'], msg := ['x'] } { coordinator := c, servers := replicas }
          ['a', ':', '1'] = .ok (n', [['a', ':', '2'], ['b', ':', '1']]) ∧
        n'.servers ['b', ':', '2'] = replicas ['b', ':', '2'] :=
    ⟨_, rfl, by decide +kernel, ⟨_, rfl, by decide +kernel⟩, ⟨_, rfl, by decide +kernel, by decide +kernel⟩,
      _, rfl, by decide +kernel⟩
  obtain ⟨c, hc, hagree, ⟨z', hz', hm'⟩, ⟨z'', hz'', ha'', haddr''⟩, n', hpost, hsame⟩ := hrun
  refine ⟨c, _, _, n', hc, registrations_topology hc hagree, ⟨1, 2, z'', hz'', ha'', ⟨1, z', hz', hm'⟩, haddr''⟩,
    rfl, rfl, hpost, ?_⟩
  rintro ⟨s, s', data, hs, hs', -, hlist, -⟩
  rw [hsame] at hs'
  obtain rfl : s = s' := Option.some.inj (hs.symm.trans hs')
  simp at hlist

end

end DistributedSns.System
