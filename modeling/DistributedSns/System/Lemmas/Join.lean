import DistributedSns.System.Join

/-!
# What the joining slave has

The snapshot holds what was applied before it. The registered process is in the master's list of counterparts once, so
while it listens it handles exactly what is propagated, and until it listens it handles nothing.
-/

namespace DistributedSns.System.Join

open Lib (Machine update)
open Coordinator (SNSCoordinator ServerInfo ZNode HeartbeatOutcome)
open Server
open Server.SNSServer (Method)

/-! ## The list of counterparts -/

/-- Whatever the master propagates goes to the process once. -/
def Enlisted (c : State) : Prop :=
  ∀ request, ∃ addrs, recipients c.coordinator c.master request = .ok addrs ∧ addrs.count c.serverAddress = 1

/-- A value which only one element has is counted once. -/
theorem count_map_eq_one {α β γ : Type} [BEq γ] [LawfulBEq γ] {l : List α} {key : α → β} {f : α → γ} {x : α} {a : γ}
    (hnodup : (l.map key).Nodup) (hx : x ∈ l) (ha : f x = a) (hunique : ∀ y ∈ l, f y = a → key y = key x) :
    (l.map f).count a = 1 := by
  obtain ⟨l₁, l₂, rfl⟩ := List.append_of_mem hx
  rw [List.map_append, List.map_cons, List.nodup_append, List.nodup_cons] at hnodup
  obtain ⟨-, ⟨hafter, -⟩, hdisjoint⟩ := hnodup
  have hbefore : a ∉ l₁.map f := by
    intro hm
    obtain ⟨y, hy, hya⟩ := List.mem_map.mp hm
    exact hdisjoint _ (List.mem_map_of_mem hy) _ List.mem_cons_self (hunique y (by simp [hy]) hya)
  have hrest : a ∉ l₂.map f := by
    intro hm
    obtain ⟨y, hy, hya⟩ := List.mem_map.mp hm
    exact hafter (List.mem_map.mpr ⟨y, hy, hunique y (by simp [hy]) hya⟩)
  rw [List.map_append, List.count_append, List.map_cons, ha, List.count_cons_self, List.count_eq_zero.mpr hbefore,
    List.count_eq_zero.mpr hrest]

theorem enlisted_of_entry {c : State} {i : Nat} {k : Int} {z : ZNode} (hi : i < c.coordinator.clusters.length)
    (hm : c.master.master = true) (hid : c.master.serverInfo.clusterid = i + 1)
    (hz : c.coordinator.zNode? i k = some z) (hk : c.master.serverInfo.serverid ≠ k) (ha : z.isActive = true)
    (haddr : z.getAddress = c.serverAddress)
    (hunique : ∀ (j : Nat) (k' : Int) (z' : ZNode), c.coordinator.zNode? j k' = some z' →
      z'.getAddress = c.serverAddress → j = i ∧ k' = k) : Enlisted c := by
  have hcounter := serverList_counterparts hi hid
  have hothers := serverList_otherMasters (c := c.coordinator) hid
  have hcount : ((counterparts c.coordinator i c.master.serverInfo.serverid).map
      fun e => address (e.2.setServerInfo {})).count c.serverAddress = 1 := by
    have hmem : (k, z) ∈ counterparts c.coordinator i c.master.serverInfo.serverid :=
      mem_counterparts.mpr ⟨hz, hk, ha⟩
    apply count_map_eq_one nodup_counterparts hmem
    · exact haddr
    · rintro ⟨k', z'⟩ he hz'
      exact (hunique i k' z' (mem_counterparts.mp he).1 hz').2
  have hnone : ((otherMasters c.coordinator i).map fun e => address (e.2.2.setServerInfo {})).count
      c.serverAddress = 0 := by
    rw [List.count_eq_zero, List.mem_map]
    rintro ⟨⟨j, k', z'⟩, he, hz'⟩
    obtain ⟨hj, hzj, -⟩ := mem_otherMasters he
    exact hj (hunique j k' z' hzj hz').1
  intro request
  rw [recipients, hm, if_pos rfl, hcounter, ok_bind]
  by_cases hserver : request.from_server = true
  · refine ⟨_, by simp only [hserver, Bool.not_true, Bool.false_eq_true, ↓reduceIte]; rfl, ?_⟩
    rwa [List.map_map]
  · rw [Bool.not_eq_true] at hserver
    refine ⟨_, by simp only [hserver, Bool.not_false, ↓reduceIte, hothers, ok_bind]; rfl, ?_⟩
    rw [List.map_append, List.count_append, List.map_map, List.map_map]
    exact congrArg₂ (· + ·) hcount hnone

/-- The reply of the coordinator makes the process a registered slave of the master. -/
theorem enlisted_of_heartbeat {tz : TimeZone} {c : State} (h : c.Start tz) {now : Int} {coordinator : SNSCoordinator}
    {status : Coordinator.Status} {path : Coordinator.Path} (slave : SNSServer) (phase : Phase)
    (hr : c.coordinator.heartbeat now c.slave.serverInfo = .ok (coordinator, status, path))
    (hok : status.code = .ok) (hslave : path.master = false) :
    Enlisted { c with coordinator, slave, phase } := by
  obtain ⟨i, hid, hi⟩ := h.cluster
  have hcases := Coordinator.heartbeat_outcome h.inv.service hr
  generalize hresult : (coordinator, status, path) = result at hcases
  cases hcases with
  | rejected hs =>
      cases hresult
      exact absurd hok hs
  | refreshed ha hm =>
      cases hresult
      cases hslave
  | elected ha hm hlock hfs hsync =>
      cases hresult
      cases hslave
  | @slave j fs d ha hm hlock hfs =>
      cases hresult
      have hji : j = i := by
        have hj := ha.clusterid
        rw [h.clusterid, hid] at hj
        omega
      subst hji
      have hlookup := SNSCoordinator.zNode?_withFilesys_setZNode (c := c.coordinator) ha.lt fs
        c.slave.serverInfo.serverid { Coordinator.beat c.coordinator now c.slave.serverInfo j with
          path := Coordinator.getSlaveFilepath c.slave.serverInfo.clusterid c.slave.serverInfo.serverid }
      apply enlisted_of_entry (i := j) (k := c.slave.serverInfo.serverid)
      · simpa using hi
      · exact h.master
      · exact hid
      · rw [hlookup, if_pos ⟨rfl, rfl⟩]
      · exact h.serverid.symm
      · rfl
      · exact h.serverAddress.symm
      · intro j' k' z' hz' haddr
        rw [hlookup] at hz'
        by_cases hjk : j' = j ∧ k' = c.slave.serverInfo.serverid
        · exact hjk
        · rw [if_neg hjk] at hz'
          obtain ⟨hcluster, hserver⟩ := h.unused j' k' z' hz' haddr
          rw [h.clusterid, hid] at hcluster
          exact ⟨by omega, hserver.symm⟩

/-! ## Deliveries -/

section

variable {tz : TimeZone} {c : State} {method : Method} {request : Request} {addr : Str} {addrs : List Str}

theorem rpc_of_ne (h : addr ≠ c.serverAddress) : c.rpc tz method request addr = c := by
  simp [State.rpc, h]

theorem foldl_rpc_of_not_mem (h : c.serverAddress ∉ addrs) :
    addrs.foldl (fun c addr => c.rpc tz method request addr) c = c := by
  induction addrs with
  | nil => rfl
  | cons addr addrs ih =>
      rw [List.mem_cons, not_or] at h
      rw [List.foldl_cons, rpc_of_ne (Ne.symm h.1), ih h.2]

theorem foldl_rpc_of_not_listening (h : c.phase ≠ .listening) :
    addrs.foldl (fun c addr => c.rpc tz method request addr) c = c := by
  induction addrs with
  | nil => rfl
  | cons addr addrs ih =>
      have hrpc : c.rpc tz method request addr = c := by simp [State.rpc, h]
      rw [List.foldl_cons, hrpc, ih]

theorem serverAddress_rpc : (c.rpc tz method request addr).serverAddress = c.serverAddress := by
  unfold State.rpc
  split
  · split <;> rfl
  · rfl

/-- What no RPC to the process touches. -/
structure Untouched (c c' : State) : Prop where
  master : c'.master = c.master
  pending : c'.pending = c.pending
  copied : c'.phase.copied = c.phase.copied

theorem untouched_rpc : Untouched c (c.rpc tz method request addr) := by
  unfold State.rpc
  split
  next h =>
    split
    · exact ⟨rfl, rfl, rfl⟩
    · exact ⟨rfl, rfl, by rw [h.2]; rfl⟩
  · exact ⟨rfl, rfl, rfl⟩

theorem untouched_foldl_rpc : Untouched c (addrs.foldl (fun c addr => c.rpc tz method request addr) c) := by
  induction addrs generalizing c with
  | nil => exact ⟨rfl, rfl, rfl⟩
  | cons addr addrs ih =>
      have h := @untouched_rpc tz c method request addr
      have h' := @ih (c.rpc tz method request addr)
      exact ⟨h'.master.trans h.master, h'.pending.trans h.pending, h'.copied.trans h.copied⟩

/-- An address which occurs once in the list gets one RPC. -/
theorem foldl_rpc (h : addrs.count c.serverAddress = 1) :
    addrs.foldl (fun c addr => c.rpc tz method request addr) c = c.rpc tz method request c.serverAddress := by
  have hmem : c.serverAddress ∈ addrs := List.count_pos_iff.mp (by omega)
  obtain ⟨l₁, l₂, rfl⟩ := List.append_of_mem hmem
  rw [List.count_append, List.count_cons_self] at h
  have hbefore : c.serverAddress ∉ l₁ := List.count_eq_zero.mp (by omega)
  have hafter : c.serverAddress ∉ l₂ := List.count_eq_zero.mp (by omega)
  rw [List.foldl_append, foldl_rpc_of_not_mem hbefore, List.foldl_cons, foldl_rpc_of_not_mem]
  rwa [serverAddress_rpc]

end

/-! ## Handlers -/

theorem postsOf_append (l l' : List (Method × Request)) : postsOf (l ++ l') = postsOf l ++ postsOf l' :=
  List.filterMap_append

/-- What a handler does to its server, if it applies the given request. -/
structure Applied (tz : TimeZone) (s : SNSServer) (x : Option (Method × Request)) (s' : SNSServer) : Prop where
  stored : Stored tz s → (∀ y ∈ x, Storable tz y.1 y.2) → Stored tz s'
  process : SameProcess s s'
  graph : s'.graph = x.toList.foldl (update write) s.graph
  posts : s'.all_posts = s.all_posts ++ postsOf x.toList
  named : ∀ y ∈ x, namesUsers s.graph y = true

section

variable {tz : TimeZone} {s s' : SNSServer} {method : Method} {request : Request} {reply : Reply} {status : SNSStatus}

theorem HandleOutcome.posts (ho : HandleOutcome s tz request method s' status) :
    s'.all_posts = s.all_posts ++ postsOf [(method, request)] := by
  cases ho with
  | post hi hdata => rfl
  | _ => exact (List.append_nil _).symm

theorem applied_handle (h : WellFormed s) (hm : method ≠ .ADD_POST)
    (hr : s.handle tz method request = .ok (s', reply)) : Applied tz s (some (method, request)) s' where
  stored hs hx := hs.account (hx _ rfl) hm (handle_outcome h hr)
  process := handle_sameProcess hr
  graph := graph_handle h hr
  posts := HandleOutcome.posts (handle_outcome h hr)
  named y hy := by
    cases hy
    exact namesUsers_of_handle hr

variable {stream : StreamId} {message m : Message}

theorem applied_post (hr : s.timeline tz stream message = .ok (s', some m)) :
    Applied tz s (some (.ADD_POST, { message := m })) s' := by
  obtain ⟨rfl, i, a, data, hi, ha, hdata, rfl⟩ := timeline_some hr
  constructor
  · intro hs hx
    exact hs.post (hx _ rfl) hi hdata
  · exact ⟨rfl, rfl⟩
  · exact graph_congr rfl rfl
  · rfl
  · intro y hy
    cases hy
    simp [namesUsers, SNSServer.graph, SNSServer.hasUser, hi]

theorem applied_none (hm : s.master = true) (hr : s.timeline tz stream message = .ok (s', none)) :
    Applied tz s none s' := by
  have hnone : ∀ y ∈ (none : Option (Method × Request)), namesUsers s.graph y = true := by simp
  rcases timeline_none hm hr with rfl | ⟨i, a, posts, ha, rfl⟩
  · exact ⟨fun hs _ => hs, .refl _, rfl, (List.append_nil _).symm, hnone⟩
  · exact ⟨fun hs _ => hs.join ha, ⟨rfl, rfl⟩, graph_joinOf ha, (List.append_nil _).symm, hnone⟩

end

/-! ## Steps -/

inductive Outcome (tz : TimeZone) (c : State) : Event → State → Prop
  | registered {now : Int} {coordinator : SNSCoordinator} {status : Coordinator.Status} {path : Coordinator.Path}
      {slave : SNSServer} (hphase : c.phase = .starting)
      (hr : c.coordinator.heartbeat now c.slave.serverInfo = .ok (coordinator, status, path))
      (hok : status.code = .ok) (hslave : path.master = false) (hheap : slave.heap = c.slave.heap)
      (hdb : slave.client_db = c.slave.client_db) (hposts : slave.all_posts = c.slave.all_posts) :
      Outcome tz c (.heartbeat now) { c with coordinator, slave, phase := .registered }
  | rejected {now : Int} {coordinator : SNSCoordinator} (hphase : c.phase = .starting) :
      Outcome tz c (.heartbeat now) { c with coordinator, phase := .exited }
  | copied (hphase : c.phase = .registered) :
      Outcome tz c .getLog { c with phase := .synchronized c.master.getLog.1 c.master.getLog.2 }
  | initialized {userinfo posts : Str} {slave : SNSServer} (hphase : c.phase = .synchronized userinfo posts)
      (hr : c.slave.initializeData tz userinfo posts = .ok slave) :
      Outcome tz c .initializeData { c with slave, phase := .initialized }
  | failed {userinfo posts : Str} (hphase : c.phase = .synchronized userinfo posts) :
      Outcome tz c .initializeData { c with phase := .exited }
  | listening (hphase : c.phase = .initialized) : Outcome tz c .listen { c with phase := .listening }
  | applied {e : Event} {master : SNSServer} (hp : propogatedIn c e = none)
      (ha : Applied tz c.master (appliedIn tz c e) master) :
      Outcome tz c e { c with master, pending := c.pending ++ (appliedIn tz c e).toList }
  | propogated {i : Nat} {method : Method} {request : Request} {addrs : List Str}
      (hx : c.pending[i]? = some (method, request))
      (ha : recipients c.coordinator c.master request = .ok addrs) :
      Outcome tz c (.propogate i)
        (addrs.foldl (fun c addr => c.rpc tz method request addr) { c with pending := c.pending.eraseIdx i })

theorem step_outcome {tz : TimeZone} {c c' : State} {e : Event} (hwf : WellFormed c.master)
    (hm : c.master.master = true) (hs : c.step tz e = .ok c') : Outcome tz c e c' := by
  cases e with
  | heartbeat now =>
      rw [State.step] at hs
      cases hphase : c.phase with
      | starting =>
          simp only [hphase] at hs
          obtain ⟨⟨coordinator, status, path⟩, hr, hs⟩ := bind_eq_ok.mp hs
          by_cases hok : status.code = .ok
          · simp only [Heartbeats.received, hok, ↓reduceIte] at hs
            split_ifs at hs with hslave
            cases hs
            exact .registered hphase hr hok hslave.1 rfl rfl rfl
          · simp only [Heartbeats.received, hok, ↓reduceIte] at hs
            cases hs
            exact .rejected hphase
      | _ => simp [hphase] at hs
  | getLog =>
      rw [State.step] at hs
      cases hphase : c.phase with
      | registered =>
          simp only [hphase] at hs
          cases hs
          exact .copied hphase
      | _ => simp [hphase] at hs
  | initializeData =>
      rw [State.step] at hs
      cases hphase : c.phase with
      | synchronized userinfo posts =>
          simp only [hphase] at hs
          cases hr : c.slave.initializeData tz userinfo posts with
          | ok slave =>
              rw [hr] at hs
              cases hs
              exact .initialized hphase hr
          | error x =>
              rw [hr] at hs
              cases hs
              exact .failed hphase
      | _ => simp [hphase] at hs
  | listen =>
      rw [State.step] at hs
      cases hphase : c.phase with
      | initialized =>
          simp only [hphase] at hs
          cases hs
          exact .listening hphase
      | _ => simp [hphase] at hs
  | accept method request =>
      rw [State.step] at hs
      split_ifs at hs with hpost
      obtain ⟨⟨master, reply⟩, hr, hs⟩ := bind_eq_ok.mp hs
      cases hs
      exact .applied (e := .accept method request) rfl (applied_handle hwf hpost hr)
  | message stream message =>
      obtain ⟨⟨master, post⟩, hr, hs⟩ := bind_eq_ok.mp hs
      cases hs
      cases post with
      | some m =>
          have hx : appliedIn tz c (.message stream message) = some (.ADD_POST, { message := m }) := by
            rw [appliedIn, hr]
          have ha := applied_post hr
          rw [← hx] at ha
          have ho := Outcome.applied (c := c) (e := .message stream message) rfl ha
          rw [hx] at ho
          exact ho
      | none =>
          have hx : appliedIn tz c (.message stream message) = none := by
            rw [appliedIn, hr]
          have ha := applied_none hm hr
          rw [← hx] at ha
          have ho := Outcome.applied (c := c) (e := .message stream message) rfl ha
          rw [hx] at ho
          exact ho
  | propogate i =>
      rw [State.step] at hs
      cases hx : c.pending[i]? with
      | none => simp [hx] at hs
      | some x =>
          simp only [hx] at hs
          obtain ⟨addrs, ha, hs⟩ := bind_eq_ok.mp hs
          cases hs
          exact .propogated hx ha

/-! ## Histories -/

section

variable {tz : TimeZone} {tr : List (State × Event)} {c : State} {e : Event}

theorem filterMap_concat {α β : Type} (f : α → Option β) (l : List α) (x : α) :
    (l ++ [x]).filterMap f = l.filterMap f ++ (f x).toList := by
  rw [List.filterMap_append]
  cases h : f x <;> simp [h]

theorem appliedBefore_concat : appliedBefore tz (tr ++ [(c, e)]) =
    appliedBefore tz tr ++ if c.phase.copied then [] else (appliedIn tz c e).toList := by
  rw [appliedBefore, filterMap_concat]
  split <;> rfl

theorem appliedAfter_concat : appliedAfter tz (tr ++ [(c, e)]) =
    appliedAfter tz tr ++ if c.phase.copied then (appliedIn tz c e).toList else [] := by
  rw [appliedAfter, filterMap_concat]
  split <;> rfl

theorem received_concat : received (tr ++ [(c, e)]) =
    received tr ++ if c.phase = .listening then (propogatedIn c e).toList else [] := by
  rw [received, filterMap_concat]
  split <;> rfl

theorem missed_concat : missed (tr ++ [(c, e)]) =
    missed tr ++ if c.phase = .listening then [] else (propogatedIn c e).toList := by
  rw [missed, filterMap_concat]
  split <;> rfl

theorem appliedBefore_of_none (hx : appliedIn tz c e = none) :
    appliedBefore tz (tr ++ [(c, e)]) = appliedBefore tz tr := by
  simp [appliedBefore_concat, hx]

theorem appliedAfter_of_none (hx : appliedIn tz c e = none) :
    appliedAfter tz (tr ++ [(c, e)]) = appliedAfter tz tr := by
  simp [appliedAfter_concat, hx]

theorem received_of_none (hp : propogatedIn c e = none) : received (tr ++ [(c, e)]) = received tr := by
  simp [received_concat, hp]

theorem missed_of_none (hp : propogatedIn c e = none) : missed (tr ++ [(c, e)]) = missed tr := by
  simp [missed_concat, hp]

end

/-! ## The master -/

/-- The master's files hold its state, it has applied the requests of the history, and each of them is either pending
or has been propagated once. -/
structure MasterInv (tz : TimeZone) (c₀ : State) (tr : List (State × Event)) (c : State) : Prop where
  stored : Stored tz c.master
  process : SameProcess c₀.master c.master
  graph : c.master.graph = (appliedBefore tz tr ++ appliedAfter tz tr).foldl (update write) c₀.master.graph
  named : findUsers c₀.master.graph (appliedBefore tz tr ++ appliedAfter tz tr) = true
  fresh : c.phase.copied = false → appliedAfter tz tr = []
  writable : ∀ y ∈ c.pending, Writable tz y
  handed : (missed tr ++ received tr ++ c.pending).Perm (appliedBefore tz tr ++ appliedAfter tz tr)

section

variable {tz : TimeZone} {c₀ c c' : State} {tr : List (State × Event)} {e : Event}

theorem MasterInv.start (h : c.Start tz) : MasterInv tz c [] c where
  stored := h.stored
  process := .refl _
  graph := rfl
  named := rfl
  fresh _ := rfl
  writable y hy := by
    rw [h.pending] at hy
    cases hy
  handed := by
    rw [h.pending]
    exact .refl _

theorem MasterInv.frame (h : MasterInv tz c₀ tr c) (hx : appliedIn tz c e = none) (hp : propogatedIn c e = none)
    (hmaster : c'.master = c.master) (hpending : c'.pending = c.pending)
    (hcopied : c'.phase.copied = false → c.phase.copied = false) : MasterInv tz c₀ (tr ++ [(c, e)]) c' := by
  constructor
  · rw [hmaster]
    exact h.stored
  · rw [hmaster]
    exact h.process
  · rw [hmaster, appliedBefore_of_none hx, appliedAfter_of_none hx, h.graph]
  · rw [appliedBefore_of_none hx, appliedAfter_of_none hx, h.named]
  · intro hc
    rw [appliedAfter_of_none hx, h.fresh (hcopied hc)]
  · rw [hpending]
    exact h.writable
  · rw [missed_of_none hp, received_of_none hp, hpending, appliedBefore_of_none hx, appliedAfter_of_none hx]
    exact h.handed

/-- What is applied comes after everything which has been applied. -/
theorem MasterInv.applied_concat (h : MasterInv tz c₀ tr c) :
    appliedBefore tz (tr ++ [(c, e)]) ++ appliedAfter tz (tr ++ [(c, e)]) =
      appliedBefore tz tr ++ appliedAfter tz tr ++ (appliedIn tz c e).toList := by
  rw [appliedBefore_concat, appliedAfter_concat]
  cases hc : c.phase.copied with
  | false => simp [h.fresh hc]
  | true => simp

theorem MasterInv.applied (h : MasterInv tz c₀ tr c) (hclean : Clean tz c e) {master : SNSServer}
    (hp : propogatedIn c e = none) (ha : Applied tz c.master (appliedIn tz c e) master) :
    MasterInv tz c₀ (tr ++ [(c, e)]) { c with master, pending := c.pending ++ (appliedIn tz c e).toList } := by
  constructor
  · exact ha.stored h.stored hclean
  · exact ⟨ha.process.serverInfo.trans h.process.serverInfo, ha.process.master.trans h.process.master⟩
  · rw [h.applied_concat, List.foldl_append, ← h.graph]
    exact ha.graph
  · rw [h.applied_concat]
    cases hx : appliedIn tz c e with
    | none => simpa using h.named
    | some x =>
        rw [Option.toList_some, findUsers_concat, h.named, ← h.graph, ha.named x hx, Bool.and_self]
  · intro hc
    replace hc : c.phase.copied = false := hc
    rw [appliedAfter_concat, h.fresh hc, hc]
    rfl
  · intro y hy
    rcases List.mem_append.mp hy with hy | hy
    · exact h.writable y hy
    · exact (hclean y (Option.mem_toList.mp hy)).writable
  · rw [h.applied_concat, missed_of_none hp, received_of_none hp, ← List.append_assoc]
    exact h.handed.append_right _

theorem MasterInv.propogated (h : MasterInv tz c₀ tr c) {i : Nat} {x : Method × Request}
    (hx : c.pending[i]? = some x) (hu : Untouched { c with pending := c.pending.eraseIdx i } c') :
    MasterInv tz c₀ (tr ++ [(c, .propogate i)]) c' := by
  have hbefore : appliedBefore tz (tr ++ [(c, .propogate i)]) = appliedBefore tz tr := appliedBefore_of_none rfl
  have hafter : appliedAfter tz (tr ++ [(c, .propogate i)]) = appliedAfter tz tr := appliedAfter_of_none rfl
  have hpending : c'.pending = c.pending.eraseIdx i := hu.pending
  obtain ⟨hi, rfl⟩ := List.getElem?_eq_some_iff.mp hx
  have hperm := List.getElem_cons_eraseIdx_perm hi
  constructor
  · rw [hu.master]
    exact h.stored
  · rw [hu.master]
    exact h.process
  · rw [hu.master, hbefore, hafter]
    exact h.graph
  · rw [hbefore, hafter, h.named]
  · intro hc
    rw [hu.copied] at hc
    rw [hafter, h.fresh hc]
  · intro y hy
    rw [hpending] at hy
    exact h.writable y (List.mem_of_mem_eraseIdx hy)
  · rw [hbefore, hafter, missed_concat, received_concat, hpending]
    refine .trans ?_ h.handed
    have hpropogated : propogatedIn c (.propogate i) = some c.pending[i] := hx
    rw [hpropogated, Option.toList_some]
    split_ifs
    · rw [List.append_nil, ← List.append_assoc, List.append_assoc (missed tr ++ received tr)]
      exact hperm.append_left _
    · rw [List.append_nil]
      have hmove : (missed tr ++ [c.pending[i]] ++ received tr).Perm (missed tr ++ received tr ++ [c.pending[i]]) := by
        rw [List.append_assoc, List.append_assoc]
        exact List.perm_append_comm.append_left _
      refine (hmove.append_right _).trans ?_
      rw [List.append_assoc]
      exact hperm.append_left _

theorem MasterInv.step (h : MasterInv tz c₀ tr c) (hclean : Clean tz c e) (ho : Outcome tz c e c') :
    MasterInv tz c₀ (tr ++ [(c, e)]) c' := by
  cases ho with
  | registered hphase => exact h.frame rfl rfl rfl rfl fun _ => by rw [hphase]; rfl
  | rejected hphase => exact h.frame rfl rfl rfl rfl nofun
  | copied hphase => exact h.frame rfl rfl rfl rfl nofun
  | initialized hphase hr => exact h.frame rfl rfl rfl rfl nofun
  | failed hphase => exact h.frame rfl rfl rfl rfl nofun
  | listening hphase => exact h.frame rfl rfl rfl rfl nofun
  | applied hp ha => exact h.applied hclean hp ha
  | propogated hx ha => exact h.propogated hx untouched_foldl_rpc

end

/-! ## The joining process -/

/-- The state the master was in when the snapshot was made. -/
structure Snapshot (tz : TimeZone) (c₀ : State) (tr : List (State × Event)) (c : State) (s : SNSServer) : Prop where
  stored : Stored tz s
  graph : s.graph = (appliedBefore tz tr).foldl (update write) c₀.master.graph
  posts : c.master.all_posts = s.all_posts ++ postsOf (appliedAfter tz tr)

/-- The slave has the snapshot and what it has received. -/
structure Caught (tz : TimeZone) (c₀ : State) (tr : List (State × Event)) (c : State) : Prop where
  wellFormed : WellFormed c.slave
  graph : c.slave.graph = (appliedBefore tz tr ++ received tr).foldl (update write) c₀.master.graph
  known : findUsers ((appliedBefore tz tr).foldl (update write) c₀.master.graph) (received tr) = true
  posts : ∃ ps qs, List.Forall₂ (SamePost tz) ps qs ∧ c.slave.all_posts = qs ++ postsOf (received tr) ∧
    c.master.all_posts = ps ++ postsOf (appliedAfter tz tr)

inductive Progress (tz : TimeZone) (c₀ : State) (tr : List (State × Event)) (c : State) : Phase → Prop
  | starting (hcoordinator : c.coordinator = c₀.coordinator) (hslave : c.slave = c₀.slave)
      (haddr : c.serverAddress = c₀.serverAddress) (hr : received tr = []) : Progress tz c₀ tr c .starting
  | registered (he : Enlisted c) (hfresh : Fresh c.slave) (hposts : c.slave.all_posts = []) (hr : received tr = []) :
      Progress tz c₀ tr c .registered
  | synchronized {s : SNSServer} (he : Enlisted c) (hfresh : Fresh c.slave) (hposts : c.slave.all_posts = [])
      (hr : received tr = []) (hs : Snapshot tz c₀ tr c s) :
      Progress tz c₀ tr c (.synchronized s.getLog.1 s.getLog.2)
  | initialized (he : Enlisted c) (hr : received tr = []) (hc : Caught tz c₀ tr c) : Progress tz c₀ tr c .initialized
  | listening (he : Enlisted c) (hc : Caught tz c₀ tr c) : Progress tz c₀ tr c .listening
  | exited : Progress tz c₀ tr c .exited
  | crashed (h : findUsers ((appliedBefore tz tr).foldl (update write) c₀.master.graph) (received tr) = false) :
      Progress tz c₀ tr c .crashed

section

variable {tz : TimeZone} {c₀ c c' : State} {tr : List (State × Event)} {e : Event}

theorem Enlisted.congr (h : Enlisted c) (hcoordinator : c'.coordinator = c.coordinator)
    (hmaster : SameProcess c.master c'.master) (haddr : c'.serverAddress = c.serverAddress) : Enlisted c' := by
  intro request
  obtain ⟨addrs, haddrs, hcount⟩ := h request
  refine ⟨addrs, ?_, by rwa [haddr]⟩
  rw [← haddrs, recipients, recipients, hmaster.master, hmaster.serverInfo, hcoordinator]

/-- A request which the master applies comes after the snapshot, if there is one. -/
theorem Progress.applied (h : Progress tz c₀ tr c c.phase) {master : SNSServer} (hp : propogatedIn c e = none)
    (ha : Applied tz c.master (appliedIn tz c e) master) {pending : List (Method × Request)} :
    Progress tz c₀ (tr ++ [(c, e)]) { c with master, pending } c.phase := by
  have hreceived : received (tr ++ [(c, e)]) = received tr := received_of_none hp
  have hbefore (hc : c.phase.copied = true) : appliedBefore tz (tr ++ [(c, e)]) = appliedBefore tz tr := by
    simp [appliedBefore_concat, hc]
  have hposts (hc : c.phase.copied = true) {ps : List Post}
      (hps : c.master.all_posts = ps ++ postsOf (appliedAfter tz tr)) :
      master.all_posts = ps ++ postsOf (appliedAfter tz (tr ++ [(c, e)])) := by
    rw [appliedAfter_concat, hc, if_pos rfl, postsOf_append, ← List.append_assoc, ← hps]
    exact ha.posts
  have henlisted (he : Enlisted c) : Enlisted { c with master, pending } := he.congr rfl ha.process rfl
  have hcaught (hc : c.phase.copied = true) (hcaught : Caught tz c₀ tr c) :
      Caught tz c₀ (tr ++ [(c, e)]) { c with master, pending } := by
    obtain ⟨ps, qs, hsame, hslave, hmaster⟩ := hcaught.posts
    refine ⟨hcaught.wellFormed, ?_, ?_, ps, qs, hsame, ?_, hposts hc hmaster⟩
    · rw [hbefore hc, hreceived]
      exact hcaught.graph
    · rw [hbefore hc, hreceived]
      exact hcaught.known
    · rw [hreceived]
      exact hslave
  generalize hphase : c.phase = phase at h hbefore hposts hcaught
  cases h with
  | starting hcoordinator hslave haddr hr => exact .starting hcoordinator hslave haddr (hreceived.trans hr)
  | registered he hfresh hempty hr => exact .registered (henlisted he) hfresh hempty (hreceived.trans hr)
  | synchronized he hfresh hempty hr hs =>
      refine .synchronized (henlisted he) hfresh hempty (hreceived.trans hr) ⟨hs.stored, ?_, hposts rfl hs.posts⟩
      rw [hbefore rfl]
      exact hs.graph
  | initialized he hr hc => exact .initialized (henlisted he) (hreceived.trans hr) (hcaught rfl hc)
  | listening he hc => exact .listening (henlisted he) (hcaught rfl hc)
  | exited => exact .exited
  | crashed hcrash =>
      refine .crashed ?_
      rw [hbefore rfl, hreceived]
      exact hcrash

/-- A step of the joining process, or a propagation which does not reach it, leaves the histories alone. -/
theorem Caught.congr (h : Caught tz c₀ tr c) (hx : appliedIn tz c e = none)
    (hr : received (tr ++ [(c, e)]) = received tr) (hslave : c'.slave = c.slave) (hmaster : c'.master = c.master) :
    Caught tz c₀ (tr ++ [(c, e)]) c' := by
  constructor
  · rw [hslave]
    exact h.wellFormed
  · rw [hslave, appliedBefore_of_none hx, hr]
    exact h.graph
  · rw [appliedBefore_of_none hx, hr]
    exact h.known
  · rw [hslave, hmaster, appliedAfter_of_none hx, hr]
    exact h.posts

theorem Snapshot.congr {s : SNSServer} (h : Snapshot tz c₀ tr c s) (hx : appliedIn tz c e = none)
    (hmaster : c'.master = c.master) : Snapshot tz c₀ (tr ++ [(c, e)]) c' s := by
  constructor
  · exact h.stored
  · rw [appliedBefore_of_none hx]
    exact h.graph
  · rw [hmaster, appliedAfter_of_none hx]
    exact h.posts

/-- A listening slave handles what it receives, or the users it does not find end it. -/
theorem Progress.deliver (he : Enlisted c) (hc : Caught tz c₀ tr c) (hphase : c.phase = .listening) {i : Nat}
    {method : Method} {request : Request} (hx : c.pending[i]? = some (method, request))
    (hw : Writable tz (method, request)) :
    Progress tz c₀ (tr ++ [(c, .propogate i)])
      ({ c with pending := c.pending.eraseIdx i }.rpc tz method request c.serverAddress)
      ({ c with pending := c.pending.eraseIdx i }.rpc tz method request c.serverAddress).phase := by
  have hbefore : appliedBefore tz (tr ++ [(c, .propogate i)]) = appliedBefore tz tr := appliedBefore_of_none rfl
  have hafter : appliedAfter tz (tr ++ [(c, .propogate i)]) = appliedAfter tz tr := appliedAfter_of_none rfl
  have hreceived : received (tr ++ [(c, .propogate i)]) = received tr ++ [(method, request)] := by
    rw [received_concat, if_pos hphase, propogatedIn, hx, Option.toList_some]
  have hknown : findUsers ((appliedBefore tz tr).foldl (update write) c₀.master.graph)
      (received tr ++ [(method, request)]) = namesUsers c.slave.graph (method, request) := by
    rw [findUsers_concat, hc.known, Bool.true_and, ← List.foldl_append, hc.graph]
  have hforwarded : namesUsers c.slave.graph (method, forwarded request) =
      namesUsers c.slave.graph (method, request) := by cases method <;> rfl
  rw [State.rpc, if_pos ⟨rfl, hphase⟩]
  cases hr : c.slave.handle tz method (forwarded request) with
  | error x =>
      have hnot : namesUsers c.slave.graph (method, request) = false := by
        rw [← Bool.not_eq_true]
        intro hn
        have hw' : Writable tz (method, forwarded request) := ⟨hw.follow, hw.post⟩
        obtain ⟨s', reply, hok⟩ := hc.wellFormed.handle_total hw' (hforwarded.trans hn)
        rw [hr] at hok
        cases hok
      refine .crashed ?_
      rw [hbefore, hreceived, hknown, hnot]
  | ok r =>
      obtain ⟨slave, reply⟩ := r
      have ho := handle_outcome hc.wellFormed hr
      obtain ⟨ps, qs, hsame, hslave, hmaster⟩ := hc.posts
      simp only [hphase]
      refine .listening (he.congr rfl (.refl _) rfl) ⟨ho.wellFormed hc.wellFormed, ?_, ?_, ps, qs, hsame, ?_, ?_⟩
      · rw [hbefore, hreceived, ← List.append_assoc, List.foldl_append, ← hc.graph]
        rw [graph_handle hc.wellFormed hr]
        exact Lib.update_congr write (write_from_server method request true) _
      · rw [hbefore, hreceived, hknown, ← hforwarded]
        exact namesUsers_of_handle hr
      · have hpost : postsOf [(method, forwarded request)] = postsOf [(method, request)] := by cases method <;> rfl
        rw [hreceived, postsOf_append, ← List.append_assoc, ← hslave, ← hpost]
        exact HandleOutcome.posts ho
      · rw [hafter]
        exact hmaster

theorem Progress.step (h₀ : c₀.Start tz) (hm : MasterInv tz c₀ tr c) (h : Progress tz c₀ tr c c.phase)
    (ho : Outcome tz c e c') : Progress tz c₀ (tr ++ [(c, e)]) c' c'.phase := by
  cases ho with
  | registered hphase hr hok hslave hheap hdb hposts =>
      rw [hphase] at h
      cases h with
      | starting hcoordinator hsame haddr hreceived =>
          have hslave₀ : c.slave = c₀.slave := hsame
          rw [hcoordinator, hsame] at hr
          have he := enlisted_of_heartbeat h₀ c.slave .registered hr hok hslave
          refine .registered (he.congr rfl hm.process haddr) ?_ ?_ ?_
          · exact ⟨hheap.trans (hsame ▸ h₀.fresh.heap), hdb.trans (hsame ▸ h₀.fresh.client_db)⟩
          · exact hposts.trans (hsame ▸ h₀.posts)
          · exact (received_of_none rfl).trans hreceived
  | rejected hphase => exact .exited
  | copied hphase =>
      have hcopied : c.phase.copied = false := by rw [hphase]; rfl
      rw [hphase] at h
      cases h with
      | registered he hfresh hposts hreceived =>
          refine .synchronized (he.congr rfl (.refl _) rfl) hfresh hposts ?_ ⟨hm.stored, ?_, ?_⟩
          · exact (received_of_none rfl).trans hreceived
          · rw [hm.graph, hm.fresh hcopied, appliedBefore_concat]
            simp [appliedIn]
          · rw [appliedAfter_concat, hm.fresh hcopied, hcopied]
            simp [postsOf]
  | initialized hphase hr =>
      rw [hphase] at h
      cases h with
      | @synchronized snapshot he hfresh hposts hreceived hs =>
          obtain ⟨slave, hslave, hwf, hgraph, hsame⟩ := hs.stored.initializeData hfresh hposts
          rw [hr, Except.ok.injEq] at hslave
          subst hslave
          have hnext : Snapshot tz c₀ (tr ++ [(c, .initializeData)]) c snapshot := hs.congr rfl rfl
          have hnone : received (tr ++ [(c, .initializeData)]) = [] := (received_of_none rfl).trans hreceived
          refine .initialized (he.congr rfl (.refl _) rfl) hnone ⟨hwf, ?_, ?_, _, _, hsame, ?_, hnext.posts⟩
          · rw [hnone, List.append_nil, ← hnext.graph]
            exact hgraph
          · rw [hnone]
            rfl
          · rw [hnone]
            exact (List.append_nil _).symm
  | failed hphase => exact .exited
  | listening hphase =>
      rw [hphase] at h
      cases h with
      | initialized he hreceived hc =>
          exact .listening (he.congr rfl (.refl _) rfl) (hc.congr rfl (received_of_none rfl) rfl rfl)
  | applied hp ha => exact h.applied hp ha
  | @propogated i method request addrs hx ha =>
      by_cases hlisten : c.phase = .listening
      · rw [hlisten] at h
        cases h with
        | listening he hc =>
            obtain ⟨addrs', haddrs, hcount⟩ := he request
            rw [ha, Except.ok.injEq] at haddrs
            subst haddrs
            rw [foldl_rpc (c := { c with pending := c.pending.eraseIdx i }) hcount]
            exact .deliver he hc hlisten hx (hm.writable _ (List.mem_of_getElem? hx))
      · rw [foldl_rpc_of_not_listening (c := { c with pending := c.pending.eraseIdx i }) hlisten]
        have hsame : received (tr ++ [(c, .propogate i)]) = received tr := by simp [received_concat, hlisten]
        have hbefore : appliedBefore tz (tr ++ [(c, .propogate i)]) = appliedBefore tz tr := appliedBefore_of_none rfl
        show Progress tz c₀ _ _ c.phase
        generalize c.phase = phase at h hlisten
        cases h with
        | starting hcoordinator hslave haddr hr => exact .starting hcoordinator hslave haddr (hsame.trans hr)
        | registered he hfresh hposts hr =>
            exact .registered (he.congr rfl (.refl _) rfl) hfresh hposts (hsame.trans hr)
        | synchronized he hfresh hposts hr hs =>
            exact .synchronized (he.congr rfl (.refl _) rfl) hfresh hposts (hsame.trans hr) (hs.congr rfl rfl)
        | initialized he hr hc =>
            exact .initialized (he.congr rfl (.refl _) rfl) (hsame.trans hr) (hc.congr rfl hsame rfl rfl)
        | listening he hc => exact absurd rfl hlisten
        | exited => exact .exited
        | crashed hcrash =>
            refine .crashed ?_
            rw [hbefore, hsame]
            exact hcrash

/-- What holds in every run whose requests can be stored. -/
theorem progress_of_run (h₀ : c₀.Start tz) (hrun : (machine tz).Run c₀ tr c)
    (hclean : ∀ x ∈ tr, Clean tz x.1 x.2) : MasterInv tz c₀ tr c ∧ Progress tz c₀ tr c c.phase := by
  induction hrun with
  | nil =>
      refine ⟨.start h₀, ?_⟩
      rw [h₀.phase]
      exact .starting rfl rfl rfl rfl
  | @snoc tr c e c' hrun hstep ih =>
      obtain ⟨hm, hp⟩ := ih fun x hx => hclean x (List.mem_append_left _ hx)
      have hmaster : c.master.master = true := hm.process.master.trans h₀.master
      have ho := step_outcome hm.stored.wellFormed hmaster hstep
      have hce := hclean (c, e) (List.mem_append_right _ List.mem_cons_self)
      exact ⟨hm.step hce ho, hp.step h₀ hm ho⟩

end

end DistributedSns.System.Join
