import DistributedSns.System.Failover
import DistributedSns.System.Lemmas.Heartbeats
import DistributedSns.System.Lemmas.Topology

/-!
# What a process has seen of the requests

Every server keeps the address it has at the coordinator. A process which does not miss a request has handled
all of them, or a task that is left leads to it.
-/

namespace DistributedSns.System.Failover

open Lib (update)
open Coordinator (SNSCoordinator ServerInfo Status Path ZNode)
open Server
open Server.SNSServer (Method)
open Coordinator (heartbeat_entry check_entry)
open Heartbeats (zNode?_of_coordinator)

/-! ## The cluster -/

/-- The address the coordinator has for a server. -/
def entryAddress (c : Heartbeats.State) (i : Nat) (k : Int) : Option Str := (c.zNode? i k).map ZNode.getAddress

structure ClusterInv (i : Nat) (c : Heartbeats.State) : Prop where
  inv : Coordinator.Inv c.network.coordinator
  cluster : ∀ (j : Nat) (k : Int), j ≠ i → entryAddress c j k = none
  process : ∀ (addr : Str) (s : SNSServer), c.network.servers addr = some s →
    s.serverInfo.clusterid = i + 1 ∧ address s.serverInfo = addr ∧
      entryAddress c i s.serverInfo.serverid = some addr
  request : ∀ (addr : Str) (info : ServerInfo), c.inFlight addr = .request info →
    info.clusterid = i + 1 ∧ entryAddress c i info.serverid = some (address info)

section

variable {i : Nat} {c c' : Heartbeats.State} {e : Heartbeats.Event}

theorem entryAddress_of_coordinator (h : c'.network.coordinator = c.network.coordinator) :
    entryAddress c' = entryAddress c := by
  funext j k
  rw [entryAddress, entryAddress, zNode?_of_coordinator h]

/-- A check changes no address. -/
theorem entryAddress_check {now : Int} {j : Nat} {k : Int} {coordinator : SNSCoordinator}
    (hr : c.network.coordinator.checkServer now j k = .ok coordinator) :
    entryAddress (c.setCoordinator coordinator) = entryAddress c := by
  rcases check_entry (Coordinator.check_outcome hr) with hc | ⟨z, z', hz, haddr, -, hzNode⟩
  · exact entryAddress_of_coordinator hc
  · funext j' k'
    rw [entryAddress, entryAddress, Heartbeats.State.zNode?, Heartbeats.coordinator_setCoordinator, hzNode]
    split_ifs with hjk
    · rw [Heartbeats.State.zNode?, hjk.1, hjk.2, hz, Option.map_some, Option.map_some, haddr]
    · rfl

/-- Nor does a heartbeat of a server which keeps its address. -/
theorem ClusterInv.entryAddress_handle (h : ClusterInv i c) {now : Int} {addr : Str} {info : ServerInfo}
    {coordinator : SNSCoordinator} {status : Status} {path : Path} (hm : c.inFlight addr = .request info)
    (hr : c.network.coordinator.heartbeat now info = .ok (coordinator, status, path)) :
    entryAddress (c.setCoordinator coordinator) = entryAddress c := by
  obtain ⟨hid, haddr⟩ := h.request addr info hm
  rcases heartbeat_entry (Coordinator.heartbeat_outcome h.inv.service hr) with ⟨hc, -, -⟩ | ⟨j, z, he⟩
  · exact entryAddress_of_coordinator hc
  · funext j' k'
    have hz : coordinator.zNode? j' k' = _ := he.zNode? j' k'
    rw [entryAddress, Heartbeats.State.zNode?, Heartbeats.coordinator_setCoordinator, hz]
    split_ifs with hjk
    · have hj := he.accepts.clusterid
      obtain rfl : j' = i := by omega
      rw [hjk.2, haddr, Option.map_some]
      exact congrArg some he.address
    · rfl

theorem entryAddress_step (h : ClusterInv i c) (hstart : isStart e = false) (ho : Heartbeats.Outcome c e c') :
    entryAddress c' = entryAddress c := by
  cases ho with
  | start hdead hidle => cases hstart
  | sendHeartbeat hs hidle => exact entryAddress_of_coordinator rfl
  | handle hm hr => exact h.entryAddress_handle hm hr
  | receive hm => exact entryAddress_of_coordinator rfl
  | check hr => exact entryAddress_check hr
  | exit => exact entryAddress_of_coordinator rfl

/-- What a step of the heartbeats leaves of a process: only its flag and its registration may change. -/
theorem servers_step (hstart : isStart e = false) (ho : Heartbeats.Outcome c e c') {addr : Str} {s' : SNSServer}
    (hs' : c'.network.servers addr = some s') : ∃ s, c.network.servers addr = some s ∧
      s' = { s with serverInfo := { s.serverInfo with registered := s'.serverInfo.registered }, master := s'.master } := by
  cases ho with
  | start hdead hidle => cases hstart
  | sendHeartbeat hs hidle => exact ⟨s', hs', rfl⟩
  | handle hm hr => exact ⟨s', hs', rfl⟩
  | @receive q status path hm =>
      simp only [Heartbeats.network_setInFlight, Heartbeats.servers_setServer] at hs'
      by_cases ha : addr = q
      · subst ha
        rw [Function.update_self, Option.bind_eq_some_iff] at hs'
        obtain ⟨s, hs, hs'⟩ := hs'
        rw [Heartbeats.received] at hs'
        split_ifs at hs'
        cases hs'
        exact ⟨s, hs, rfl⟩
      · rw [Function.update_of_ne ha] at hs'
        exact ⟨s', hs', rfl⟩
  | check hr => exact ⟨s', hs', rfl⟩
  | @exit q =>
      simp only [Heartbeats.servers_setServer] at hs'
      by_cases ha : addr = q
      · subst ha
        rw [Function.update_self] at hs'
        cases hs'
      · rw [Function.update_of_ne ha] at hs'
        exact ⟨s', hs', rfl⟩

/-- A heartbeat which is under way after a step was so before, or it is sent in the step. -/
theorem request_step (hstart : isStart e = false) (ho : Heartbeats.Outcome c e c') {addr : Str} {info : ServerInfo}
    (hr : c'.inFlight addr = .request info) :
    c.inFlight addr = .request info ∨ ∃ s, c.network.servers addr = some s ∧ info = s.serverInfo := by
  cases ho with
  | start hdead hidle => cases hstart
  | sendHeartbeat hs hidle =>
      rw [Heartbeats.inFlight_setInFlight, Function.update_apply] at hr
      split_ifs at hr with ha
      · subst ha
        cases hr
        exact Or.inr ⟨_, hs, rfl⟩
      · exact Or.inl hr
  | handle hm hb =>
      rw [Heartbeats.inFlight_setInFlight, Function.update_apply] at hr
      split_ifs at hr
      exact Or.inl hr
  | receive hm =>
      rw [Heartbeats.inFlight_setInFlight, Function.update_apply] at hr
      split_ifs at hr
      exact Or.inl hr
  | check hb => exact Or.inl hr
  | exit => exact Or.inl hr

theorem ClusterInv.step (h : ClusterInv i c) (hstart : isStart e = false) (ho : Heartbeats.Outcome c e c') :
    ClusterInv i c' := by
  have haddr := entryAddress_step h hstart ho
  constructor
  · exact (ho.kept h.inv).inv
  · rw [haddr]
    exact h.cluster
  · intro addr s' hs'
    obtain ⟨s, hs, heq⟩ := servers_step hstart ho hs'
    rw [haddr, heq]
    exact h.process addr s hs
  · rw [haddr]
    intro addr info hr
    rcases request_step hstart ho hr with hr | ⟨s, hs, rfl⟩
    · exact h.request addr info hr
    · obtain ⟨hid, hself, hentry⟩ := h.process addr s hs
      exact ⟨hid, by rw [hentry, hself]⟩

/-- A handler keeps the identity of its process. -/
theorem ClusterInv.setServer (h : ClusterInv i c) {addr : Str} {s' : Option SNSServer}
    (hs' : ∀ t ∈ s', ∃ s, c.network.servers addr = some s ∧ t.serverInfo = s.serverInfo) :
    ClusterInv i (c.setServer addr s') := by
  constructor
  · exact h.inv
  · exact h.cluster
  · intro a t ht
    rw [Heartbeats.servers_setServer] at ht
    by_cases ha : a = addr
    · subst ha
      rw [Function.update_self] at ht
      obtain ⟨s, hs, heq⟩ := hs' t ht
      rw [heq]
      exact h.process a s hs
    · rw [Function.update_of_ne ha] at ht
      exact h.process a t ht
  · exact h.request

/-- The counterparts of a process have the addresses of all active servers but its own. -/
theorem ClusterInv.call_mem (h : ClusterInv i c) {root addr : Str} {s : SNSServer} {infos : List ServerInfo}
    (hs : c.network.servers root = some s) (hne : root ≠ addr)
    (hl : serverList c.network.coordinator s.serverInfo .COUNTERPARTS = .ok infos) {j : Nat} {k : Int} {z : ZNode}
    (hz : c.zNode? j k = some z) (haddr : z.getAddress = addr) (ha : z.isActive = true) :
    addr ∈ infos.map address := by
  have hj : j = i := by
    by_contra hj
    have := h.cluster j k hj
    rw [entryAddress, hz] at this
    cases this
  subst hj
  obtain ⟨hid, -, hroot⟩ := h.process root s hs
  rw [serverList_counterparts (SNSCoordinator.lt_length_of_zNode? hz) hid, Except.ok.injEq] at hl
  rw [← hl, List.map_map]
  refine List.mem_map.mpr ⟨(k, z), mem_counterparts.mpr ⟨hz, ?_, ha⟩, haddr⟩
  rintro rfl
  rw [entryAddress, hz, Option.map_some, Option.some.injEq] at hroot
  exact hne (hroot.symm.trans haddr)

end

/-! ## Steps -/

def Task.job : Task → Method × Request
  | .call _ _ method request => (method, request)
  | .propogate _ method request => (method, request)
  | .propogateHelper _ method request _ => (method, request)

inductive Outcome (tz : TimeZone) (c : State) : Event → State → Prop
  | heartbeat {e : Heartbeats.Event} {cluster : Heartbeats.State} (hstart : isStart e = false)
      (ho : Heartbeats.Outcome c.cluster e cluster) : Outcome tz c (.heartbeat e) { c with cluster }
  | accept {addr : Str} {method : Method} {request : Request} (ha : Accepts c addr method request) :
      Outcome tz c (.accept addr method request)
        { (c.handle tz addr method request).1 with tasks := (c.handle tz addr method request).2 }
  | drop {task : Task} {rest : List Task} (htasks : c.tasks = task :: rest)
      (hdead : c.servers task.process = none) : Outcome tz c .run { c with tasks := rest }
  | call {caller addr : Str} {method : Method} {request : Request} {rest : List Task}
      (htasks : c.tasks = .call caller addr method request :: rest) :
      Outcome tz c .run
        { (c.handle tz addr method request).1 with tasks := (c.handle tz addr method request).2 ++ rest }
  | propogate {addr : Str} {method : Method} {request : Request} {rest : List Task} {s : SNSServer}
      (htasks : c.tasks = .propogate addr method request :: rest) (hs : c.servers addr = some s) :
      Outcome tz c .run { c with tasks := State.propogations s addr method request ++ rest }
  | propogateHelper {addr : Str} {method : Method} {request : Request} {destination : Destination}
      {rest : List Task} {s : SNSServer} {infos : List ServerInfo}
      (htasks : c.tasks = .propogateHelper addr method request destination :: rest)
      (hs : c.servers addr = some s)
      (hl : serverList c.cluster.network.coordinator s.serverInfo destination = .ok infos) :
      Outcome tz c .run
        { c with tasks := infos.map (fun s => .call addr (address s) method { request with from_server := true }) ++
          rest }

section

variable {tz : TimeZone} {c c' : State} {e : Event} {addr a : Str} {method : Method} {request : Request}

theorem step_outcome (h : c.step tz e = .ok c') : Outcome tz c e c' := by
  cases e with
  | heartbeat e =>
      rw [State.step] at h
      split_ifs at h with hstart
      obtain ⟨cluster, hr, h⟩ := bind_eq_ok.mp h
      cases h
      exact .heartbeat (by simpa using hstart) (Heartbeats.step_outcome hr)
  | accept addr method request =>
      rw [State.step] at h
      split_ifs at h with ha
      cases h
      exact .accept ha
  | run =>
      rw [State.step] at h
      cases htasks : c.tasks with
      | nil =>
          rw [htasks] at h
          cases h
      | cons task rest =>
          simp only [htasks] at h
          cases hs : c.servers task.process with
          | none =>
              rw [hs, Except.ok.injEq] at h
              exact h ▸ .drop htasks hs
          | some s =>
              rw [hs] at h
              obtain ⟨⟨c₁, tasks⟩, hr, h⟩ := bind_eq_ok.mp h
              cases h
              cases task with
              | call caller addr method request =>
                  rw [State.perform, Except.ok.injEq, Prod.ext_iff] at hr
                  obtain ⟨rfl, rfl⟩ := hr
                  exact .call htasks
              | propogate addr method request =>
                  cases hr
                  exact .propogate htasks hs
              | propogateHelper addr method request destination =>
                  obtain ⟨infos, hl, hr⟩ := bind_eq_ok.mp hr
                  cases hr
                  exact .propogateHelper htasks hs hl

/-- A call to a dead process, one whose handler faults, and one whose handler returns. -/
theorem handle_cases (c : State) (tz : TimeZone) (addr : Str) (method : Method) (request : Request) :
    (c.servers addr = none ∧ c.handle tz addr method request = (c, [])) ∨
    (∃ s x, c.servers addr = some s ∧ s.handle tz method request = .error x ∧
      c.handle tz addr method request = (c.setServer addr none, [])) ∨
    (∃ s s' reply, c.servers addr = some s ∧ s.handle tz method request = .ok (s', reply) ∧
      c.handle tz addr method request = (c.setServer addr s', [.propogate addr method request])) := by
  cases hs : c.servers addr with
  | none => exact Or.inl ⟨rfl, by simp [State.handle, hs]⟩
  | some s =>
      cases hr : s.handle tz method request with
      | error x => exact Or.inr (Or.inl ⟨s, x, rfl, hr, by simp [State.handle, hs, hr]⟩)
      | ok r => exact Or.inr (Or.inr ⟨s, r.1, r.2, rfl, hr, by simp [State.handle, hs, hr]⟩)

theorem servers_set (c : State) (addr : Str) (s : Option SNSServer) (a : Str) :
    (c.setServer addr s).servers a = if a = addr then s else c.servers a :=
  Function.update_apply ..

theorem servers_handle_of_ne (ha : a ≠ addr) : (c.handle tz addr method request).1.servers a = c.servers a := by
  rcases handle_cases c tz addr method request with ⟨-, he⟩ | ⟨s, x, -, -, he⟩ | ⟨s, s', reply, -, -, he⟩
  · rw [he]
  · rw [he, servers_set, if_neg ha]
  · rw [he, servers_set, if_neg ha]

theorem servers_handle_self {s' : SNSServer} (hs' : (c.handle tz addr method request).1.servers addr = some s') :
    ∃ s reply, c.servers addr = some s ∧ s.handle tz method request = .ok (s', reply) := by
  rcases handle_cases c tz addr method request with ⟨hnone, he⟩ | ⟨s, x, -, -, he⟩ | ⟨s, t, reply, hs, hr, he⟩
  · rw [he, hnone] at hs'
    cases hs'
  · rw [he, servers_set, if_pos rfl] at hs'
    cases hs'
  · rw [he, servers_set, if_pos rfl, Option.some.injEq] at hs'
    exact ⟨s, reply, hs, hs' ▸ hr⟩

/-- The one task which comes from a call whose handler returns. -/
theorem mem_handle {t : Task} (ht : t ∈ (c.handle tz addr method request).2) : t = .propogate addr method request ∧
    ∃ s s' reply, c.servers addr = some s ∧ s.handle tz method request = .ok (s', reply) := by
  rcases handle_cases c tz addr method request with ⟨-, he⟩ | ⟨s, x, -, -, he⟩ | ⟨s, s', reply, hs, hr, he⟩
  · rw [he] at ht
    cases ht
  · rw [he] at ht
    cases ht
  · rw [he] at ht
    exact ⟨List.mem_singleton.mp ht, s, s', reply, hs, hr⟩

theorem mem_propogations {s : SNSServer} {t : Task} (ht : t ∈ State.propogations s addr method request) :
    ∃ destination, t = .propogateHelper addr method request destination := by
  rw [State.propogations] at ht
  split_ifs at ht
  · rcases List.mem_cons.mp ht with ht | ht
    · exact ⟨_, ht⟩
    · exact ⟨_, List.mem_singleton.mp ht⟩
  · exact ⟨_, List.mem_singleton.mp ht⟩
  · cases ht

theorem clusterInv_handle {i : Nat} (h : ClusterInv i c.cluster) :
    ClusterInv i (c.handle tz addr method request).1.cluster := by
  rcases handle_cases c tz addr method request with ⟨-, he⟩ | ⟨s, x, -, -, he⟩ | ⟨s, s', reply, hs, hr, he⟩
  · rw [he]
    exact h
  · rw [he]
    exact h.setServer (by simp)
  · rw [he]
    apply h.setServer
    intro t ht
    cases ht
    exact ⟨s, hs, (handle_sameProcess hr).serverInfo⟩

end

/-! ## Runs -/

section

variable {tz : TimeZone} {i : Nat} {g : Graph} {tr : List (State × Event)} {c c' : State} {e : Event}

theorem accepted_concat : accepted tz (tr ++ [(c, e)]) = accepted tz tr ++ (acceptedIn tz c e).toList := by
  rw [accepted, List.filterMap_append, accepted]
  congr 1

theorem accepted_heartbeat (e : Heartbeats.Event) :
    accepted tz (tr ++ [(c, .heartbeat e)]) = accepted tz tr := by
  rw [accepted_concat]
  exact List.append_nil _

theorem accepted_run : accepted tz (tr ++ [(c, .run)]) = accepted tz tr := by
  rw [accepted_concat]
  exact List.append_nil _

/-- All tasks belong to the last request which has been accepted. -/
structure RunInv (tz : TimeZone) (i : Nat) (tr : List (State × Event)) (c : State) : Prop where
  cluster : ClusterInv i c.cluster
  wellFormed : ∀ (addr : Str) (s : SNSServer), c.servers addr = some s → WellFormed s
  tasks : ∀ t ∈ c.tasks, ∃ l x, accepted tz tr = l ++ [x] ∧ write t.job = write x.1

theorem RunInv.init (h : Start i g c) : RunInv tz i [] c where
  cluster := {
    inv := h.inv
    cluster := by
      intro j k hj
      rw [entryAddress, Option.map_eq_none_iff, Option.eq_none_iff_forall_ne_some]
      intro z hz
      exact hj (h.cluster j k z hz)
    process := by
      intro addr s hs
      obtain ⟨-, haddr, z, hz, hentry⟩ := h.registered addr s hs
      refine ⟨h.clusterid addr s hs, haddr, ?_⟩
      rw [entryAddress, hz, Option.map_some, hentry]
    request := by
      intro addr info hr
      rw [h.quiet] at hr
      cases hr }
  wellFormed := h.wellFormed
  tasks := by
    rw [h.tasks]
    simp

theorem wellFormed_handle (h : ∀ (addr : Str) (s : SNSServer), c.servers addr = some s → WellFormed s)
    {addr a : Str} {method : Method} {request : Request} {s : SNSServer}
    (hs : (c.handle tz addr method request).1.servers a = some s) : WellFormed s := by
  by_cases ha : a = addr
  · subst ha
    obtain ⟨s₀, reply, hs₀, hr⟩ := servers_handle_self hs
    exact (handle_outcome (h a s₀ hs₀) hr).wellFormed (h a s₀ hs₀)
  · rw [servers_handle_of_ne ha] at hs
    exact h a s hs

/-- The first task is run: what it leads to comes from it. -/
theorem RunInv.run (h : RunInv tz i tr c) {task : Task} {new rest : List Task} (htasks : c.tasks = task :: rest)
    (htasks' : c'.tasks = new ++ rest) (hnew : ∀ t ∈ new, write t.job = write task.job)
    (hcluster : ClusterInv i c'.cluster)
    (hwf : ∀ (addr : Str) (s : SNSServer), c'.servers addr = some s → WellFormed s) :
    RunInv tz i (tr ++ [(c, .run)]) c' := by
  refine ⟨hcluster, hwf, fun t ht => ?_⟩
  rw [accepted_run]
  rw [htasks'] at ht
  rcases List.mem_append.mp ht with ht | ht
  · rw [hnew t ht]
    exact h.tasks task (htasks ▸ List.mem_cons_self)
  · exact h.tasks t (htasks ▸ List.mem_cons_of_mem _ ht)

theorem RunInv.step (h : RunInv tz i tr c) (ho : Outcome tz c e c') : RunInv tz i (tr ++ [(c, e)]) c' := by
  cases ho with
  | @heartbeat e cluster hstart ho =>
      constructor
      · exact h.cluster.step hstart ho
      · intro addr s' hs'
        obtain ⟨s, hs, heq⟩ := servers_step hstart ho hs'
        rw [heq]
        exact (h.wellFormed addr s hs).congr rfl rfl
      · rw [accepted_heartbeat]
        exact h.tasks
  | @accept addr method request ha =>
      constructor
      · exact clusterInv_handle h.cluster
      · intro a s hs
        exact wellFormed_handle h.wellFormed hs
      · intro t ht
        obtain ⟨rfl, s, s', reply, hs, hr⟩ := mem_handle ht
        rw [accepted_concat, acceptedIn, hs]
        simp only [hr, Option.toList_some]
        exact ⟨_, _, rfl, rfl⟩
  | @drop task rest htasks hdead => exact h.run htasks (List.nil_append rest).symm nofun h.cluster h.wellFormed
  | @call caller addr method request rest htasks =>
      apply h.run htasks rfl
      · intro t ht
        rw [(mem_handle ht).1]
        rfl
      · exact clusterInv_handle h.cluster
      · intro a s hs
        exact wellFormed_handle h.wellFormed hs
  | @propogate addr method request rest s htasks hs =>
      apply h.run htasks rfl
      · intro t ht
        obtain ⟨destination, rfl⟩ := mem_propogations ht
        rfl
      · exact h.cluster
      · exact h.wellFormed
  | @propogateHelper addr method request destination rest s infos htasks hs hl =>
      apply h.run htasks rfl
      · intro t ht
        obtain ⟨info, -, rfl⟩ := List.mem_map.mp ht
        exact write_from_server method request true
      · exact h.cluster
      · exact h.wellFormed

/-! ### One process -/

/-- The task leads to a call of this process. -/
def Task.Owes (addr : Str) : Task → Prop
  | .call _ addr' _ _ => addr' = addr
  | .propogate root _ request => request.from_server = false ∧ root ≠ addr
  | .propogateHelper root _ request .COUNTERPARTS => request.from_server = false ∧ root ≠ addr
  | .propogateHelper _ _ _ .OTHER_MASTERS => False

/-- The process has handled all accepted requests, or all but the last and a task leads to that. -/
def Reflects (tz : TimeZone) (g : Graph) (addr : Str) (tr : List (State × Event)) (c : State) : Prop :=
  ∀ s, c.servers addr = some s → s.graph = applied g ((accepted tz tr).map Prod.fst) ∨
    ∃ l x, accepted tz tr = l ++ [x] ∧ s.graph = applied g (l.map Prod.fst) ∧ ∃ t ∈ c.tasks, t.Owes addr

variable {addr : Str}

theorem applied_concat (g : Graph) (l : List ((Method × Request) × SNSStatus))
    (x : (Method × Request) × SNSStatus) :
    applied g ((l ++ [x]).map Prod.fst) = update write (applied g (l.map Prod.fst)) x.1 := by
  rw [applied, List.map_append, List.map_singleton, List.foldl_concat, applied]

theorem Reflects.handled (h : Reflects tz g addr tr c) {s s' : SNSServer} {method : Method} {request : Request}
    {reply : Reply} (hs : c.servers addr = some s) (hwf : WellFormed s)
    (hr : s.handle tz method request = .ok (s', reply))
    (hjob : ∃ l x, accepted tz tr = l ++ [x] ∧ write (method, request) = write x.1) :
    s'.graph = applied g ((accepted tz tr).map Prod.fst) := by
  obtain ⟨l, x, hl, hw⟩ := hjob
  rw [graph_handle hwf hr, Lib.update_congr write hw]
  rcases h s hs with hg | ⟨l', x', hl', hg, -⟩
  · rw [hg, hl, applied_concat, Lib.update_update]
  · obtain ⟨rfl, -⟩ := List.append_inj' (hl.symm.trans hl') rfl
    rw [hg, hl, applied_concat]

/-- When nothing is left to do, the process has handled everything so far. -/
theorem Reflects.of_quiet (h : Reflects tz g addr tr c) (hquiet : c.tasks = []) {s : SNSServer}
    (hs : c.servers addr = some s) : s.graph = applied g ((accepted tz tr).map Prod.fst) := by
  rcases h s hs with hg | ⟨l, x, -, -, t, ht, -⟩
  · exact hg
  · rw [hquiet] at ht
    cases ht

/-- What is owed to a process stays so in a step of another process. -/
theorem Reflects.frame (h : Reflects tz g addr tr c) (hacc : accepted tz (tr ++ [(c, e)]) = accepted tz tr)
    (hs : ∀ s', c'.servers addr = some s' → ∃ s, c.servers addr = some s ∧ s'.graph = s.graph)
    (htasks : ∀ t ∈ c.tasks, t.Owes addr → ∃ t' ∈ c'.tasks, t'.Owes addr) :
    Reflects tz g addr (tr ++ [(c, e)]) c' := by
  intro s' hs'
  obtain ⟨s, hs, hgraph⟩ := hs s' hs'
  rw [hacc, hgraph]
  rcases h s hs with hg | ⟨l, x, hl, hg, t, ht, howes⟩
  · exact Or.inl hg
  · exact Or.inr ⟨l, x, hl, hg, htasks t ht howes⟩

/-- The first task is run: what it owes is owed by what it leads to. -/
theorem Reflects.run (h : Reflects tz g addr tr c) {task : Task} {new rest : List Task}
    (htasks : c.tasks = task :: rest) (htasks' : c'.tasks = new ++ rest)
    (hs : c'.servers addr = c.servers addr) (hnew : task.Owes addr → ∃ t ∈ new, t.Owes addr) :
    Reflects tz g addr (tr ++ [(c, .run)]) c' := by
  apply h.frame accepted_run
  · intro s' hs'
    exact ⟨s', hs.symm.trans hs', rfl⟩
  · intro t ht howes
    rw [htasks']
    rw [htasks] at ht
    rcases List.mem_cons.mp ht with rfl | ht
    · obtain ⟨t', ht', howes'⟩ := hnew howes
      exact ⟨t', List.mem_append_left _ ht', howes'⟩
    · exact ⟨t, List.mem_append_right _ ht, howes⟩

theorem Reflects.accept (h : Reflects tz g addr tr c) (hrun : RunInv tz i tr c) {a : Str} {method : Method}
    {request : Request} (ha : Accepts c a method request) :
    Reflects tz g addr (tr ++ [(c, .accept a method request)])
      { (c.handle tz a method request).1 with tasks := (c.handle tz a method request).2 } := by
  intro s' hs'
  replace hs' : (c.handle tz a method request).1.servers addr = some s' := hs'
  rcases handle_cases c tz a method request with ⟨hnone, -⟩ | ⟨s, x, hs, hx, he⟩ | ⟨s, t, reply, hs, hr, he⟩
  · have := ha.process
    rw [hnone] at this
    cases this
  · have hacc : accepted tz (tr ++ [(c, .accept a method request)]) = accepted tz tr := by
      rw [accepted_concat, acceptedIn, hs]
      simp only [hx, Option.toList_none, List.append_nil]
    left
    rw [he, servers_set] at hs'
    split_ifs at hs'
    rw [hacc]
    exact h.of_quiet ha.quiet hs'
  · have hacc : accepted tz (tr ++ [(c, .accept a method request)]) =
        accepted tz tr ++ [((method, request), reply.status)] := by
      rw [accepted_concat, acceptedIn, hs]
      simp only [hr, Option.toList_some]
    rw [he, servers_set] at hs'
    rw [hacc]
    split_ifs at hs' with haddr
    · subst haddr
      cases hs'
      left
      rw [applied_concat, graph_handle (hrun.wellFormed addr s hs) hr, h.of_quiet ha.quiet hs]
    · right
      refine ⟨_, _, rfl, h.of_quiet ha.quiet hs', .propogate a method request, ?_, ha.client, Ne.symm haddr⟩
      rw [he]
      exact List.mem_singleton_self _

/-- A process which is not missed is still owed the request after the task which owed it. -/
theorem owes_propogate {root : Str} {method : Method} {request : Request} {s : SNSServer}
    (hs : c.servers root = some s) (howes : (Task.propogate root method request).Owes addr)
    (hserves : (Task.propogate root method request).serves addr c = true) :
    ∃ t ∈ State.propogations s root method request, t.Owes addr := by
  obtain ⟨hclient, hne⟩ := howes
  simp only [Task.serves, hclient, hs, Option.any_some, Bool.false_or] at hserves
  refine ⟨.propogateHelper root method request .COUNTERPARTS, ?_, hclient, hne⟩
  rw [State.propogations, if_pos hserves]
  exact List.mem_cons_self

theorem exists_of_isActive (h : c.isActive addr = true) :
    ∃ j k z, c.cluster.zNode? j k = some z ∧ z.getAddress = addr ∧ z.isActive = true := by
  rw [State.isActive, List.any_eq_true] at h
  obtain ⟨m, hm, h⟩ := h
  rw [List.any_eq_true] at h
  obtain ⟨⟨k, z⟩, hz, h⟩ := h
  simp only [Bool.and_eq_true, decide_eq_true_eq] at h
  obtain ⟨j, hj, rfl⟩ := List.mem_iff_getElem.mp hm
  refine ⟨j, k, z, ?_, h⟩
  rw [Heartbeats.State.zNode?, SNSCoordinator.zNode?, List.getElem?_eq_getElem hj, Option.bind_some]
  exact Lib.OrdMap.mem_entries_iff.mp hz

theorem owes_propogateHelper (hrun : RunInv tz i tr c) {root : Str} {method : Method} {request : Request}
    {destination : Destination} {s : SNSServer} {infos : List ServerInfo} (hs : c.servers root = some s)
    (hl : serverList c.cluster.network.coordinator s.serverInfo destination = .ok infos)
    (howes : (Task.propogateHelper root method request destination).Owes addr)
    (hserves : (Task.propogateHelper root method request destination).serves addr c = true) :
    ∃ t ∈ infos.map (fun s => Task.call root (address s) method { request with from_server := true }),
      t.Owes addr := by
  cases destination with
  | OTHER_MASTERS => exact howes.elim
  | COUNTERPARTS =>
      obtain ⟨hclient, hne⟩ := howes
      have hactive : c.isActive addr = true := by
        simpa [Task.serves, hclient, hs, Ne.symm hne] using hserves
      obtain ⟨j, k, z, hz, haddr, ha⟩ := exists_of_isActive hactive
      obtain ⟨info, hinfo, he⟩ := List.mem_map.mp (hrun.cluster.call_mem hs hne hl hz haddr ha)
      exact ⟨_, List.mem_map.mpr ⟨info, hinfo, rfl⟩, he⟩

/-- No task of a dead process owes anything to a process which is not missed. -/
theorem not_owes_of_dead {t : Task} (hdead : c.servers t.process = none) (hserves : t.serves addr c = true) :
    ¬ t.Owes addr := by
  intro howes
  cases t with
  | call caller addr' method request =>
      replace hdead : c.servers caller = none := hdead
      replace howes : addr' = addr := howes
      simp [Task.serves, hdead, howes] at hserves
  | propogate root method request =>
      replace hdead : c.servers root = none := hdead
      obtain ⟨hclient, -⟩ := howes
      simp [Task.serves, hdead, hclient] at hserves
  | propogateHelper root method request destination =>
      replace hdead : c.servers root = none := hdead
      cases destination with
      | OTHER_MASTERS => exact howes
      | COUNTERPARTS =>
          obtain ⟨hclient, -⟩ := howes
          simp [Task.serves, hdead, hclient] at hserves

theorem Reflects.step (h : Reflects tz g addr tr c) (hrun : RunInv tz i tr c) (ho : Outcome tz c e c')
    (hserves : serves addr c e = true) : Reflects tz g addr (tr ++ [(c, e)]) c' := by
  have hhead {t : Task} {rest : List Task} (htasks : c.tasks = t :: rest) (he : e = .run) :
      t.serves addr c = true := by
    subst he
    rw [serves, htasks] at hserves
    exact hserves
  cases ho with
  | @heartbeat e cluster hstart ho =>
      apply h.frame (accepted_heartbeat e)
      · intro s' hs'
        obtain ⟨s, hs, heq⟩ := servers_step hstart ho hs'
        exact ⟨s, hs, by rw [heq]; exact graph_congr rfl rfl⟩
      · intro t ht howes
        exact ⟨t, ht, howes⟩
  | @accept a method request ha => exact h.accept hrun ha
  | @drop task rest htasks hdead =>
      apply h.run htasks
      · exact (List.nil_append rest).symm
      · rfl
      · exact fun howes => absurd howes (not_owes_of_dead hdead (hhead htasks rfl))
  | @call caller a method request rest htasks =>
      by_cases ha : addr = a
      · subst ha
        intro s' hs'
        left
        obtain ⟨s, reply, hs, hr⟩ := servers_handle_self hs'
        rw [accepted_run]
        exact h.handled hs (hrun.wellFormed addr s hs) hr
          (hrun.tasks (.call caller addr method request) (htasks ▸ List.mem_cons_self))
      · apply h.run htasks
        · rfl
        · exact servers_handle_of_ne ha
        · exact fun howes => absurd (Eq.symm howes) ha
  | @propogate a method request rest s htasks hs =>
      apply h.run htasks
      · rfl
      · rfl
      · exact fun howes => owes_propogate hs howes (hhead htasks rfl)
  | @propogateHelper a method request destination rest s infos htasks hs hl =>
      apply h.run htasks
      · rfl
      · rfl
      · exact fun howes => owes_propogateHelper hrun hs hl howes (hhead htasks rfl)

theorem runInv_of_run {c₀ : State} (h₀ : Start i g c₀) (hrun : (machine tz i g).Run c₀ tr c) :
    RunInv tz i tr c := by
  induction hrun with
  | nil => exact .init h₀
  | snoc _ hstep ih => exact ih.step (step_outcome hstep)

theorem reflects_of_run {c₀ : State} (h₀ : Start i g c₀) (hrun : (machine tz i g).Run c₀ tr c)
    (hserves : ∀ x ∈ tr, serves addr x.1 x.2 = true) : Reflects tz g addr tr c := by
  induction hrun with
  | nil =>
      intro s hs
      exact Or.inl (h₀.graph addr s hs)
  | snoc hrun hstep ih =>
      have hprev := ih fun x hx => hserves x (List.mem_append_left _ hx)
      exact hprev.step (runInv_of_run h₀ hrun) (step_outcome hstep)
        (hserves _ (List.mem_append_right _ List.mem_cons_self))

end

end DistributedSns.System.Failover
