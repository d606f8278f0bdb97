import DistributedSns.Client.Lemmas.Refresh
import DistributedSns.Coordinator.AssignmentTheorems
import DistributedSns.Coordinator.SyncTheorems
import Mathlib.Data.Int.CardIntervalMod

/-!
# Which server a client has

If only the clients ask for ids and servers, each client has its number as its id, and the coordinator's record is the
server the client knows. So a client stays with its server while this one is master, and the clients are spread evenly
over the clusters.
-/

namespace DistributedSns.Client.Refresh

open Lib Coordinator SNSCoordinator

variable {numClusters : Int} {s s' : System} {e : Event} {n : Nat} {client : Process} {tr : List (System × Event)}

/-- The calls of servers, and the checks. -/
def OfServers : SNSCoordinator.Event → Prop
  | .getUniqueClientID => False
  | .getServer _ => False
  | _ => True

/-- Nobody but the clients asks for an id or a server, and no answer to a client is lost. -/
def OwnCalls (tr : List (System × Event)) : Prop := ∀ x ∈ tr, ∀ e, x.2 = .coordinator e → OfServers e

/-- The server which the client was told, as the coordinator refers to it. -/
def Process.served (client : Process) : Option ZRef :=
  if client.server.clusterid = 0 then none
  else some { clusterIdx := (client.server.clusterid - 1).toNat, serverId := client.server.serverid }

/-! ## The coordinator's record -/

theorem assignments_handle {c c' : SNSCoordinator} (h : Inv c) {e : SNSCoordinator.Event} (he : OfServers e)
    (hc : c.handle e = .ok c') : c'.clientAssignments = c.clientAssignments := by
  cases e with
  | heartbeat now info =>
      obtain ⟨r, hr, hc⟩ := bind_eq_ok.mp hc
      cases hc
      cases heartbeat_outcome h.service hr <;> rfl
  | check now i k => cases check_outcome hc <;> rfl
  | getCounterparts info =>
      obtain ⟨l, -, hc⟩ := bind_eq_ok.mp hc
      cases hc
      rfl
  | getOtherClusterMasters info =>
      obtain ⟨l, -, hc⟩ := bind_eq_ok.mp hc
      cases hc
      rfl
  | getUniqueClientID => exact he.elim
  | getServer id => exact he.elim

theorem served_of_tells {c : SNSCoordinator} (h : Inv c) {ref : ZRef} {z : ZNode}
    (ht : Tells c ref z (.OK, client.server)) : client.served = some ref := by
  obtain ⟨hz, -, changed, heq⟩ := ht
  have hserver : client.server = { z.setServerInfo {} with changed } := (Prod.mk.inj heq).2
  have hzok := h.zNodes ref.clusterIdx ref.serverId z hz
  have hcluster : client.server.clusterid = ref.clusterIdx + 1 := by
    rw [hserver]
    exact hzok.clusterId
  have hid : client.server.serverid = ref.serverId := by
    rw [hserver]
    exact hzok.serverId
  rw [Process.served, hcluster, hid, if_neg (by omega)]
  simp

theorem served_of_server_eq {client' : Process} (h : client'.server = client.server) :
    client'.served = client.served := by
  rw [Process.served, h, Process.served]

theorem served_getServerInfo {c : SNSCoordinator} (h : Inv c) {ref : ZRef} {z : ZNode} {answer : Status × ServerInfo}
    (ht : Tells c ref z answer) (client : Process) : (client.getServerInfo answer).served = some ref := by
  obtain ⟨hz, hm, changed, rfl⟩ := ht
  refine served_of_tells h (z := z) ⟨hz, hm, changed, ?_⟩
  rw [Process.getServerInfo_ok, Process.server_newStub]

theorem served_of_ne_ok {answer : Status × ServerInfo} (hcode : answer.1.code ≠ .ok) (client : Process) :
    (client.getServerInfo answer).served = client.served := by
  apply served_of_server_eq
  rw [Process.getServerInfo_of_ne_ok _ hcode]
  split <;> simp

theorem id_getServerInfo (client : Process) (answer : Status × ServerInfo) :
    (client.getServerInfo answer).id = client.id := by
  rw [Process.getServerInfo]
  split_ifs <;> simp

/-- The entry of a client which has one already is replaced. -/
structure Assigns (c : SNSCoordinator) (id : Int) (assigned : Option ZRef) (c' : SNSCoordinator) : Prop where
  filesys : c'.filesys = c.filesys
  clusters : c'.clusters = c.clusters
  size : c'.clientAssignments.size = c.clientAssignments.size
  find : ∀ id', c'.clientAssignments.find? id' = if id' = id then some assigned else c.clientAssignments.find? id'

section

variable {c c' : SNSCoordinator} {id : Int} {assigned : Option ZRef}

theorem Assigns.assign (hid : (c.clientAssignments.find? id).isSome) (assigned : Option ZRef) :
    Assigns c id assigned (assign c id assigned) where
  filesys := rfl
  clusters := rfl
  size := OrdMap.size_insert_of_isSome hid assigned
  find := find?_assign c id assigned

theorem Assigns.refl (hid : (c.clientAssignments.find? id).isSome) : Assigns c id (recorded c id) c := by
  refine ⟨rfl, rfl, rfl, fun id' => ?_⟩
  obtain ⟨a, ha⟩ := Option.isSome_iff_exists.mp hid
  split_ifs with heq
  · rw [heq, recorded, ha]
    rfl
  · rfl

theorem Assigns.again (h : Assigns c id assigned c') (assigned' : Option ZRef) :
    Assigns c id assigned' (Coordinator.assign c' id assigned') := by
  have hid : (c'.clientAssignments.find? id).isSome := by
    rw [h.find, if_pos rfl]
    rfl
  have h' := Assigns.assign hid assigned'
  refine ⟨h'.filesys.trans h.filesys, h'.clusters.trans h.clusters, h'.size.trans h.size, fun id' => ?_⟩
  rw [h'.find, h.find]
  split_ifs <;> rfl

theorem Assigns.isSome_find? (h : Assigns c id assigned c') (hid : (c.clientAssignments.find? id).isSome) (id' : Int) :
    (c'.clientAssignments.find? id').isSome ↔ (c.clientAssignments.find? id').isSome := by
  rw [h.find]
  split_ifs with heq
  · rw [heq]
    exact iff_of_true rfl hid
  · rfl

theorem Assigns.recorded_self (h : Assigns c id assigned c') : recorded c' id = assigned := by
  rw [recorded, h.find, if_pos rfl]
  rfl

theorem Assigns.recorded_of_ne (h : Assigns c id assigned c') {id' : Int} (hne : id' ≠ id) :
    recorded c' id' = recorded c id' := by
  rw [recorded, h.find, if_neg hne, recorded]

end

/-! ## The records of all clients -/

/-- The keys of the assignments are the numbers of the clients, and the entries are the servers they know. -/
structure Own (numClusters : Int) (s : System) : Prop where
  inv : Inv s.coordinator
  clusters : s.coordinator.clusters.length = numClusters.toNat
  size : s.coordinator.clientAssignments.size = s.clients.length
  keys : ∀ id, (s.coordinator.clientAssignments.find? id).isSome ↔ 0 ≤ id ∧ id < s.clients.length
  ids : ∀ (n : Nat) (client : Process), s.clients[n]? = some client → client.id = n
  records : ∀ (n : Nat) (client : Process), s.clients[n]? = some client → recorded s.coordinator n = client.served

theorem Own.isSome_find? (h : Own numClusters s) (hclient : s.clients[n]? = some client) :
    (s.coordinator.clientAssignments.find? n).isSome := by
  obtain ⟨hlt, -⟩ := List.getElem?_eq_some_iff.mp hclient
  rw [h.keys]
  omega

/-- What the coordinator answers to a client, and what it records. -/
theorem Own.answer (h : Own numClusters s) (hn : 0 < numClusters) (hclient : s.clients[n]? = some client) :
    ∃ c answer, s.getServer client.id none = .ok (c, answer) ∧
      Assigns s.coordinator n (client.getServerInfo answer).served c ∧
      GetServerOutcome s.coordinator n (c, answer) := by
  have hlen : 0 < s.coordinator.clusters.length := by
    rw [h.clusters]
    omega
  have hid : (0 : Int) ≤ n := by omega
  obtain ⟨⟨c, answer⟩, hr, ho⟩ := getServer_spec h.inv hlen hid
  refine ⟨c, answer, by rw [h.ids n client hclient]; exact hr, ?_, ho⟩
  have hkey := h.isSome_find? hclient
  cases ho with
  | @kept ref hs =>
      obtain ⟨z, ht⟩ := tells_serverReply hs.2 rfl false
      rw [served_getServerInfo h.inv ht]
      exact .assign hkey _
  | @assigned ref hno hfirst =>
      obtain ⟨z, ht⟩ := tells_serverReply hfirst.master rfl true
      rw [served_getServerInfo h.inv ht]
      exact (Assigns.assign hkey _).again _
  | unavailable hno hnone =>
      rw [served_of_ne_ok (by simp [noServersAvailable]), ← h.records n client hclient]
      exact .assign hkey _

/-- One client changes, and its server is recorded. -/
theorem Own.set (h : Own numClusters s) (hclient : s.clients[n]? = some client) {client₁ : Process}
    (hid : client₁.id = client.id) {c : SNSCoordinator} (ha : Assigns s.coordinator n client₁.served c) :
    Own numClusters { coordinator := c, clients := s.clients.set n client₁ } := by
  have hget (m : Nat) (client' : Process) (hm : (s.clients.set n client₁)[m]? = some client') :
      (m = n ∧ client' = client₁) ∨ (m ≠ n ∧ s.clients[m]? = some client') := by
    rw [List.getElem?_set] at hm
    split_ifs at hm with hmn hlt
    · exact Or.inl ⟨hmn.symm, (Option.some.inj hm).symm⟩
    · exact Or.inr ⟨Ne.symm hmn, hm⟩
  constructor
  · exact h.inv.congr ha.filesys ha.clusters
  · exact (congrArg List.length ha.clusters).trans h.clusters
  · simp only [List.length_set]
    exact ha.size.trans h.size
  · intro id
    simp only [List.length_set]
    exact (ha.isSome_find? (h.isSome_find? hclient) id).trans (h.keys id)
  · intro m client' hm
    rcases hget m client' hm with ⟨rfl, rfl⟩ | ⟨-, hm⟩
    · rw [hid]
      exact h.ids m client hclient
    · exact h.ids m client' hm
  · intro m client' hm
    rcases hget m client' hm with ⟨rfl, rfl⟩ | ⟨hne, hm⟩
    · exact ha.recorded_self
    · exact (ha.recorded_of_ne (by omega)).trans (h.records m client' hm)

theorem Own.call (h : Own numClusters s) (hn : 0 < numClusters) (hclient : s.clients[n]? = some client)
    {failure : Option Failure} {c : SNSCoordinator} {answer : Status × ServerInfo}
    (hcall : s.getServer client.id failure = .ok (c, answer)) :
    Assigns s.coordinator n (client.getServerInfo answer).served c := by
  cases failure with
  | none =>
      obtain ⟨c', answer', hcall', ha, -⟩ := h.answer hn hclient
      cases hcall.symm.trans hcall'
      exact ha
  | some failure =>
      cases hcall
      rw [served_of_ne_ok failure.ne_ok, ← h.records n client hclient]
      exact .refl (h.isSome_find? hclient)

theorem Own.connect (h : Own numClusters s) (hlt : s.clients.length < 2 ^ 31) :
    Own numClusters {
      coordinator := s.coordinator.getUniqueClientID.1
      clients := s.clients ++ [{ id := s.coordinator.getUniqueClientID.2 }] } := by
  have hraw : s.coordinator.rawId = s.clients.length := by
    rw [SNSCoordinator.rawId, h.size]
    omega
  have hnone : s.coordinator.clientAssignments.find? s.coordinator.rawId = none := by
    rw [← Option.not_isSome_iff_eq_none, h.keys, hraw]
    omega
  have hget (m : Nat) (client : Process)
      (hm : (s.clients ++ [{ id := s.coordinator.getUniqueClientID.2 }])[m]? = some client) :
      s.clients[m]? = some client ∨ (m = s.clients.length ∧ client = { id := m }) := by
    rcases getElem?_concat_eq_some.mp hm with hold | ⟨rfl, rfl⟩
    · exact Or.inl hold
    · rw [snd_getUniqueClientID, hraw]
      exact Or.inr ⟨rfl, rfl⟩
  constructor
  · exact h.inv.congr rfl rfl
  · exact h.clusters
  · simp only [List.length_append, List.length_singleton]
    rw [assignments_getUniqueClientID, OrdMap.size, OrdMap.insert, Assoc.length_insert_of_none hnone]
    exact congrArg (· + 1) h.size
  · intro id
    simp only [List.length_append, List.length_singleton]
    rw [find?_getUniqueClientID, hraw]
    split_ifs with hid
    · simp only [Option.isSome_some, true_iff]
      omega
    · rw [h.keys]
      omega
  · intro m client hm
    rcases hget m client hm with hm | ⟨-, rfl⟩
    · exact h.ids m client hm
    · rfl
  · intro m client hm
    rw [recorded, find?_getUniqueClientID, hraw]
    rcases hget m client hm with hm | ⟨rfl, rfl⟩
    · obtain ⟨hlt, -⟩ := List.getElem?_eq_some_iff.mp hm
      rw [if_neg (by omega)]
      exact h.records m client hm
    · rw [if_pos rfl]
      rfl

theorem Own.step (h : Own numClusters s) (hn : 0 < numClusters) (hs : Step s e s')
    (he : ∀ e', e = .coordinator e' → OfServers e') (hlt : s'.clients.length ≤ 2 ^ 31) : Own numClusters s' := by
  cases hs with
  | @coordinator e c hc =>
      have hassign := assignments_handle h.inv (he e rfl) hc
      constructor
      · exact h.inv.handle hc
      · exact (length_handle h.inv hc).trans h.clusters
      · rw [hassign]
        exact h.size
      · rw [hassign]
        exact h.keys
      · exact h.ids
      · intro m client hm
        rw [recorded, hassign]
        exact h.records m client hm
  | connect =>
      simp only [List.length_append, List.length_singleton] at hlt
      exact h.connect (by omega)
  | gone => exact h
  | @refreshed m failure client c answer hrunning hcall =>
      obtain ⟨hclient, -⟩ := running_eq_some.mp hrunning
      exact h.set hclient (id_getServerInfo client answer) (h.call hn hclient hcall)
  | noLogin => exact h
  | @login m success client hrunning hawaits =>
      obtain ⟨hclient, -⟩ := running_eq_some.mp hrunning
      refine h.set hclient (client.id_endConnect success) ?_
      rw [served_of_server_eq (client.server_endConnect success), ← h.records m client hclient]
      exact .refl (h.isSome_find? hclient)

theorem length_le_of_step (hs : Step s e s') : s.clients.length ≤ s'.clients.length := by
  cases hs <;> simp

theorem own_of_run (hrun : (System.machine numClusters).Run (.init numClusters) tr s) (hn : 0 < numClusters)
    (hown : OwnCalls tr) (hlt : s.clients.length ≤ 2 ^ 31) : Own numClusters s := by
  induction hrun with
  | nil =>
      constructor
      · exact .init numClusters
      · simp [System.init, SNSCoordinator.init]
      · rfl
      · intro id
        simp only [System.init, SNSCoordinator.init, OrdMap.find?_empty, List.length_nil]
        simp
      · intro m client hm
        cases hm
      · intro m client hm
        cases hm
  | snoc _ hs ih =>
      have hstep := step_of_handle hs
      have hle := length_le_of_step hstep
      have h := ih (fun x hx => hown x (List.mem_append_left _ hx)) (hle.trans hlt)
      exact h.step hn hstep (hown _ (List.mem_append_right _ List.mem_cons_self)) hlt

/-! ## A client stays with its server -/

theorem output_getServerInfo (client : Process) (server : ServerInfo) :
    (client.getServerInfo (.OK, server)).output = client.output ++
      if server.changed then Process.displayReConnectionMessage server.hostname server.port else [] := by
  rw [Process.getServerInfo_ok, Process.newStub]
  split_ifs with hchanged
  · rfl
  · exact (List.append_nil _).symm

theorem running_set (hrunning : s.running n = some client) {c : SNSCoordinator} {answer : Status × ServerInfo}
    (hcall : s.getServer client.id none = .ok (c, answer)) : s.handle (.refresh n none) =
      .ok { coordinator := c, clients := s.clients.set n (client.getServerInfo answer) } := by
  rw [System.handle, hrunning]
  simp only [hcall]
  rfl

/-- The client goes to the given server, whose address it has learned, and prints this text. -/
structure GoesTo (c : SNSCoordinator) (client : Process) (ref : ZRef) (z : ZNode) (client' : Process) (text : Str) :
    Prop where
  deref : c.deref ref = some z
  served : client'.served = some ref
  stub : client'.stub_ = some z.getAddress
  retries : client'.retries = 0
  output : client'.output = client.output ++ text

theorem goesTo_of_tells {c : SNSCoordinator} (h : Inv c) {ref : ZRef} {z : ZNode} (hz : c.deref ref = some z)
    (hm : z.master = true) (client : Process) (changed : Bool) :
    GoesTo c client ref z (client.getServerInfo (.OK, { z.setServerInfo {} with changed }))
      (if changed then Process.displayReConnectionMessage z.hostname z.port else []) where
  deref := hz
  served := served_getServerInfo h ⟨hz, hm, changed, rfl⟩ client
  stub := by
    rw [Process.getServerInfo_ok, Process.stub_newStub]
    rfl
  retries := by rw [Process.getServerInfo_ok, Process.retries_newStub]
  output := output_getServerInfo client _

/-- In every reachable state, a running client which comes to the coordinator stays with its server and says nothing if
this one is still master. Otherwise it goes to the first master in the cyclic order from its id on, and says so; if there
is none, it keeps its server and counts a failure. No other client notices. -/
theorem refresh_sticky (hrun : (System.machine numClusters).Run (.init numClusters) tr s) (hn : 0 < numClusters)
    (hown : OwnCalls tr) (hlt : s.clients.length ≤ 2 ^ 31) (hrunning : s.running n = some client) :
    ∃ s' client', s.handle (.refresh n none) = .ok s' ∧ s'.clients[n]? = some client' ∧
      (∀ m ≠ n, s'.clients[m]? = s.clients[m]?) ∧
      (∀ ref, client.served = some ref → IsMaster s.coordinator ref →
        ∃ z, GoesTo s.coordinator client ref z client' []) ∧
      ((¬ ∃ ref, client.served = some ref ∧ IsMaster s.coordinator ref) → (∃ i, HasMaster s.coordinator i) →
        ∃ ref z, FirstMaster s.coordinator (n % numClusters.toNat) ref ∧ GoesTo s.coordinator client ref z client'
          (Process.displayReConnectionMessage z.hostname z.port)) ∧
      ((¬ ∃ i, HasMaster s.coordinator i) → client'.served = client.served ∧
        (client'.retries = client.retries + 1 ∨ client'.exited = true)) := by
  have h := own_of_run hrun hn hown hlt
  obtain ⟨hclient, -⟩ := running_eq_some.mp hrunning
  obtain ⟨hbound, -⟩ := List.getElem?_eq_some_iff.mp hclient
  obtain ⟨c, answer, hcall, -, ho⟩ := h.answer hn hclient
  refine ⟨_, client.getServerInfo answer, running_set hrunning hcall, List.getElem?_set_self hbound, ?_, ?_⟩
  · intro m hm
    exact List.getElem?_set_ne (Ne.symm hm)
  · have hsticky (ref : ZRef) : Sticky s.coordinator n ref ↔ client.served = some ref ∧ IsMaster s.coordinator ref := by
      rw [Sticky, h.records n client hclient]
    cases ho with
    | @kept ref hs =>
        have hserved := (hsticky ref).mp hs
        obtain ⟨z, hz, hm⟩ := hs.2
        have hreply : s.coordinator.serverReply ref false = { z.setServerInfo {} with changed := false } := by
          rw [serverReply, hz]
          rfl
        refine ⟨?_, ?_, ?_⟩
        · intro ref' href' _
          obtain rfl : ref' = ref := Option.some.inj (href'.symm.trans hserved.1)
          rw [hreply]
          exact ⟨z, goesTo_of_tells h.inv hz hm client false⟩
        · intro hno
          exact absurd ⟨ref, hserved⟩ hno
        · intro hnone
          exact absurd ⟨_, hasMaster_of_isMaster hs.2⟩ hnone
    | @assigned ref hno hfirst =>
        obtain ⟨z, hz, hm⟩ := hfirst.master
        have hreply : s.coordinator.serverReply ref true = { z.setServerInfo {} with changed := true } := by
          rw [serverReply, hz]
          rfl
        refine ⟨?_, ?_, ?_⟩
        · intro ref' href' hmaster
          exact absurd ⟨ref', (hsticky ref').mpr ⟨href', hmaster⟩⟩ hno
        · intro _ _
          rw [Int.toNat_natCast, h.clusters] at hfirst
          rw [hreply]
          exact ⟨ref, z, hfirst, goesTo_of_tells h.inv hz hm client true⟩
        · intro hnone
          exact absurd ⟨_, hasMaster_of_isMaster hfirst.master⟩ hnone
    | unavailable hno hnone =>
        refine ⟨?_, ?_, ?_⟩
        · intro ref _ hmaster
          exact absurd ⟨_, hasMaster_of_isMaster hmaster⟩ hnone
        · intro _ hsome
          exact absurd hsome hnone
        · intro _
          have hcode : (noServersAvailable, ({} : ServerInfo)).1.code ≠ .ok := by simp [noServersAvailable]
          refine ⟨served_of_ne_ok hcode client, ?_⟩
          rw [Process.getServerInfo_of_ne_ok _ hcode]
          split
          · exact Or.inl (by simp)
          · exact Or.inr rfl

theorem ownCalls_history {events : List Event} (h : ∀ e, .coordinator e ∈ events → OfServers e) :
    OwnCalls (Machine.history System.handle (.init numClusters) events) := by
  intro x hx e he
  apply h
  rw [← he]
  exact Machine.mem_of_history hx

/-- A master for a client, and a slave which takes over once the master has expired. -/
def takenOver : List Event :=
  let info (serverid : Int) : ServerInfo := { serverid, clusterid := 1, hostname := ['h'], port := str serverid }
  [.coordinator (.heartbeat 0 (info 1)), .connect, .refresh 0 none, .coordinator (.heartbeat 8 (info 2)),
    .coordinator (.check 11 0 1), .coordinator (.check 14 0 1),
    .coordinator (.heartbeat 15 { info 2 with registered := true })]

theorem refresh_sticky_takenOver : ∃ s client s' client', takenOver.foldlM System.handle (.init 1) = .ok s ∧
    s.running 0 = some client ∧ s.handle (.refresh 0 none) = .ok s' ∧ s'.clients[0]? = some client' ∧
    ∃ ref z, client.served ≠ some ref ∧
      GoesTo s.coordinator client ref z client' (Process.displayReConnectionMessage z.hostname z.port) := by
  obtain ⟨s, hs, client, hrunning, hlt, hmaster, hold⟩ : ∃ s, takenOver.foldlM System.handle (.init 1) = .ok s ∧
      ∃ client, s.running 0 = some client ∧ s.clients.length ≤ 2 ^ 31 ∧
        (s.coordinator.clusters[0]?.bind masterOf).isSome ∧
        (client.served.bind fun ref => (s.coordinator.deref ref).map (·.master)) = some false :=
    ⟨_, rfl, _, rfl, by decide +kernel, by decide +kernel, by decide +kernel⟩
  have hrun : (System.machine 1).Run (.init 1) _ s := Machine.run_of_foldlM hs
  have hown : OwnCalls (Machine.history System.handle (.init 1) takenOver) :=
    ownCalls_history (by simp [takenOver, OfServers])
  have hno : ¬ ∃ ref, client.served = some ref ∧ IsMaster s.coordinator ref := by
    rintro ⟨ref, href, z, hz, hm⟩
    simp [href, hz, hm] at hold
  obtain ⟨s', client', hstep, hclient', -, -, hmoves, -⟩ := refresh_sticky hrun (by decide) hown hlt hrunning
  obtain ⟨ref, z, hfirst, hgoes⟩ := hmoves hno ⟨0, hasMaster_iff.mpr hmaster⟩
  refine ⟨s, client, s', client', hs, hrunning, hstep, hclient', ref, z, ?_, hgoes⟩
  intro href
  exact hno ⟨ref, href, hfirst.master⟩

/-! ## The clients are spread over the clusters -/

/-- Whenever a client comes to the coordinator, the cluster which its id falls to has a master. -/
def AtHome (numClusters : Int) (tr : List (System × Event)) : Prop :=
  ∀ x ∈ tr, ∀ n : Nat, x.2 = .refresh n none → HasMaster x.1.coordinator (n % numClusters.toNat)

/-- The number of running clients whose server is in the cluster. -/
def load (s : System) (i : Nat) : Nat :=
  s.clients.countP fun client => !client.exited && decide (client.served.map (·.clusterIdx) = some i)

/-- The clients are at home, as far as they have been told a server. -/
def Home (numClusters : Int) (s : System) : Prop :=
  ∀ (n : Nat) (client : Process) (ref : ZRef), s.clients[n]? = some client → client.served = some ref →
    ref.clusterIdx = n % numClusters.toNat

theorem clusterIdx_of_firstMaster {c : SNSCoordinator} {start : Nat} {ref : ZRef} (h : FirstMaster c start ref)
    (hlt : start < c.clusters.length) (hstart : HasMaster c start) : ref.clusterIdx = start := by
  obtain ⟨t, ht, hidx, hfirst⟩ := h.first
  cases t with
  | zero => rw [hidx, Nat.add_zero, Nat.mod_eq_of_lt hlt]
  | succ t =>
      have := hfirst 0 (Nat.succ_pos t)
      rw [Nat.add_zero, Nat.mod_eq_of_lt hlt] at this
      exact absurd hstart this

/-- An answer leaves the client with its server, or sends it to the first master. -/
theorem Own.served_answer (h : Own numClusters s) (hclient : s.clients[n]? = some client) {c : SNSCoordinator}
    {answer : Status × ServerInfo} (ho : GetServerOutcome s.coordinator n (c, answer)) :
    (client.getServerInfo answer).served = client.served ∨
      ∃ ref, FirstMaster s.coordinator (n % numClusters.toNat) ref ∧
        (client.getServerInfo answer).served = some ref := by
  cases ho with
  | @kept ref hs =>
      obtain ⟨z, ht⟩ := tells_serverReply hs.2 rfl false
      left
      rw [served_getServerInfo h.inv ht, ← h.records n client hclient, hs.1]
  | @assigned ref hno hfirst =>
      obtain ⟨z, ht⟩ := tells_serverReply hfirst.master rfl true
      rw [Int.toNat_natCast, h.clusters] at hfirst
      exact Or.inr ⟨ref, hfirst, served_getServerInfo h.inv ht client⟩
  | unavailable hno hnone => exact Or.inl (served_of_ne_ok (by simp [noServersAvailable]) client)

theorem Home.step (hhome : Home numClusters s) (h : Own numClusters s) (hn : 0 < numClusters) (hs : Step s e s')
    (he : ∀ n : Nat, e = .refresh n none → HasMaster s.coordinator (n % numClusters.toNat)) : Home numClusters s' := by
  cases hs with
  | coordinator hc => exact hhome
  | connect =>
      intro m client ref hm href
      rcases getElem?_concat_eq_some.mp hm with hold | ⟨-, rfl⟩
      · exact hhome m client ref hold href
      · simp [Process.served] at href
  | gone => exact hhome
  | @refreshed n failure client c answer hrunning hcall =>
      obtain ⟨hclient, -⟩ := running_eq_some.mp hrunning
      intro m client' ref hm href
      rw [List.getElem?_set] at hm
      split_ifs at hm with hmn hlt
      · subst hmn
        obtain rfl := Option.some.inj hm
        cases failure with
        | some failure =>
            cases hcall
            rw [served_of_ne_ok failure.ne_ok] at href
            exact hhome n client ref hclient href
        | none =>
            obtain ⟨c', answer', hcall', -, ho⟩ := h.answer hn hclient
            cases hcall.symm.trans hcall'
            rcases h.served_answer hclient ho with heq | ⟨ref', hfirst, heq⟩
            · rw [heq] at href
              exact hhome n client ref hclient href
            · obtain rfl : ref' = ref := Option.some.inj (heq.symm.trans href)
              have hstart : n % numClusters.toNat < s.coordinator.clusters.length := by
                rw [h.clusters]
                exact Nat.mod_lt _ (by omega)
              exact clusterIdx_of_firstMaster hfirst hstart (he n rfl)
      · exact hhome m client' ref hm href
  | noLogin => exact hhome
  | @login n success client hrunning hawaits =>
      obtain ⟨hclient, -⟩ := running_eq_some.mp hrunning
      intro m client' ref hm href
      rw [List.getElem?_set] at hm
      split_ifs at hm with hmn hlt
      · subst hmn
        obtain rfl := Option.some.inj hm
        rw [served_of_server_eq (client.server_endConnect success)] at href
        exact hhome n client ref hclient href
      · exact hhome m client' ref hm href

theorem home_of_run (hrun : (System.machine numClusters).Run (.init numClusters) tr s) (hn : 0 < numClusters)
    (hown : OwnCalls tr) (hhome : AtHome numClusters tr) (hlt : s.clients.length ≤ 2 ^ 31) :
    Home numClusters s := by
  induction hrun with
  | nil =>
      intro m client ref hm
      cases hm
  | @snoc tr s e s' hr hs ih =>
      have hstep := step_of_handle hs
      have hlt' := (length_le_of_step hstep).trans hlt
      have hown' : OwnCalls tr := fun x hx => hown x (List.mem_append_left _ hx)
      have hprev := ih hown' (fun x hx => hhome x (List.mem_append_left _ hx)) hlt'
      exact hprev.step (own_of_run hr hn hown' hlt') hn hstep (hhome _ (List.mem_append_right _ List.mem_cons_self))

/-- The entries of a list for which a property of their position holds. -/
theorem countP_eq_count {α : Type*} {p : α → Bool} {q : Nat → Prop} [DecidablePred q] (l : List α)
    (h : ∀ n a, l[n]? = some a → (p a = true ↔ q n)) : l.countP p = Nat.count q l.length := by
  induction l using List.reverseRecOn with
  | nil => rfl
  | append_singleton l a ih =>
      have hinit : l.countP p = Nat.count q l.length := by
        apply ih
        intro n b hb
        exact h n b (getElem?_concat_eq_some.mpr (Or.inl hb))
      have hlast : p a = true ↔ q l.length := h l.length a List.getElem?_concat_length
      rw [List.countP_append, hinit, List.length_append, List.length_singleton, Nat.count_succ, List.countP_singleton]
      simp only [hlast]

/-- If clients always find a master at home and none of them has ended, every cluster serves its share of the clients,
and the shares of two clusters differ by at most one. -/
theorem load_balanced (hrun : (System.machine numClusters).Run (.init numClusters) tr s) (hn : 0 < numClusters)
    (hown : OwnCalls tr) (hhome : AtHome numClusters tr) (hlt : s.clients.length ≤ 2 ^ 31)
    (hserved : ∀ client ∈ s.clients, client.exited = false ∧ client.served.isSome) {i : Nat}
    (hi : i < numClusters.toNat) :
    load s i = s.clients.length / numClusters.toNat +
      if i < s.clients.length % numClusters.toNat then 1 else 0 := by
  have hall := home_of_run hrun hn hown hhome hlt
  have hcount : load s i = Nat.count (· ≡ i [MOD numClusters.toNat]) s.clients.length := by
    apply countP_eq_count
    intro n client hclient
    obtain ⟨hrunning, hsome⟩ := hserved client (List.mem_of_getElem? hclient)
    obtain ⟨ref, href⟩ := Option.isSome_iff_exists.mp hsome
    rw [hrunning, href, Nat.ModEq, Nat.mod_eq_of_lt hi, ← hall n client ref hclient href]
    simp
  rw [hcount, Nat.count_modEq_card _ (by omega), Nat.mod_eq_of_lt hi]

/-- The client whose call comes to the coordinator. -/
def reaching : Event → Option Nat
  | .refresh n none => some n
  | _ => none

/-- Two clusters and three clients. -/
def threeClients : List Event :=
  let info (clusterid : Int) : ServerInfo := { serverid := 1, clusterid, hostname := ['h'], port := str clusterid }
  [.coordinator (.heartbeat 0 (info 1)), .coordinator (.heartbeat 0 (info 2)), .connect, .refresh 0 none, .connect,
    .connect, .refresh 2 none, .refresh 1 none]

theorem load_balanced_threeClients : ∃ s, threeClients.foldlM System.handle (.init 2) = .ok s ∧
    load s 0 = 2 ∧ load s 1 = 1 := by
  obtain ⟨s, hs, hlength, hserved⟩ : ∃ s, threeClients.foldlM System.handle (.init 2) = .ok s ∧
      s.clients.length = 3 ∧ ∀ client ∈ s.clients, client.exited = false ∧ client.served.isSome :=
    ⟨_, rfl, by decide +kernel, by decide +kernel⟩
  have hrun : (System.machine 2).Run (.init 2) _ s := Machine.run_of_foldlM hs
  have hown : OwnCalls (Machine.history System.handle (.init 2) threeClients) :=
    ownCalls_history (by simp [threeClients, OfServers])
  have hmasters : ∀ x ∈ Machine.history System.handle (.init 2) threeClients, ∀ n ∈ reaching x.2,
      (x.1.coordinator.clusters[n % 2]?.bind masterOf).isSome := by decide +kernel
  have hhome : AtHome 2 (Machine.history System.handle (.init 2) threeClients) := by
    intro x hx n hn
    exact hasMaster_iff.mpr (hmasters x hx n (by rw [hn]; rfl))
  have hload {i : Nat} (hi : i < 2) : load s i = 3 / 2 + if i < 3 % 2 then 1 else 0 := by
    rw [← hlength]
    exact load_balanced hrun (by decide) hown hhome (by omega) hserved hi
  exact ⟨s, hs, hload (by decide), hload (by decide)⟩

end DistributedSns.Client.Refresh
