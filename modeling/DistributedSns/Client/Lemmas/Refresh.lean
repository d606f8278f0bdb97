import DistributedSns.Client.Refresh
import DistributedSns.Coordinator.RangeTheorems

/-!
# What a refresh can do
-/

namespace DistributedSns.Client.Refresh

open Lib Coordinator SNSCoordinator

/-! ## The answer of the coordinator -/

/-- The answer is about a server which is master. -/
def Tells (c : SNSCoordinator) (ref : ZRef) (z : ZNode) (answer : Status × ServerInfo) : Prop :=
  c.deref ref = some z ∧ z.master = true ∧ ∃ changed, answer = (.OK, { z.setServerInfo {} with changed })

theorem tells_serverReply {c c' : SNSCoordinator} {ref : ZRef} (hm : IsMaster c ref) (hc : c'.clusters = c.clusters)
    (changed : Bool) : ∃ z, Tells c ref z (.OK, c'.serverReply ref changed) := by
  obtain ⟨z, hz, hzm⟩ := hm
  have hz' : c'.deref ref = some z := by rw [← hz, deref, deref, zNode?, zNode?, hc]
  exact ⟨z, hz, hzm, changed, by rw [serverReply, hz']; rfl⟩

/-- An answer tells about a master, or there is none. -/
theorem getServer_answer {c : SNSCoordinator} {id : Int} {r : SNSCoordinator × Status × ServerInfo}
    (hr : c.getServer id = .ok r) :
    (∃ ref z, Tells c ref z r.2) ∨ (¬ ∃ i, HasMaster c i) ∧ r.2 = (noServersAvailable, {}) := by
  simp only [SNSCoordinator.getServer] at hr
  split at hr
  next ref hfilter =>
      cases hr
      obtain ⟨-, hm⟩ := Option.filter_eq_some_iff.mp hfilter
      exact Or.inl ⟨ref, tells_serverReply (isMaster_iff.mp hm) rfl false⟩
  next hfilter =>
      obtain ⟨o, hsearch, hr⟩ := bind_eq_ok.mp hr
      -- the search goes over the clusters of a coordinator which differs in the assignments only
      have hindex : Indexes (assign c id (recorded c id)) id := indexes_of_getActiveMaster hsearch
      have hfound := Except.ok.inj (hsearch.symm.trans (getActiveMaster_ok hindex))
      have hlt : (id.tmod c.clusters.length).toNat < c.clusters.length := by
        have hpos : (0 : Int) < c.clusters.length := by exact_mod_cast hindex.1
        have := Int.tmod_lt_of_pos id hpos
        omega
      rcases searchMaster_spec (assign c id (recorded c id)) c.clusters.length hlt with
        ⟨hnone, hrest⟩ | ⟨t, ref, -, hsome, hm, -⟩
      · obtain rfl : o = none := hfound.trans hnone
        cases hr
        refine Or.inr ⟨?_, rfl⟩
        rintro ⟨i, hi⟩
        obtain ⟨t, ht, rfl⟩ := exists_step hlt (lt_of_hasMaster hi)
        exact hrest t ht hi
      · obtain rfl : o = some ref := hfound.trans hsome
        cases hr
        exact Or.inl ⟨ref, tells_serverReply hm rfl true⟩

/-! ## The client -/

namespace Process

variable (client : Process) (text : Str)

@[simp] theorem server_print : (client.print text).server = client.server := rfl
@[simp] theorem stub_print : (client.print text).stub_ = client.stub_ := rfl
@[simp] theorem retries_print : (client.print text).retries = client.retries := rfl
@[simp] theorem exited_print : (client.print text).exited = client.exited := rfl
@[simp] theorem id_print : (client.print text).id = client.id := rfl

@[simp] theorem id_endConnect (success : Bool) : (client.endConnect success).id = client.id := by
  cases success <;> rfl

@[simp] theorem server_endConnect (success : Bool) : (client.endConnect success).server = client.server := by
  cases success <;> rfl

@[simp] theorem stub_endConnect (success : Bool) : (client.endConnect success).stub_ = client.stub_ := by
  cases success <;> rfl

@[simp] theorem retries_endConnect (success : Bool) : (client.endConnect success).retries = client.retries := by
  cases success <;> rfl

@[simp] theorem exited_endConnect (success : Bool) :
    (client.endConnect success).exited = (!success || client.exited) := by
  cases success <;> rfl

@[simp] theorem server_newStub : client.newStub.server = client.server := by
  rw [newStub]
  split <;> rfl

@[simp] theorem stub_newStub :
    client.newStub.stub_ = some (client.server.hostname ++ ":".toList ++ client.server.port) := by
  rw [newStub]

@[simp] theorem retries_newStub : client.newStub.retries = client.retries := by
  rw [newStub]
  split <;> rfl

@[simp] theorem exited_newStub : client.newStub.exited = client.exited := by
  rw [newStub]
  split <;> rfl

@[simp] theorem id_newStub : client.newStub.id = client.id := by
  rw [newStub]
  split <;> rfl

/-- A good answer replaces the server and ends a series of retries. -/
theorem getServerInfo_ok (server : ServerInfo) :
    client.getServerInfo (.OK, server) = newStub { client with server, retries := 0 } := rfl

/-- A failed call is tried again, or the client ends. -/
theorem getServerInfo_of_ne_ok {answer : Status × ServerInfo} (h : answer.1.code ≠ .ok) :
    client.getServerInfo answer =
      if answer.1.code = .unavailable ∧ client.retries < MAX_RETRIES then
        newStub { client.print SERVER_UNAVAILABLE with retries := client.retries + 1 }
      else { client.print CANNOT_REACH_SERVER with exited := true } := by
  rw [getServerInfo, if_pos h]

end Process

/-! ## Steps -/

inductive Step (s : System) : Event → System → Prop
  | coordinator {e : SNSCoordinator.Event} {c : SNSCoordinator} (h : s.coordinator.handle e = .ok c) :
      Step s (.coordinator e) { s with coordinator := c }
  | connect : Step s .connect {
      coordinator := s.coordinator.getUniqueClientID.1
      clients := s.clients ++ [{ id := s.coordinator.getUniqueClientID.2 }] }
  | gone {n : Nat} {failure : Option Failure} (h : s.running n = none) : Step s (.refresh n failure) s
  | refreshed {n : Nat} {failure : Option Failure} {client : Process} {c : SNSCoordinator}
      {answer : Status × ServerInfo} (hrunning : s.running n = some client)
      (hcall : s.getServer client.id failure = .ok (c, answer)) :
      Step s (.refresh n failure) { coordinator := c, clients := s.clients.set n (client.getServerInfo answer) }
  | noLogin {n : Nat} {success : Bool} (h : (s.running n).filter Process.awaitsLogin = none) :
      Step s (.login n success) s
  | login {n : Nat} {success : Bool} {client : Process} (hrunning : s.running n = some client)
      (hawaits : client.awaitsLogin = true) :
      Step s (.login n success) { s with clients := s.clients.set n (client.endConnect success) }

theorem step_of_handle {s s' : System} {e : Event} (h : s.handle e = .ok s') : Step s e s' := by
  cases e with
  | coordinator e =>
      obtain ⟨c, hc, h⟩ := bind_eq_ok.mp h
      cases h
      exact .coordinator hc
  | connect =>
      cases h
      exact .connect
  | refresh n failure =>
      rw [System.handle] at h
      cases hrunning : s.running n with
      | none =>
          rw [hrunning] at h
          cases h
          exact .gone hrunning
      | some client =>
          rw [hrunning] at h
          obtain ⟨⟨c, answer⟩, hcall, h⟩ := bind_eq_ok.mp h
          cases h
          exact .refreshed hrunning hcall
  | login n success =>
      rw [System.handle] at h
      cases hlogin : (s.running n).filter Process.awaitsLogin with
      | none =>
          rw [hlogin] at h
          cases h
          exact .noLogin hlogin
      | some client =>
          rw [hlogin] at h
          cases h
          obtain ⟨hrunning, hawaits⟩ := Option.filter_eq_some_iff.mp hlogin
          exact .login hrunning hawaits

theorem running_eq_some {s : System} {n : Nat} {client : Process} :
    s.running n = some client ↔ s.clients[n]? = some client ∧ client.exited = false := by
  simp [System.running, Option.filter_eq_some_iff]

end DistributedSns.Client.Refresh
