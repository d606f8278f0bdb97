import DistributedSns.Client.Lemmas.Refresh

/-!
# How long a client keeps up

A client holds the server it was told last and counts the refreshes which failed since. It gives up at the fourth
failure in a row, or at once if the coordinator cannot be reached for another reason than being unavailable, and it does
not even begin if its server does not accept the login. A refresh fails if it does not come to the coordinator, or if no
cluster has a master.
-/

namespace DistributedSns.Client.Refresh

open Lib Coordinator SNSCoordinator

variable {numClusters : Int} {s s' : System} {e : Event} {n : Nat} {client : Process} {tr : List (System × Event)}

/-! ## The refreshes of a client -/

/-- The entry is a refresh of the client with number `n`, whose process is there. -/
def isRefresh (n : Nat) (x : System × Event) : Bool :=
  match x.2 with
  | .refresh m _ => m = n && (x.1.running n).isSome
  | _ => false

def refreshes (n : Nat) (tr : List (System × Event)) : List (System × Event) := tr.filter (isRefresh n)

/-- The login of the client fails in this entry. -/
def isRejection (n : Nat) (x : System × Event) : Bool :=
  match x.2 with
  | .login m false => m = n && (x.1.running n).any Process.awaitsLogin
  | _ => false

def rejected (n : Nat) (tr : List (System × Event)) : Bool := tr.any (isRejection n)

/-- The refresh did not come to the coordinator, or there was no master. -/
def Fails (x : System × Event) : Prop :=
  (∃ n failure, x.2 = .refresh n (some failure)) ∨ ¬ ∃ i, HasMaster x.1.coordinator i

/-- The refresh failed for another reason than that something is unavailable. -/
def Fatal (x : System × Event) : Prop :=
  ∃ n failure, x.2 = .refresh n (some failure) ∧ failure.status.code ≠ .unavailable

/-- The client holds what it was told in the refresh, and the channel goes to this server. -/
def ToldIn (x : System × Event) (client : Process) : Prop :=
  ∃ ref z, Tells x.1.coordinator ref z (.OK, client.server) ∧ client.stub_ = some z.getAddress

/-- The refreshes up to the last good one, those which failed since, and whether the login failed. -/
structure Keeps (good failed : List (System × Event)) (rejected : Bool) (client : Process) : Prop where
  fails : ∀ x ∈ failed, Fails x
  /-- without a good refresh there is no server -/
  told : (good = [] ∧ client.server = {}) ∨ ∃ l x, good = l ++ [x] ∧ ¬ Fails x ∧ ToldIn x client
  retries : client.exited = false → client.retries = failed.length
  running : client.exited = false → rejected = false ∧ failed.length ≤ MAX_RETRIES ∧ ∀ x ∈ failed, ¬ Fatal x
  exited : client.exited = true → rejected = true ∨ failed.length = MAX_RETRIES + 1 ∨ ∃ x ∈ failed, Fatal x
  bounded : failed.length ≤ MAX_RETRIES + 1

/-! ## One refresh -/

variable {good failed : List (System × Event)} {x : System × Event}

theorem Keeps.init (id : Int) : Keeps [] [] false { id } where
  fails := by simp
  told := Or.inl ⟨rfl, rfl⟩
  retries _ := rfl
  running _ := by simp
  exited h := by cases h
  bounded := Nat.zero_le _

theorem not_fails_of_tells {ref : ZRef} {z : ZNode} {answer : Status × ServerInfo} (hx : x.2 = .refresh n none)
    (ht : Tells x.1.coordinator ref z answer) : ¬ Fails x := by
  rintro (⟨m, failure, hfailed⟩ | hnone)
  · rw [hx] at hfailed
    cases hfailed
  · exact hnone ⟨_, hasMaster_of_isMaster ⟨z, ht.1, ht.2.1⟩⟩

/-- A good refresh ends a series of failures. -/
theorem Keeps.answered (hx : x.2 = .refresh n none) {ref : ZRef} {z : ZNode} {answer : Status × ServerInfo}
    (ht : Tells x.1.coordinator ref z answer) (halive : client.exited = false) :
    Keeps (good ++ [x]) [] false (client.getServerInfo answer) := by
  obtain ⟨hz, hm, changed, rfl⟩ := ht
  have hserver : (client.getServerInfo (.OK, { z.setServerInfo {} with changed })).server =
      { z.setServerInfo {} with changed } := by
    rw [Process.getServerInfo_ok, Process.server_newStub]
  have hexited : (client.getServerInfo (.OK, { z.setServerInfo {} with changed })).exited = false := by
    rw [Process.getServerInfo_ok, Process.exited_newStub, halive]
  constructor
  · simp
  · refine Or.inr ⟨good, x, rfl, not_fails_of_tells hx ⟨hz, hm, changed, rfl⟩, ref, z, ⟨hz, hm, changed, ?_⟩, ?_⟩
    · rw [hserver]
    · rw [Process.getServerInfo_ok, Process.stub_newStub]
      rfl
  · intro _
    rw [Process.getServerInfo_ok, Process.retries_newStub]
    rfl
  · simp
  · intro h
    rw [hexited] at h
    cases h
  · exact Nat.zero_le _

/-- The channel is made again, and goes to the same server as before. -/
theorem ToldIn.of_server_eq (h : ToldIn x client) {client' : Process} (hserver : client'.server = client.server)
    (hstub : client'.stub_ = client.stub_ ∨
      client'.stub_ = some (client.server.hostname ++ ":".toList ++ client.server.port)) : ToldIn x client' := by
  obtain ⟨ref, z, ht, haddress⟩ := h
  refine ⟨ref, z, by rwa [hserver], ?_⟩
  rcases hstub with hstub | hstub
  · rw [hstub, haddress]
  · obtain ⟨-, -, changed, heq⟩ := ht
    rw [hstub, (Prod.mk.inj heq).2]
    rfl

theorem Keeps.told_of_server_eq {b : Bool} (h : Keeps good failed b client) {client' : Process}
    (hserver : client'.server = client.server) (hstub : client'.stub_ = client.stub_ ∨
      client'.stub_ = some (client.server.hostname ++ ":".toList ++ client.server.port)) :
    (good = [] ∧ client'.server = {}) ∨ ∃ l x, good = l ++ [x] ∧ ¬ Fails x ∧ ToldIn x client' := by
  rcases h.told with ⟨hnil, hempty⟩ | ⟨l, x, hgood, hx, ht⟩
  · exact Or.inl ⟨hnil, hserver.trans hempty⟩
  · exact Or.inr ⟨l, x, hgood, hx, ht.of_server_eq hserver hstub⟩

/-- A failed refresh is tried again or ends the process. -/
theorem Keeps.refused (h : Keeps good failed false client) (hx : Fails x) {answer : Status × ServerInfo}
    (hcode : answer.1.code ≠ .ok) (hfatal : Fatal x ↔ answer.1.code ≠ .unavailable)
    (halive : client.exited = false) : Keeps good (failed ++ [x]) false (client.getServerInfo answer) := by
  obtain ⟨-, hle, hnofatal⟩ := h.running halive
  have hretries := h.retries halive
  have hfails : ∀ y ∈ failed ++ [x], Fails y :=
    List.forall_mem_append.mpr ⟨h.fails, List.forall_mem_singleton.mpr hx⟩
  have hlength : (failed ++ [x]).length = failed.length + 1 := List.length_append
  rw [Process.getServerInfo_of_ne_ok _ hcode]
  split
  next hretry =>
      have hx' : ¬ Fatal x := fun hf => hfatal.mp hf hretry.1
      constructor
      · exact hfails
      · exact h.told_of_server_eq (by simp) (Or.inr (by simp))
      · intro _
        simp [hretries]
      · intro _
        refine ⟨rfl, ?_, ?_⟩
        · rw [hlength, ← hretries]
          exact hretry.2
        · exact List.forall_mem_append.mpr ⟨hnofatal, List.forall_mem_singleton.mpr hx'⟩
      · intro hexited
        simp [halive] at hexited
      · omega
  next hend =>
      constructor
      · exact hfails
      · exact h.told_of_server_eq rfl (Or.inl rfl)
      · intro hexited
        cases hexited
      · intro hexited
        cases hexited
      · intro _
        by_cases hcode' : answer.1.code = .unavailable
        · have : ¬ client.retries < MAX_RETRIES := fun hlt => hend ⟨hcode', hlt⟩
          exact Or.inr (Or.inl (by omega))
        · exact Or.inr (Or.inr ⟨x, List.mem_append_right _ List.mem_cons_self, hfatal.mpr hcode'⟩)
      · omega

/-- The login of a client which has not been connected. -/
theorem Keeps.endConnect (h : Keeps good failed false client) (halive : client.exited = false) (success : Bool) :
    Keeps good failed (!success) (client.endConnect success) := by
  obtain ⟨-, hle, hnofatal⟩ := h.running halive
  constructor
  · exact h.fails
  · exact h.told_of_server_eq (by simp) (Or.inl (by simp))
  · intro _
    rw [Process.retries_endConnect]
    exact h.retries halive
  · intro hexited
    rw [Process.exited_endConnect, Bool.or_eq_false_iff] at hexited
    exact ⟨hexited.1, hle, hnofatal⟩
  · intro hexited
    rw [Process.exited_endConnect, halive, Bool.or_false] at hexited
    exact Or.inl hexited
  · exact h.bounded

/-! ## Runs -/

theorem refreshes_of_true (h : isRefresh n (s, e) = true) :
    refreshes n (tr ++ [(s, e)]) = refreshes n tr ++ [(s, e)] := by
  rw [refreshes, List.filter_append, List.filter_singleton, h]
  rfl

theorem refreshes_of_false (h : isRefresh n (s, e) = false) : refreshes n (tr ++ [(s, e)]) = refreshes n tr := by
  rw [refreshes, List.filter_append, List.filter_singleton, h]
  exact List.append_nil _

theorem rejected_concat : rejected n (tr ++ [(s, e)]) = (rejected n tr || isRejection n (s, e)) := by
  simp [rejected]

theorem fatal_iff {m : Nat} {failure : Failure} :
    Fatal (s, .refresh m (some failure)) ↔ failure.status.code ≠ .unavailable := by
  constructor
  · rintro ⟨_, _, heq, hcode⟩
    cases heq
    exact hcode
  · intro hcode
    exact ⟨m, failure, rfl, hcode⟩

/-- The refresh of a process which is there. -/
theorem Keeps.step (h : Keeps good failed false client) {failure : Option Failure} {c : SNSCoordinator}
    {answer : Status × ServerInfo} (hcall : s.getServer client.id failure = .ok (c, answer))
    (halive : client.exited = false) : ∃ good' failed',
      good ++ failed ++ [(s, .refresh n failure)] = good' ++ failed' ∧
      Keeps good' failed' false (client.getServerInfo answer) := by
  cases failure with
  | some failure =>
      cases hcall
      refine ⟨good, failed ++ [_], List.append_assoc .., h.refused ?_ failure.ne_ok fatal_iff halive⟩
      exact Or.inl ⟨n, failure, rfl⟩
  | none =>
      rcases getServer_answer hcall with ⟨ref, z, ht⟩ | ⟨hnone, hanswer⟩
      · exact ⟨good ++ failed ++ [_], [], (List.append_nil _).symm, .answered rfl ht halive⟩
      · obtain rfl : answer = (noServersAvailable, {}) := hanswer
        refine ⟨good, failed ++ [_], List.append_assoc .., h.refused (Or.inr hnone) ?_ ?_ halive⟩
        · simp [noServersAvailable]
        · refine ⟨?_, fun hcode => absurd rfl hcode⟩
          rintro ⟨_, _, heq, -⟩
          cases heq

/-- Every client holds what its own refreshes and its login told it. -/
structure History (tr : List (System × Event)) (s : System) : Prop where
  keeps : ∀ n client, s.clients[n]? = some client →
    ∃ good failed, refreshes n tr = good ++ failed ∧ Keeps good failed (rejected n tr) client
  none : ∀ n, s.clients[n]? = none → refreshes n tr = [] ∧ rejected n tr = false

/-- The entry is about another client. -/
def Quiet (n : Nat) (x : System × Event) : Prop := isRefresh n x = false ∧ isRejection n x = false

theorem Quiet.refreshes (h : Quiet n (s, e)) : refreshes n (tr ++ [(s, e)]) = refreshes n tr := refreshes_of_false h.1

theorem Quiet.rejected (h : Quiet n (s, e)) : rejected n (tr ++ [(s, e)]) = rejected n tr := by
  rw [rejected_concat, h.2, Bool.or_false]

/-- A step which is about no client. -/
theorem History.of_clients (h : History tr s) (he : ∀ n, Quiet n (s, e)) (hs : s'.clients = s.clients) :
    History (tr ++ [(s, e)]) s' := by
  constructor
  · intro n client hclient
    rw [hs] at hclient
    rw [(he n).refreshes, (he n).rejected]
    exact h.keeps n client hclient
  · intro n hnone
    rw [hs] at hnone
    rw [(he n).refreshes, (he n).rejected]
    exact h.none n hnone

/-- A step which is about one client. -/
theorem History.of_set (h : History tr s) (hclient : s.clients[n]? = some client) {client' : Process}
    (hs : s'.clients = s.clients.set n client') (he : ∀ m ≠ n, Quiet m (s, e))
    (hown : ∃ good failed, refreshes n (tr ++ [(s, e)]) = good ++ failed ∧
      Keeps good failed (rejected n (tr ++ [(s, e)])) client') : History (tr ++ [(s, e)]) s' := by
  constructor
  · intro m other hother
    rw [hs, List.getElem?_set] at hother
    split_ifs at hother with hmn hlt
    · subst hmn
      obtain rfl := Option.some.inj hother
      exact hown
    · rw [(he m (Ne.symm hmn)).refreshes, (he m (Ne.symm hmn)).rejected]
      exact h.keeps m other hother
  · intro m hnone
    rw [hs, List.getElem?_eq_none_iff, List.length_set, ← List.getElem?_eq_none_iff] at hnone
    have hmn : m ≠ n := by
      rintro rfl
      rw [hclient] at hnone
      cases hnone
    rw [(he m hmn).refreshes, (he m hmn).rejected]
    exact h.none m hnone

theorem History.step (h : History tr s) (hs : Step s e s') : History (tr ++ [(s, e)]) s' := by
  cases hs with
  | coordinator hc => exact h.of_clients (fun _ => ⟨rfl, rfl⟩) rfl
  | connect =>
      have hother (n : Nat) : Quiet n (s, .connect) := ⟨rfl, rfl⟩
      constructor
      · intro n client hclient
        rw [(hother n).refreshes, (hother n).rejected]
        rcases getElem?_concat_eq_some.mp hclient with hold | ⟨rfl, rfl⟩
        · exact h.keeps n client hold
        · obtain ⟨hnil, hfalse⟩ := h.none _ (List.getElem?_eq_none le_rfl)
          rw [hnil, hfalse]
          exact ⟨[], [], rfl, .init _⟩
      · intro n hnone
        rw [(hother n).refreshes, (hother n).rejected]
        apply h.none n
        rw [List.getElem?_eq_none_iff, List.length_append] at hnone
        rw [List.getElem?_eq_none_iff]
        omega
  | @gone m failure hgone =>
      refine h.of_clients (fun n => ⟨?_, rfl⟩) rfl
      by_cases hmn : m = n
      · subst hmn
        simp [isRefresh, hgone]
      · simp [isRefresh, hmn]
  | @refreshed m failure client c answer hrunning hcall =>
      obtain ⟨hclient, halive⟩ := running_eq_some.mp hrunning
      refine h.of_set hclient rfl (fun n hn => ⟨by simp [isRefresh, Ne.symm hn], rfl⟩) ?_
      obtain ⟨good, failed, hsplit, hkeeps⟩ := h.keeps m client hclient
      have hm : isRefresh m (s, .refresh m failure) = true := by simp [isRefresh, hrunning]
      have hrejected := (hkeeps.running halive).1
      rw [refreshes_of_true hm, rejected_concat, hsplit, hrejected]
      rw [hrejected] at hkeeps
      exact hkeeps.step hcall halive
  | @noLogin m success hno =>
      refine h.of_clients (fun n => ⟨rfl, ?_⟩) rfl
      cases success with
      | true => rfl
      | false =>
          by_cases hmn : m = n
          · subst hmn
            have hany : (s.running m).any Process.awaitsLogin = false := by
              rw [Option.any_eq_false_iff_get]
              exact fun hsome => Bool.eq_false_iff.mpr (Option.filter_eq_none_iff.mp hno _ (Option.some_get hsome).symm)
            simp [isRejection, hany]
          · simp [isRejection, hmn]
  | @login m success client hrunning hawaits =>
      obtain ⟨hclient, halive⟩ := running_eq_some.mp hrunning
      have hother (n : Nat) (hn : n ≠ m) : Quiet n (s, .login m success) := by
        cases success <;> simp [Quiet, isRefresh, isRejection, Ne.symm hn]
      refine h.of_set hclient rfl hother ?_
      obtain ⟨good, failed, hsplit, hkeeps⟩ := h.keeps m client hclient
      have hrejection : isRejection m (s, .login m success) = !success := by
        cases success <;> simp [isRejection, hrunning, hawaits]
      have hrejected := (hkeeps.running halive).1
      rw [refreshes_of_false rfl, rejected_concat, hsplit, hrejected, hrejection, Bool.false_or]
      rw [hrejected] at hkeeps
      exact ⟨good, failed, rfl, hkeeps.endConnect halive success⟩

end DistributedSns.Client.Refresh
