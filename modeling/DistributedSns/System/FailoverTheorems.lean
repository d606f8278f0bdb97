import DistributedSns.System.Lemmas.Failover

/-!
# What survives a failover

A server which comes back is not synchronised again, so a new master may lack what was acknowledged while it
was inactive. A server which was active whenever a request was propagated lacks nothing.
-/

namespace DistributedSns.System.Failover

open Lib (Machine update)
open Coordinator (SNSCoordinator)
open Server
open Server.SNSServer (Method)

section

variable {tz : TimeZone} {i : Nat} {g : Graph} {c₀ c : State} {tr : List (State × Event)}

theorem succeeded_concat (l : List ((Method × Request) × SNSStatus)) (x : (Method × Request) × SNSStatus) :
    succeeded (l ++ [x]) = succeeded l ++ if x.2 = .SUCCESS then [x.1] else [] := by
  rw [succeeded, List.filter_append, List.map_append, succeeded]
  congr 1
  by_cases hx : x.2 = .SUCCESS
  · simp [hx]
  · simp [hx]

/-- If the servers which handle the requests of clients lack nothing, the requests which fail write nothing. -/
theorem applied_succeeded (h₀ : Start i g c₀) (hrun : (machine tz i g).Run c₀ tr c)
    (hroots : ∀ tr₁ c₁ root method request tr₂, tr = tr₁ ++ (c₁, .accept root method request) :: tr₂ →
      ∀ x ∈ tr₁, serves root x.1 x.2 = true) :
    ∀ l, l <+: accepted tz tr → applied g (succeeded l) = applied g (l.map Prod.fst) := by
  induction hrun with
  | nil =>
      intro l hl
      rw [List.prefix_nil.mp hl]
      rfl
  | @snoc tr c e c' hrun hstep ih =>
      have hprev := ih fun tr₁ c₁ root method request tr₂ he =>
        hroots tr₁ c₁ root method request (tr₂ ++ [(c, e)]) (by rw [he]; simp)
      intro l hl
      rw [accepted_concat] at hl
      cases hacc : acceptedIn tz c e with
      | none =>
          rw [hacc, Option.toList_none, List.append_nil] at hl
          exact hprev l hl
      | some x =>
          rw [hacc, Option.toList_some, List.prefix_concat_iff] at hl
          rcases hl with rfl | hl
          · have hbefore := hprev _ (List.prefix_refl _)
            rw [succeeded_concat, applied_concat]
            split_ifs with hx
            · rw [applied, List.foldl_concat, ← applied, hbefore]
            · rw [List.append_nil, hbefore]
              -- the server which has handled the request has all before it
              cases step_outcome hstep with
              | @accept root method request ha =>
                  have hrefl := reflects_of_run h₀ hrun (hroots tr c root method request [] rfl)
                  rw [acceptedIn] at hacc
                  cases hs : c.servers root with
                  | none => simp [hs] at hacc
                  | some s =>
                      cases hr : s.handle tz method request with
                      | error x => simp [hs, hr] at hacc
                      | ok r =>
                          simp only [hs, hr, Option.some.injEq] at hacc
                          subst hacc
                          have hwf := (runInv_of_run h₀ hrun).wellFormed root s hs
                          rw [← hrefl.of_quiet ha.quiet hs, ← graph_handle hwf hr,
                            (handle_outcome hwf hr).eq_of_failure hx]
              | heartbeat hstart ho => cases hacc
              | drop htasks hdead => cases hacc
              | call htasks => cases hacc
              | propogate htasks hs => cases hacc
              | propogateHelper htasks hs hl => cases hacc
          · exact hprev l hl

/-- A server which has not been missed by any request has handled all that have been acknowledged. -/
theorem active_server_reflects (h₀ : (machine tz i g).init c₀) (hrun : (machine tz i g).Run c₀ tr c) {addr : Str}
    (hserves : ∀ x ∈ tr, serves addr x.1 x.2 = true) {s : SNSServer} (hs : c.servers addr = some s) :
    ∃ l, answered tz tr c <+: l ∧ l <+: accepted tz tr ∧ s.graph = applied g (l.map Prod.fst) ∧
      ((∀ tr₁ c₁ root method request tr₂, tr = tr₁ ++ (c₁, .accept root method request) :: tr₂ →
          ∀ x ∈ tr₁, serves root x.1 x.2 = true) → s.graph = applied g (succeeded l)) := by
  have hrefl := reflects_of_run h₀ hrun hserves
  have hsucc {l : List ((Method × Request) × SNSStatus)} (hl : l <+: accepted tz tr)
      (hg : s.graph = applied g (l.map Prod.fst)) :
      (∀ tr₁ c₁ root method request tr₂, tr = tr₁ ++ (c₁, .accept root method request) :: tr₂ →
        ∀ x ∈ tr₁, serves root x.1 x.2 = true) → s.graph = applied g (succeeded l) := by
    intro hroots
    rw [applied_succeeded h₀ hrun hroots l hl, hg]
  have hprefix : answered tz tr c <+: accepted tz tr := by
    rw [answered]
    split_ifs
    · exact List.prefix_refl _
    · exact List.dropLast_prefix _
  rcases hrefl s hs with hg | ⟨l, x, hl, hg, t, ht, -⟩
  · exact ⟨_, hprefix, List.prefix_refl _, hg, hsucc (List.prefix_refl _) hg⟩
  · have htasks : c.tasks ≠ [] := List.ne_nil_of_mem ht
    have hpre : l <+: accepted tz tr := by
      rw [hl]
      exact List.prefix_append l [x]
    refine ⟨l, ?_, hpre, hg, hsucc hpre hg⟩
    rw [answered, if_neg htasks, hl, List.dropLast_concat]

end

/-! ## Two servers -/

/-- The coordinator after two servers of a cluster have registered. -/
def twoServers : List SNSCoordinator.Event :=
  [.heartbeat 0 { clusterid := 1, serverid := 1, hostname := ['a'], port := ['1'] },
    .heartbeat 0 { clusterid := 1, serverid := 2, hostname := ['a'], port := ['2'] }]

def member (serverid : Int) (port : Str) (master : Bool) : SNSServer :=
  { serverInfo := { clusterid := 1, serverid, hostname := ['a'], port, registered := true }, master }

/-- The state after both have heard of their roles. -/
def State.registered (c : SNSCoordinator) : State where
  cluster := {
    network := {
      coordinator := c
      servers := fun addr =>
        if addr = ['a', ':', '1'] then some (member 1 ['1'] true)
        else if addr = ['a', ':', '2'] then some (member 2 ['2'] false)
        else none }
    inFlight := fun _ => .nothing }
  tasks := []

theorem registered_start {c : SNSCoordinator} (hc : twoServers.foldlM SNSCoordinator.handle (.init 1) = .ok c)
    (hcluster : allZNodes c (fun j _ _ => decide (j = 0)) = true)
    (h₁ : (c.zNode? 0 1).map (·.getAddress) = some ['a', ':', '1'])
    (h₂ : (c.zNode? 0 2).map (·.getAddress) = some ['a', ':', '2']) :
    Start 0 (fun _ => false) (.registered c) := by
  have hcases (addr : Str) (s : SNSServer) (hs : (State.registered c).servers addr = some s) :
      (addr = ['a', ':', '1'] ∧ s = member 1 ['1'] true) ∨ (addr = ['a', ':', '2'] ∧ s = member 2 ['2'] false) := by
    simp only [State.servers, State.registered] at hs
    split_ifs at hs with ha hb
    · cases hs
      exact Or.inl ⟨ha, rfl⟩
    · cases hs
      exact Or.inr ⟨hb, rfl⟩
  have hempty (serverid : Int) (port : Str) (master : Bool) :
      (member serverid port master).graph = fun _ => false := by
    funext k
    cases k <;> rfl
  constructor
  · exact .of_reachable (Machine.reachable_of_foldlM rfl hc)
  · intro j k z hz
    simpa using of_allZNodes hcluster hz
  · intro addr s hs
    rcases hcases addr s hs with ⟨-, rfl⟩ | ⟨-, rfl⟩ <;> rfl
  · intro addr s hs
    rcases hcases addr s hs with ⟨rfl, rfl⟩ | ⟨rfl, rfl⟩
    · exact ⟨rfl, rfl, Option.map_eq_some_iff.mp h₁⟩
    · exact ⟨rfl, rfl, Option.map_eq_some_iff.mp h₂⟩
  · intro addr s hs
    rcases hcases addr s hs with ⟨-, rfl⟩ | ⟨-, rfl⟩ <;> exact .empty rfl rfl
  · intro addr s hs
    rcases hcases addr s hs with ⟨-, rfl⟩ | ⟨-, rfl⟩ <;> exact hempty _ _ _
  · intro addr
    rfl
  · rfl

/-- The events are a run of the two servers. -/
theorem exists_run {l : List Event} {P : List (State × Event) → State → Prop}
    (h : ∃ c, twoServers.foldlM SNSCoordinator.handle (.init 1) = .ok c ∧
      allZNodes c (fun j _ _ => decide (j = 0)) = true ∧
      (c.zNode? 0 1).map (·.getAddress) = some ['a', ':', '1'] ∧
      (c.zNode? 0 2).map (·.getAddress) = some ['a', ':', '2'] ∧
      ∃ c', l.foldlM (State.step .utc) (.registered c) = .ok c' ∧
        P (Machine.history (State.step .utc) (.registered c) l) c') :
    ∃ c₀ tr c, (machine .utc 0 fun _ => false).init c₀ ∧ (machine .utc 0 fun _ => false).Run c₀ tr c ∧ P tr c := by
  obtain ⟨c, hc, hcluster, h₁, h₂, c', hrun, hP⟩ := h
  exact ⟨_, _, c', registered_start hc hcluster h₁ h₂, Machine.run_of_foldlM hrun, hP⟩

/-- A login handled by the master and propagated to the active servers. -/
def loginAtMaster (u : Str) : List Event :=
  [.accept ['a', ':', '1'] .LOGIN { username := u }, .run, .run, .run]

/-- The first server expires, the second one is elected and hears of it. -/
def failover : List Event :=
  [.heartbeat (.check 15 0 1), .heartbeat (.check 16 0 1), .heartbeat (.sendHeartbeat ['a', ':', '2']),
    .heartbeat (.handle 17 ['a', ':', '2']), .heartbeat (.receive ['a', ':', '2'])]

/-- The new master has the login which was propagated to it. -/
theorem active_server_reflects_failover : ∃ c₀ tr c, (machine .utc 0 fun _ => false).init c₀ ∧
    (machine .utc 0 fun _ => false).Run c₀ tr c ∧ ∃ s l, c.servers ['a', ':', '2'] = some s ∧ s.master = true ∧
      answered .utc tr c = [((.LOGIN, { username := ['c'] }), .SUCCESS)] ∧ answered .utc tr c <+: l ∧
        l <+: accepted .utc tr ∧ s.graph = applied (fun _ => false) (l.map Prod.fst) := by
  obtain ⟨c₀, tr, c, hc₀, hrun, hserves, hanswered, s, hs, hm⟩ := exists_run
    (l := loginAtMaster ['c'] ++ [.run, .run] ++ failover)
    (P := fun tr c => (∀ x ∈ tr, serves ['a', ':', '2'] x.1 x.2 = true) ∧
      answered .utc tr c = [((.LOGIN, { username := ['c'] }), .SUCCESS)] ∧
      ∃ s, c.servers ['a', ':', '2'] = some s ∧ s.master = true)
    ⟨_, rfl, by decide +kernel, by decide +kernel, by decide +kernel, _, rfl, by decide +kernel,
      by decide +kernel, _, rfl, by decide +kernel⟩
  obtain ⟨l, hl, hl', hg, -⟩ := active_server_reflects hc₀ hrun hserves hs
  exact ⟨c₀, tr, c, hc₀, hrun, s, l, hs, hm, hanswered, hl, hl', hg⟩

/-- A server which was inactive when the master acknowledged a login becomes master without it. -/
theorem failover_loses_login : ∃ c₀ tr c, (machine .utc 0 fun _ => false).init c₀ ∧
    (machine .utc 0 fun _ => false).Run c₀ tr c ∧ c.tasks = [] ∧
      (∃ x ∈ tr, x.2 = .accept ['a', ':', '1'] .LOGIN { username := ['c'] } ∧
        (x.1.cluster.zNode? 0 1).any (·.master) = true ∧ (x.1.servers ['a', ':', '1']).any (·.master) = true) ∧
      ((.LOGIN, { username := ['c'] }), .SUCCESS) ∈ answered .utc tr c ∧
      (c.cluster.zNode? 0 2).any (·.master) = true ∧
      (∃ x ∈ tr, (x.1.servers ['a', ':', '2']).any (·.master) = false) ∧
      ∃ s, c.servers ['a', ':', '2'] = some s ∧ s.master = true ∧ s.hasUser ['c'] = false :=
  exists_run
    (l := [.heartbeat (.check 11 0 2), .heartbeat (.check 12 0 2), .heartbeat (.check 13 0 2)] ++
      loginAtMaster ['c'] ++
      [.heartbeat (.sendHeartbeat ['a', ':', '2']), .heartbeat (.handle 14 ['a', ':', '2']),
        .heartbeat (.receive ['a', ':', '2'])] ++ failover)
    ⟨_, rfl, by decide +kernel, by decide +kernel, by decide +kernel, _, rfl, by decide +kernel,
      by decide +kernel, by decide +kernel, by decide +kernel, by decide +kernel, _, rfl, by decide +kernel,
      by decide +kernel⟩

end DistributedSns.System.Failover
