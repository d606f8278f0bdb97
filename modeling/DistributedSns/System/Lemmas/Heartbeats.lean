import DistributedSns.Coordinator.Lemmas.Entries
import DistributedSns.System.Heartbeats

/-!
# What a process knows of its role

A process which takes itself for the master is the coordinator's master, or the coordinator has taken the
lock from it since and the process has not heard of that.
-/

namespace DistributedSns.System.Heartbeats

open Lib (Machine)
open Coordinator
open Server (SNSServer)

/-! ## States -/

section

variable (c : State) (p : Str) (s : Option SNSServer) (m : InFlight) (coordinator : SNSCoordinator)

@[simp] theorem servers_setServer : (c.setServer p s).network.servers = Function.update c.network.servers p s :=
  rfl

@[simp] theorem inFlight_setServer : (c.setServer p s).inFlight = c.inFlight := rfl

@[simp] theorem coordinator_setServer : (c.setServer p s).network.coordinator = c.network.coordinator := rfl

@[simp] theorem network_setInFlight : (c.setInFlight p m).network = c.network := rfl

@[simp] theorem inFlight_setInFlight : (c.setInFlight p m).inFlight = Function.update c.inFlight p m := rfl

@[simp] theorem servers_setCoordinator : (c.setCoordinator coordinator).network.servers = c.network.servers := rfl

@[simp] theorem inFlight_setCoordinator : (c.setCoordinator coordinator).inFlight = c.inFlight := rfl

@[simp] theorem coordinator_setCoordinator :
    (c.setCoordinator coordinator).network.coordinator = coordinator := rfl

end

/-! ## Steps -/

inductive Outcome (c : State) : Event → State → Prop
  | start {p hostname port : Str} {clusterId serverId : Int} (hdead : c.network.servers p = none)
      (hidle : c.inFlight p = .nothing) :
      Outcome c (.start p hostname port clusterId serverId)
        ((c.setServer p (some { serverInfo := unregistered hostname port clusterId serverId })).setInFlight p
          (.request (unregistered hostname port clusterId serverId)))
  | sendHeartbeat {p : Str} {s : SNSServer} (hs : c.network.servers p = some s)
      (hidle : c.inFlight p = .nothing) :
      Outcome c (.sendHeartbeat p) (c.setInFlight p (.request s.serverInfo))
  | handle {now : Int} {p : Str} {info : ServerInfo} {coordinator : SNSCoordinator} {status : Status}
      {path : Path} (hm : c.inFlight p = .request info)
      (hr : c.network.coordinator.heartbeat now info = .ok (coordinator, status, path)) :
      Outcome c (.handle now p) ((c.setCoordinator coordinator).setInFlight p (.reply status path))
  | receive {p : Str} {status : Status} {path : Path} (hm : c.inFlight p = .reply status path) :
      Outcome c (.receive p)
        ((c.setServer p ((c.network.servers p).bind fun s => received s status path)).setInFlight p .nothing)
  | check {now : Int} {i : Nat} {k : Int} {coordinator : SNSCoordinator}
      (hr : c.network.coordinator.checkServer now i k = .ok coordinator) :
      Outcome c (.check now i k) (c.setCoordinator coordinator)
  | exit {p : Str} : Outcome c (.exit p) (c.setServer p none)

theorem step_outcome {c c' : State} {e : Event} (h : c.step e = .ok c') : Outcome c e c' := by
  cases e with
  | start p hostname port clusterId serverId =>
      rw [State.step] at h
      split at h
      next hdead hidle =>
        cases h
        exact .start hdead hidle
      next => cases h
  | sendHeartbeat p =>
      rw [State.step] at h
      split at h
      next s hs hidle =>
        cases h
        exact .sendHeartbeat hs hidle
      next => cases h
  | handle now p =>
      rw [State.step] at h
      split at h
      next info hm =>
        obtain ⟨⟨coordinator, status, path⟩, hr, h⟩ := bind_eq_ok.mp h
        cases h
        exact .handle hm hr
      next => cases h
  | receive p =>
      rw [State.step] at h
      split at h
      next status path hm =>
        cases h
        exact .receive hm
      next => cases h
  | check now i k =>
      obtain ⟨coordinator, hr, h⟩ := bind_eq_ok.mp h
      cases h
      exact .check hr
  | exit p =>
      cases h
      exact .exit

/-! ## The coordinator -/

/-- What a step leaves of the coordinator's knowledge: no server is forgotten, and a master stays master until
it expires. -/
structure Kept (c : State) (e : Event) (c' : State) : Prop where
  inv : Inv c'.network.coordinator
  known : ∀ i k, (c.zNode? i k).isSome = true → (c'.zNode? i k).isSome = true
  master : ∀ i k, c.IsMaster i k → c'.IsMaster i k ∨ Expires c e i k

theorem zNode?_of_coordinator {c c' : State} (h : c'.network.coordinator = c.network.coordinator) (i : Nat)
    (k : Int) : c'.zNode? i k = c.zNode? i k := by
  rw [State.zNode?, State.zNode?, h]

theorem Kept.of_coordinator {c c' : State} {e : Event} (hinv : Inv c.network.coordinator)
    (h : c'.network.coordinator = c.network.coordinator) : Kept c e c' := by
  have hz := zNode?_of_coordinator h
  constructor
  · rw [h]
    exact hinv
  · intro i k
    rw [hz]
    exact id
  · intro i k hm
    left
    rwa [State.IsMaster, hz]

theorem kept_handle {c : State} (hinv : Inv c.network.coordinator) {now : Int} {p : Str} {info : ServerInfo}
    {coordinator : SNSCoordinator} {status : Status} {path : Path} (m : InFlight)
    (hr : c.network.coordinator.heartbeat now info = .ok (coordinator, status, path)) :
    Kept c (.handle now p) ((c.setCoordinator coordinator).setInFlight p m) := by
  have ho := heartbeat_outcome hinv.service hr
  rcases heartbeat_entry ho with ⟨hc, -, -⟩ | ⟨i, z, he⟩
  · exact .of_coordinator hinv hc
  · constructor
    · exact hinv.heartbeat ho
    · intro j k hsome
      have hz : coordinator.zNode? j k = _ := he.zNode? j k
      rw [State.zNode?, network_setInFlight, coordinator_setCoordinator, hz]
      split_ifs
      · rfl
      · exact hsome
    · rintro j k ⟨z₀, hz₀, hm₀⟩
      left
      have hz : coordinator.zNode? j k = _ := he.zNode? j k
      rw [State.IsMaster, State.zNode?, network_setInFlight, coordinator_setCoordinator, hz]
      split_ifs with hjk
      · obtain ⟨rfl, rfl⟩ := hjk
        exact ⟨z, rfl, he.stays z₀ hz₀ hm₀⟩
      · exact ⟨z₀, hz₀, hm₀⟩

theorem kept_check {c : State} (hinv : Inv c.network.coordinator) {now : Int} {i : Nat} {k : Int}
    {coordinator : SNSCoordinator} (hr : c.network.coordinator.checkServer now i k = .ok coordinator) :
    Kept c (.check now i k) (c.setCoordinator coordinator) := by
  have ho := check_outcome hr
  rcases check_entry ho with hc | ⟨z, z', hz, -, hmaster, hzNode⟩
  · exact .of_coordinator hinv hc
  · constructor
    · exact hinv.check ho
    · intro j k' hsome
      rw [State.zNode?, coordinator_setCoordinator, hzNode]
      split_ifs
      · rfl
      · exact hsome
    · rintro j k' ⟨z₀, hz₀, hm₀⟩
      by_cases hjk : j = i ∧ k' = k
      · obtain ⟨rfl, rfl⟩ := hjk
        obtain rfl : z = z₀ := Option.some.inj (hz.symm.trans hz₀)
        rcases hmaster with hm | ⟨-, -, hlate, hone⟩
        · left
          refine ⟨z', ?_, hm.trans hm₀⟩
          rw [State.zNode?, coordinator_setCoordinator, hzNode, if_pos ⟨rfl, rfl⟩]
        · exact Or.inr ⟨now, z, rfl, hz₀, hm₀, hlate, hone⟩
      · left
        rw [State.IsMaster, State.zNode?, coordinator_setCoordinator, hzNode, if_neg hjk]
        exact ⟨z₀, hz₀, hm₀⟩

theorem Outcome.kept {c c' : State} {e : Event} (hinv : Inv c.network.coordinator) (h : Outcome c e c') :
    Kept c e c' := by
  cases h with
  | start hdead hidle => exact .of_coordinator hinv rfl
  | sendHeartbeat hs hidle => exact .of_coordinator hinv rfl
  | handle hm hr => exact kept_handle hinv _ hr
  | receive hm => exact .of_coordinator hinv rfl
  | check hr => exact kept_check hinv hr
  | exit => exact .of_coordinator hinv rfl

/-! ## Histories -/

section

variable {tr : List (State × Event)} {c : State} {e : Event} {i : Nat} {k : Int} {p : Str} {l : List Event}

theorem heard_concat (h : Heard p (l ++ [e])) :
    Heard p l ∨ (e = .receive p ∧ ∃ now, .handle now p ∈ l) := by
  obtain ⟨now, l₁, l₂, l₃, heq⟩ := h
  cases l₃ using List.reverseRecOn with
  | nil =>
      obtain ⟨rfl, he⟩ := List.append_inj' heq rfl
      right
      exact ⟨List.singleton_inj.mp he, now, by simp⟩
  | append_singleton l₃ e' =>
      left
      rw [← List.cons_append, ← List.append_assoc] at heq
      obtain ⟨rfl, -⟩ := List.append_inj' heq rfl
      exact ⟨now, l₁, l₂, l₃, rfl⟩

theorem ExpiredSince.of_expires {Q : List Event → Prop} (h : Expires c e i k) (hQ : Q []) :
    ExpiredSince (tr ++ [(c, e)]) i k Q :=
  ⟨tr, c, e, [], rfl, h, hQ⟩

theorem ExpiredSince.concat {Q Q' : List Event → Prop} (h : ExpiredSince tr i k Q)
    (hQ : ∀ l, Q l → Q' (l ++ [e])) : ExpiredSince (tr ++ [(c, e)]) i k Q' := by
  obtain ⟨tr₁, c₁, e₁, tr₂, rfl, he, h⟩ := h
  refine ⟨tr₁, c₁, e₁, tr₂ ++ [(c, e)], by simp, he, ?_⟩
  rw [List.map_append]
  exact hQ _ h

end

end DistributedSns.System.Heartbeats
