import DistributedSns.Server.Lemmas.Restore

/-!
# Theorems about a single server
-/

namespace DistributedSns.Server

open Lib (Machine)
open SNSServer

variable {tz : TimeZone} {s₀ s r₀ : SNSServer} {tr : List (SNSServer × (Method × Request))}

theorem logged_of_run (hs₀ : (serverMachine tz).init s₀) (hrun : (serverMachine tz).Run s₀ tr s)
    (hlog : ∀ x ∈ tr, Loggable tz x.2.1 x.2.2) : Logged tz s := by
  apply hrun.invariant_of (C := fun _ e => Loggable tz e.1 e.2) hlog
  · exact .init hs₀.1 hs₀.2
  · intro s e s' hs hl hstep
    obtain ⟨status, ho⟩ := serverMachine_step hs.wellFormed hstep
    exact hs.outcome hl ho

/-- Replaying the log of a server restores its clients. The replay returns, so it finds every argument, every
user and every list entry it looks for. -/
theorem replay_restores (hs₀ : (serverMachine tz).init s₀) (hrun : (serverMachine tz).Run s₀ tr s)
    (hlog : ∀ x ∈ tr, Loggable tz x.2.1 x.2.2) (hr₀ : Fresh r₀) (save : Bool) :
    readLines s.userinfo = s.userinfo ∧
      ∃ r, r₀.processUserInfoFromFile tz s.userinfo save = .ok r ∧ Restored tz s r := by
  have hs := logged_of_run hs₀ hrun hlog
  obtain ⟨r, hr, -, hsr, -⟩ := hs.processUserInfoFromFile hr₀ save
  exact ⟨hs.readLines, r, hr, hsr⟩

/-! ## A run with failed requests, an unfollow and a second follow -/

def loginCall (u : Str) : Method × Request := (.LOGIN, { username := u })

def followCall (a b : Str) (seconds : Int) : Method × Request :=
  (.FOLLOW, { username := a, arguments := [b], timestamp := { seconds, nanos := 7 } })

def unfollowCall (a b : Str) : Method × Request := (.UNFOLLOW, { username := a, arguments := [b] })

theorem loggable_loginCall {u : Str} (hu : Word u) : Loggable tz (loginCall u).1 (loginCall u).2 := by
  constructor
  · exact fun _ => hu
  · nofun

theorem loggable_followCall {a b : Str} {seconds : Int} (ht : ∃ t', ReadBack tz { seconds, nanos := 7 } t') :
    Loggable tz (followCall a b seconds).1 (followCall a b seconds).2 := by
  constructor
  · nofun
  · exact fun _ => ht

theorem loggable_unfollowCall {a b : Str} : Loggable tz (unfollowCall a b).1 (unfollowCall a b).2 := by
  constructor <;> nofun

def accountRequests : List (Method × Request) :=
  [loginCall ['a'], loginCall ['b'], loginCall ['a'], followCall ['a'] ['b'] 86400,
    followCall ['b'] ['a'] 90061, followCall ['a'] ['b'] 100000, unfollowCall ['a'] ['b'],
    unfollowCall ['a'] ['b'], followCall ['a'] ['b'] 1700000000]

theorem loggable_accountRequests : ∀ e ∈ accountRequests, Loggable .utc e.1 e.2 := by
  have ha : Word ['a'] := by constructor <;> decide
  have hb : Word ['b'] := by constructor <;> decide
  simp only [accountRequests, List.forall_mem_cons]
  exact ⟨loggable_loginCall ha, loggable_loginCall hb, loggable_loginCall ha, loggable_followCall ⟨_, rfl⟩,
    loggable_followCall ⟨_, rfl⟩, loggable_followCall ⟨_, rfl⟩, loggable_unfollowCall, loggable_unfollowCall,
    loggable_followCall ⟨_, rfl⟩, by simp⟩

theorem replay_restores_accountRequests : ∃ s r : SNSServer,
    accountRequests.foldlM (handleRequest .utc) {} = .ok s ∧ s.userinfo ≠ [] ∧
      ({} : SNSServer).processUserInfoFromFile .utc s.userinfo true = .ok r ∧ Restored .utc s r := by
  have hrun : ∃ s, accountRequests.foldlM (handleRequest .utc) {} = .ok s ∧ s.userinfo ≠ [] ∧
      ∀ x ∈ Machine.history (handleRequest .utc) {} accountRequests, x.2 ∈ accountRequests :=
    ⟨_, rfl, by decide +kernel, by decide +kernel⟩
  obtain ⟨s, hs, hne, hhist⟩ := hrun
  have hfresh : Fresh ({} : SNSServer) := ⟨rfl, rfl⟩
  obtain ⟨-, r, hr, hsr⟩ := replay_restores ⟨hfresh, rfl⟩ (Machine.run_of_foldlM hs)
    (fun x hx => loggable_accountRequests x.2 (hhist x hx)) hfresh true
  exact ⟨s, r, hs, hne, hr, hsr⟩

end DistributedSns.Server
