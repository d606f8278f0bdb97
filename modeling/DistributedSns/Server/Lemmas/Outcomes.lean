import DistributedSns.Lib.Machine
import DistributedSns.Server.Lemmas.Handlers

/-!
# The outcomes of a request

One inversion for all handlers: what a request that returns has done to a well-formed server. The server as a
machine which handles one request after the other stays well-formed.
-/

namespace DistributedSns.Server

open Lib (Machine)
open SNSServer

/-- What handling a request does, with the status of its reply. -/
inductive HandleOutcome (s : SNSServer) (tz : TimeZone) (request : Request) :
    Method → SNSServer → SNSStatus → Prop
  | loginKnown {i : Nat} (hi : s.getClient request.username = some i) :
      HandleOutcome s tz request .LOGIN s .SUCCESS
  | loginNew (hnew : s.getClient request.username = none) :
      HandleOutcome s tz request .LOGIN
        ((s.addClient request.username).writeUserinfo (userLine request.username)) .SUCCESS
  | followSelf {b : Str} {i : Nat} (hk : Known s request b i i) :
      HandleOutcome s tz request .FOLLOW s .FAILURE_INVALID
  | followAgain {b : Str} {i j : Nat} {c : Client} (hk : Known s request b i j) (hne : i ≠ j)
      (hc : s.heap[i]? = some c) (hm : j ∈ c.client_following) :
      HandleOutcome s tz request .FOLLOW s .FAILURE_ALREADY_EXISTS
  | followNew {b text : Str} {i j : Nat} {c : Client} (hk : Known s request b i j) (hne : i ≠ j)
      (hc : s.heap[i]? = some c) (hm : j ∉ c.client_following)
      (htext : timestampToStr tz request.timestamp = .ok text) :
      HandleOutcome s tz request .FOLLOW
        ((s.link i j request.timestamp).writeUserinfo (followLine request.username b text)) .SUCCESS
  | unfollowSelf {b : Str} {i : Nat} (hk : Known s request b i i) :
      HandleOutcome s tz request .UNFOLLOW s .FAILURE_INVALID
  | unfollowNone {b : Str} {i j : Nat} {c : Client} (hk : Known s request b i j) (hne : i ≠ j)
      (hc : s.heap[i]? = some c) (hm : j ∉ c.client_following) :
      HandleOutcome s tz request .UNFOLLOW s .FAILURE_NOT_A_FOLLOWER
  | unfollow {b : Str} {i j : Nat} {c : Client} (hk : Known s request b i j) (hne : i ≠ j)
      (hc : s.heap[i]? = some c) (hm : j ∈ c.client_following) :
      HandleOutcome s tz request .UNFOLLOW
        ((s.unlink i j).writeUserinfo (unfollowLine request.username b)) .SUCCESS
  | post {i : Nat} {data : Str} {w : List (StreamId × Message)}
      (hi : s.getClient request.message.username = some i)
      (hdata : formatMessageOutput tz request.message = .ok data) :
      HandleOutcome s tz request .ADD_POST
        { s with
          all_posts := s.all_posts ++ [.ofMessage request.message]
          posts := s.posts ++ data
          written := w } .SUCCESS

section

variable {s s' : SNSServer} {tz : TimeZone} {request : Request} {reply : Reply}

theorem login_outcome (h : WellFormed s) (hr : s.login request = .ok (s', reply)) :
    HandleOutcome s tz request .LOGIN s' reply.status := by
  rw [login_eq h, Except.ok.injEq] at hr
  cases hu : s.getClient request.username with
  | some i =>
      rw [hu, if_pos Option.isSome_some] at hr
      cases hr
      exact .loginKnown hu
  | none =>
      rw [hu, if_neg (by simp)] at hr
      cases hr
      exact .loginNew hu

theorem follow_outcome (h : WellFormed s) (hr : s.follow tz request = .ok (s', reply)) :
    HandleOutcome s tz request .FOLLOW s' reply.status := by
  obtain ⟨b, i, j, hk⟩ := follow_known hr
  obtain ⟨c, hc, -⟩ := h.getClient_eq_some.mp hk.requester
  rw [h.follow_eq hk hc] at hr
  by_cases hij : i = j
  · rw [if_pos hij] at hr
    cases hr
    exact .followSelf (hij ▸ hk)
  · rw [if_neg hij] at hr
    by_cases hm : j ∈ c.client_following
    · rw [if_pos hm] at hr
      cases hr
      exact .followAgain hk hij hc hm
    · rw [if_neg hm] at hr
      obtain ⟨text, htext, hr⟩ := bind_eq_ok.mp hr
      cases hr
      exact .followNew hk hij hc hm htext

theorem unfollow_outcome (h : WellFormed s) (hr : s.unfollow request = .ok (s', reply)) :
    HandleOutcome s tz request .UNFOLLOW s' reply.status := by
  obtain ⟨b, i, j, hk⟩ := unfollow_known hr
  obtain ⟨c, hc, -⟩ := h.getClient_eq_some.mp hk.requester
  rw [h.unfollow_eq hk hc, Except.ok.injEq] at hr
  by_cases hij : i = j
  · rw [if_pos hij] at hr
    cases hr
    exact .unfollowSelf (hij ▸ hk)
  · rw [if_neg hij] at hr
    by_cases hm : j ∈ c.client_following
    · rw [if_pos hm] at hr
      cases hr
      exact .unfollow hk hij hc hm
    · rw [if_neg hm] at hr
      cases hr
      exact .unfollowNone hk hij hc hm

theorem addPost_outcome (hr : s.addPost tz request = .ok (s', reply)) :
    HandleOutcome s tz request .ADD_POST s' reply.status := by
  obtain ⟨s₁, hs₁, hr⟩ := bind_eq_ok.mp hr
  obtain ⟨i, data, w, hi, hdata, rfl⟩ := addPostHelper_eq hs₁
  cases hr
  exact .post hi hdata

theorem handle_outcome (h : WellFormed s) {method : Method}
    (hr : s.handle tz method request = .ok (s', reply)) :
    HandleOutcome s tz request method s' reply.status := by
  cases method with
  | LOGIN => exact login_outcome h hr
  | FOLLOW => exact follow_outcome h hr
  | UNFOLLOW => exact unfollow_outcome h hr
  | ADD_POST => exact addPost_outcome hr

theorem HandleOutcome.wellFormed {method : Method} {status : SNSStatus} (h : WellFormed s)
    (ho : HandleOutcome s tz request method s' status) : WellFormed s' := by
  cases ho with
  | loginKnown hi => exact h
  | loginNew hnew => exact (h.addClient hnew).congr rfl rfl
  | followSelf hk => exact h
  | followAgain hk hne hc hm => exact h
  | followNew hk hne hc hm htext =>
      obtain ⟨d, hd, -⟩ := h.getClient_eq_some.mp hk.target
      exact (h.link (lt_of_getElem? hc) (lt_of_getElem? hd) hne hc hm _).congr rfl rfl
  | unfollowSelf hk => exact h
  | unfollowNone hk hne hc hm => exact h
  | unfollow hk hne hc hm => exact (h.unlink hne).congr rfl rfl
  | post hi hdata => exact h.congr rfl rfl

/-- A request whose reply is not `SUCCESS` leaves the server as it is. -/
theorem HandleOutcome.eq_of_failure {method : Method} {status : SNSStatus}
    (h : HandleOutcome s tz request method s' status) (hfail : status ≠ .SUCCESS) : s' = s := by
  cases h with
  | loginKnown hi => rfl
  | loginNew hnew => exact absurd rfl hfail
  | followSelf hk => rfl
  | followAgain hk hne hc hm => rfl
  | followNew hk hne hc hm htext => exact absurd rfl hfail
  | unfollowSelf hk => rfl
  | unfollowNone hk hne hc hm => rfl
  | unfollow hk hne hc hm => exact absurd rfl hfail
  | post hi hdata => exact absurd rfl hfail

end

/-! ## Runs of a server -/

/-- No user has logged in yet. -/
structure Fresh (s : SNSServer) : Prop where
  heap : s.heap = []
  client_db : s.client_db = []

theorem Fresh.wellFormed {s : SNSServer} (h : Fresh s) : WellFormed s := .empty h.heap h.client_db

/-- Handles one request, whose reply is left out. -/
def handleRequest (tz : TimeZone) (s : SNSServer) (e : Method × Request) : Except Fault SNSServer := do
  let r ← s.handle tz e.1 e.2
  return r.1

/-- A server which starts empty and handles requests one at a time. -/
def serverMachine (tz : TimeZone) : Machine SNSServer (Method × Request) :=
  .ofFun (fun s => Fresh s ∧ s.userinfo = []) (handleRequest tz)

theorem serverMachine_step {tz : TimeZone} {s s' : SNSServer} {e : Method × Request} (h : WellFormed s)
    (hs : (serverMachine tz).step s e s') : ∃ status, HandleOutcome s tz e.2 e.1 s' status := by
  obtain ⟨⟨s₁, reply⟩, hr, hs⟩ := bind_eq_ok.mp hs
  cases hs
  exact ⟨reply.status, handle_outcome h hr⟩

theorem wellFormed_of_reachable {tz : TimeZone} {s : SNSServer} (h : (serverMachine tz).Reachable s) :
    WellFormed s := by
  apply h.invariant
  · intro s hs
    exact hs.1.wellFormed
  · intro s e s' hs hstep
    obtain ⟨status, ho⟩ := serverMachine_step hs hstep
    exact ho.wellFormed hs

end DistributedSns.Server
