import DistributedSns.Server.Graph
import DistributedSns.Server.StreamTheorems

/-!
# When `Follow` and `UnFollow` return

Both handlers look for their target and have an answer for a name which nobody has. The log line after the branches
names the target in every case, so they return only if it exists.
-/

namespace DistributedSns.Server

open Lib (Machine)
open SNSServer

variable {tz : TimeZone} {s s' : SNSServer} {request : Request} {method : Method} {b : Str} {i : Nat}

/-- The handler returns, it says that the target does not exist exactly if it does not, and if it does not succeed it
changes nothing. -/
def Completes (tz : TimeZone) (s : SNSServer) (method : Method) (request : Request) (b : Str) : Prop :=
  ∃ s' reply, s.handle tz method request = .ok (s', reply) ∧
    (reply.status = .FAILURE_NOT_EXISTS ↔ s.getClient b = none) ∧
    (reply.status ≠ .SUCCESS → s'.client_db = s.client_db ∧ s'.heap = s.heap ∧ s'.userinfo = s.userinfo)

/-- The request to follow makes a new edge, whose time is written to the userinfo file. -/
def MakesEdge (s : SNSServer) (method : Method) (request : Request) (b : Str) : Prop :=
  method = .FOLLOW ∧ request.username ≠ b ∧ s.follows request.username b = false

theorem HandleOutcome.status_ne {status : SNSStatus} (h : HandleOutcome s tz request method s' status) :
    status ≠ .FAILURE_NOT_EXISTS := by
  cases h <;> simp

theorem completes_of_handle (h : WellFormed s) {reply : Reply} (hr : s.handle tz method request = .ok (s', reply))
    (hb : (s.getClient b).isSome) : Completes tz s method request b := by
  have ho := handle_outcome h hr
  refine ⟨s', reply, hr, iff_of_false ho.status_ne ?_, ?_⟩
  · intro hnone
    rw [hnone] at hb
    cases hb
  · intro hfail
    rw [ho.eq_of_failure hfail]
    exact ⟨rfl, rfl, rfl⟩

theorem makesEdge_iff (h : WellFormed s) {j : Nat} (hk : Known s request b i j) {c : Client}
    (hc : s.heap[i]? = some c) : MakesEdge s .FOLLOW request b ↔ i ≠ j ∧ j ∉ c.client_following := by
  rw [MakesEdge, follows_of_known hk hc, ne_eq, hk.username_eq_iff h]
  simp

/-- What the handlers presuppose of a requester who has logged in: the target exists, and a new edge has a time which can
be written. -/
theorem answerable_iff (h : WellFormed s) (hm : method = .FOLLOW ∨ method = .UNFOLLOW)
    (hi : s.getClient request.username = some i) (hb : request.arguments[0]? = some b) :
    Answerable tz s.graph (method, request) ↔ (s.getClient b).isSome ∧
      (MakesEdge s method request b → ∃ text, timestampToStr tz request.timestamp = .ok text) := by
  have hedge {j : Nat} (hj : s.getClient b = some j) :
      addsEdge s.graph (method, request) = true ↔ MakesEdge s method request b := by
    rcases hm with rfl | rfl
    · have hk : Known s request b i j := ⟨argument_of_getElem? hb, hi, hj⟩
      obtain ⟨c, hc, -⟩ := h.getClient_eq_some.mp hi
      rw [addsEdge_of_known h hk hc, makesEdge_iff h hk hc]
    · simp [addsEdge, MakesEdge]
  constructor
  · intro ha
    obtain ⟨b', i', j, hk⟩ := (namesUsers_iff_known hm).mp ha.names
    obtain rfl : b' = b := Option.some.inj (hk.arguments.symm.trans hb)
    refine ⟨by rw [hk.target]; rfl, fun hmakes => ?_⟩
    exact ha.follow ((hedge hk.target).mpr hmakes)
  · rintro ⟨hj, htext⟩
    obtain ⟨j, hj⟩ := Option.isSome_iff_exists.mp hj
    refine ⟨(namesUsers_iff_known hm).mpr ⟨b, i, j, argument_of_getElem? hb, hi, hj⟩, ?_, ?_⟩
    · intro hadds
      exact htext ((hedge hj).mp hadds)
    · rintro rfl
      simp at hm

/-- For a requester who has logged in the handlers do what they should exactly if the target exists and, where the
request makes a new edge, its time has a text. -/
theorem completes_iff {c : Streams.State} (h : (Streams.machine tz).Reachable c)
    (hm : method = .FOLLOW ∨ method = .UNFOLLOW) (hi : c.server.getClient request.username = some i)
    (hb : request.arguments[0]? = some b) : Completes tz c.server method request b ↔
      (c.server.getClient b).isSome ∧
        (MakesEdge c.server method request b → ∃ text, timestampToStr tz request.timestamp = .ok text) := by
  obtain ⟨c₀, tr, h₀, hrun⟩ := h
  have hwf := Streams.wellFormed_of_run h₀.wellFormed hrun
  have hanswerable : Answerable tz c.server.graph (method, request) ↔ _ := answerable_iff hwf hm hi hb
  rw [← hanswerable]
  constructor
  · rintro ⟨s', reply, hr, -⟩
    exact hwf.handle_iff.mp ⟨s', reply, hr⟩
  · intro ha
    obtain ⟨s', reply, hr⟩ := hwf.handle_iff.mpr ha
    exact completes_of_handle hwf hr (hanswerable.mp ha).1

/-! ## A user who follows -/

def annFollows (toFollow : Str) : Request := { username := Streams.ann, arguments := [toFollow] }

theorem completes_iff_bob : ∃ c, (Streams.machine .utc).Reachable c ∧
    Completes .utc c.server .FOLLOW (annFollows Streams.bob) Streams.bob ∧
    Completes .utc c.server .UNFOLLOW (annFollows Streams.bob) Streams.bob := by
  obtain ⟨c, hc, hann, hbob⟩ : ∃ c, [Streams.loginOf Streams.ann, Streams.loginOf Streams.bob].foldlM
      (Streams.State.step .utc) {} = .ok c ∧ c.server.getClient Streams.ann = some 0 ∧
        (c.server.getClient Streams.bob).isSome :=
    ⟨_, rfl, by decide +kernel, by decide +kernel⟩
  have hreach : (Streams.machine .utc).Reachable c := Machine.reachable_of_foldlM Streams.startEmpty hc
  refine ⟨c, hreach, ?_, ?_⟩
  · exact (completes_iff hreach (.inl rfl) hann rfl).mpr ⟨hbob, fun _ => ⟨_, rfl⟩⟩
  · exact (completes_iff hreach (.inr rfl) hann rfl).mpr ⟨hbob, fun _ => ⟨_, rfl⟩⟩

/-- Nobody is called bob: the log line of both handlers follows a null pointer. -/
theorem follow_nobody : ∃ c, (Streams.machine .utc).Reachable c ∧ c.server.getClient Streams.ann = some 0 ∧
    c.server.getClient Streams.bob = none ∧
    c.server.handle .utc .FOLLOW (annFollows Streams.bob) = .error .nullDereference ∧
    c.server.handle .utc .UNFOLLOW (annFollows Streams.bob) = .error .nullDereference := by
  obtain ⟨c, hc, hrest⟩ : ∃ c, [Streams.loginOf Streams.ann].foldlM (Streams.State.step .utc) {} = .ok c ∧
      c.server.getClient Streams.ann = some 0 ∧ c.server.getClient Streams.bob = none ∧
      c.server.handle .utc .FOLLOW (annFollows Streams.bob) = .error .nullDereference ∧
      c.server.handle .utc .UNFOLLOW (annFollows Streams.bob) = .error .nullDereference :=
    ⟨_, rfl, by decide +kernel, by decide +kernel, by rfl, by rfl⟩
  exact ⟨c, Machine.reachable_of_foldlM Streams.startEmpty hc, hrest⟩

end DistributedSns.Server
