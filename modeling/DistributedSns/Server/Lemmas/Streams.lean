import DistributedSns.Server.Graph
import DistributedSns.Server.Streams

/-!
# What a step does to the streams

The stream of a client is set once, by the first message with his name which is read while he has none. No handler
ever takes it away.
-/

namespace DistributedSns.Server

open SNSServer

variable {s s' : SNSServer} {tz : TimeZone}

/-! ## Streams and clients -/

/-- Two clients who differ in nothing but their streams. -/
structure SameLists (c d : Client) : Prop where
  username : d.username = c.username
  connected : d.connected = c.connected
  following : d.client_following = c.client_following
  followers : d.client_followers = c.client_followers
  follow_time : d.follow_time = c.follow_time

theorem WellFormed.of_sameLists (h : WellFormed s) (hdb : s'.client_db = s.client_db)
    (hlen : s'.heap.length = s.heap.length)
    (hheap : ∀ (k : Nat) (d : Client), s'.heap[k]? = some d → ∃ c, s.heap[k]? = some c ∧ SameLists c d) :
    WellFormed s' := by
  constructor
  · rw [hdb, hlen, h.db]
  · intro i j c d hc hd he
    obtain ⟨c', hc', hsc⟩ := hheap i c hc
    obtain ⟨d', hd', hsd⟩ := hheap j d hd
    exact h.names i j c' d' hc' hd' (by rw [← hsc.username, ← hsd.username, he])
  · intro i c hc
    obtain ⟨c', hc', hsc⟩ := hheap i c hc
    rw [hsc.connected]
    exact h.connected i c' hc'
  · intro i c hc
    obtain ⟨c', hc', hsc⟩ := hheap i c hc
    rw [hsc.following, hlen]
    exact h.following i c' hc'
  · intro i c hc
    obtain ⟨c', hc', hsc⟩ := hheap i c hc
    rw [hsc.followers, hlen]
    exact h.followers i c' hc'
  · intro i j c d hc hd
    obtain ⟨c', hc', hsc⟩ := hheap i c hc
    obtain ⟨d', hd', hsd⟩ := hheap j d hd
    rw [hsc.following, hsd.followers]
    exact h.mirror i j c' d' hc' hd'
  · intro i c hc
    obtain ⟨c', hc', hsc⟩ := hheap i c hc
    rw [hsc.following]
    exact h.irrefl i c' hc'
  · intro i c hc
    obtain ⟨c', hc', hsc⟩ := hheap i c hc
    rw [hsc.following]
    exact h.nodup_following i c' hc'
  · intro i c hc
    obtain ⟨c', hc', hsc⟩ := hheap i c hc
    rw [hsc.followers]
    exact h.nodup_followers i c' hc'
  · intro i c hc
    obtain ⟨c', hc', hsc⟩ := hheap i c hc
    rw [hsc.following, hsc.follow_time]
    exact h.times i c' hc'

theorem streamOf_eq {i : Nat} {c : Client} (hc : s.heap[i]? = some c) : s.streamOf i = c.stream := by
  rw [streamOf, hc, Option.bind_some]

/-- The server after a client has joined the timeline and got his backlog. -/
def SNSServer.joinOf (s : SNSServer) (stream : StreamId) (i : Nat) (c : Client) (posts : List Post) : SNSServer :=
  { s.setClient i { c with stream := some stream } with
    written := s.written ++ posts.map fun post => (stream, Post.toMessage post) }

/-- The server after a post of a client. -/
def SNSServer.postOf (s : SNSServer) (message : Message) (c : Client) (data : Str) : SNSServer :=
  { s with
    all_posts := s.all_posts ++ [.ofMessage message]
    posts := s.posts ++ data
    written := s.written ++ (c.client_followers.filterMap s.streamOf).map (·, message) }

section

variable {i : Nat} {c : Client} {stream : StreamId} {posts : List Post}

theorem getElem?_joinOf (hc : s.heap[i]? = some c) (k : Nat) : (s.joinOf stream i c posts).heap[k]? =
    s.heap[k]?.map fun d => if k = i then { d with stream := some stream } else d := by
  have hset : (s.joinOf stream i c posts).heap = s.heap.set i { c with stream := some stream } := rfl
  rw [hset, List.getElem?_set]
  by_cases hk : i = k
  · subst hk
    rw [hc]
    simp [lt_of_getElem? hc]
  · rw [if_neg hk]
    simp [Ne.symm hk]

theorem sameLists_joinOf (hc : s.heap[i]? = some c) {k : Nat} {d : Client}
    (hd : (s.joinOf stream i c posts).heap[k]? = some d) : ∃ e, s.heap[k]? = some e ∧ SameLists e d := by
  rw [getElem?_joinOf hc, Option.map_eq_some_iff] at hd
  obtain ⟨e, he, rfl⟩ := hd
  refine ⟨e, he, ?_⟩
  split_ifs <;> exact ⟨rfl, rfl, rfl, rfl, rfl⟩

theorem WellFormed.joinOf (h : WellFormed s) (hc : s.heap[i]? = some c) :
    WellFormed (s.joinOf stream i c posts) := by
  apply h.of_sameLists
  · rfl
  · exact List.length_set
  · exact fun k d => sameLists_joinOf hc

theorem username?_joinOf (hc : s.heap[i]? = some c) : (s.joinOf stream i c posts).username? = s.username? := by
  apply username?_map (f := fun k d => if k = i then { d with stream := some stream } else d)
  · exact getElem?_joinOf hc
  · intro k d
    split_ifs <;> rfl

theorem getClient_joinOf (hc : s.heap[i]? = some c) (u : Str) :
    (s.joinOf stream i c posts).getClient u = s.getClient u := by
  have hdb : (s.joinOf stream i c posts).client_db = s.client_db := rfl
  exact getClient_congr hdb (fun k _ => congrFun (username?_joinOf hc) k) u

theorem graph_joinOf (hc : s.heap[i]? = some c) : (s.joinOf stream i c posts).graph = s.graph := by
  have hclient := @getClient_joinOf s i c stream posts hc
  have hfollowing (k l : Nat) : (s.joinOf stream i c posts).isFollowing k l = s.isFollowing k l := by
    rw [isFollowing, isFollowing, getElem?_joinOf hc]
    cases s.heap[k]? with
    | none => rfl
    | some d =>
        simp only [Option.map_some]
        split_ifs <;> rfl
  funext k
  cases k with
  | user u => simp only [graph, hasUser, hclient]
  | follows u v => simp only [graph, follows, hclient, hfollowing]

theorem streamOf_joinOf (hc : s.heap[i]? = some c) :
    (s.joinOf stream i c posts).streamOf = Function.update s.streamOf i (some stream) := by
  funext k
  rw [streamOf, getElem?_joinOf hc]
  by_cases hk : k = i
  · subst hk
    simp [hc]
  · rw [Function.update_of_ne hk, streamOf]
    simp [hk]

end

/-! ## Requests -/

section

variable {request : Request} {method : Method} {status : SNSStatus}

theorem HandleOutcome.streamOf (ho : HandleOutcome s tz request method s' status) : s'.streamOf = s.streamOf := by
  funext k
  cases ho with
  | loginNew hnew =>
      unfold SNSServer.streamOf
      cases hk : ((s.addClient request.username).writeUserinfo (userLine request.username)).heap[k]? with
      | none =>
          have : s.heap.length + 1 ≤ k := by simpa [writeUserinfo, SNSServer.addClient] using hk
          rw [List.getElem?_eq_none (by omega)]
      | some d =>
          rcases getElem?_addClient (s := s) (u := request.username) hk with hd | ⟨rfl, rfl⟩
          · rw [hd]
          · simp
  | followNew hk hne hc hm htext =>
      have hlink := @getElem?_link s
      simp only [SNSServer.streamOf, writeUserinfo, hlink]
      cases s.heap[k]? with
      | none => rfl
      | some d => simp only [Option.map_some, Option.bind_some, linkClient]; split_ifs <;> rfl
  | unfollow hk hne hc hm =>
      have hunlink := @getElem?_unlink s
      simp only [SNSServer.streamOf, writeUserinfo, hunlink]
      cases s.heap[k]? with
      | none => rfl
      | some d => simp only [Option.map_some, Option.bind_some, unlinkClient]; split_ifs <;> rfl
  | _ => rfl

/-- A user keeps his client. -/
theorem HandleOutcome.getClient (h : WellFormed s) (ho : HandleOutcome s tz request method s' status) {u : Str}
    {i : Nat} (hu : s.getClient u = some i) : s'.getClient u = some i := by
  cases ho with
  | loginNew hnew =>
      have hclient := h.getClient_addClient hnew u
      rw [if_neg] at hclient
      · exact hclient.trans hu
      · rintro rfl
        rw [hnew] at hu
        cases hu
  | followNew hk hne hc hm htext => exact (getClient_link ..).trans hu
  | unfollow hk hne hc hm => exact (getClient_unlink ..).trans hu
  | _ => exact hu

/-- Only posts are stored and written to streams. -/
theorem HandleOutcome.quiet (ho : HandleOutcome s tz request method s' status) (hm : method ≠ .ADD_POST) :
    s'.written = s.written ∧ s'.all_posts = s.all_posts := by
  cases ho with
  | post hi hdata => exact absurd rfl hm
  | _ => exact ⟨rfl, rfl⟩

end

/-! ## Messages -/

theorem followingPosts_congr (hclient : ∀ u, s'.getClient u = s.getClient u) (c : Client) (posts : List Post)
    (maxPosts : Nat) : s'.followingPosts c posts maxPosts = s.followingPosts c posts maxPosts := by
  induction posts generalizing maxPosts with
  | nil => simp only [followingPosts]
  | cons post posts ih =>
      cases maxPosts with
      | zero => rfl
      | succ maxPosts => simp only [followingPosts, hclient, ih]

/-- A message joins the timeline, posts, or is empty and ignored. -/
inductive TimelineOutcome (s : SNSServer) (tz : TimeZone) (stream : StreamId) (message : Message) :
    SNSServer → Prop
  | joined {i : Nat} {c : Client} {posts : List Post} (hi : s.getClient message.username = some i)
      (hc : s.heap[i]? = some c) (hnone : c.stream = none) (hposts : s.getFollowingPosts c 20 = .ok posts) :
      TimelineOutcome s tz stream message (s.joinOf stream i c posts)
  | posted {i : Nat} {c : Client} {data : Str} (hi : s.getClient message.username = some i)
      (hc : s.heap[i]? = some c) (hsome : c.stream ≠ none) (hmsg : message.msg ≠ [])
      (hdata : formatMessageOutput tz message = .ok data) :
      TimelineOutcome s tz stream message (s.postOf message c data)
  | ignored {i : Nat} {c : Client} (hi : s.getClient message.username = some i)
      (hc : s.heap[i]? = some c) (hsome : c.stream ≠ none) (hmsg : message.msg = []) :
      TimelineOutcome s tz stream message s

theorem foldl_writeStream (stream : StreamId) (posts : List Post) :
    posts.foldl (fun s post => s.writeStream stream (Post.toMessage post)) s =
      { s with written := s.written ++ posts.map fun post => (stream, Post.toMessage post) } := by
  induction posts generalizing s with
  | nil => simp
  | cons post posts ih =>
      rw [List.foldl_cons, ih]
      simp [writeStream]

theorem timeline_outcome {stream : StreamId} {message : Message} {r : SNSServer × Option Message}
    (hr : s.timeline tz stream message = .ok r) : TimelineOutcome s tz stream message r.1 := by
  obtain ⟨i, hi, hr⟩ := bind_eq_ok.mp hr
  obtain ⟨c, hc, hr⟩ := bind_eq_ok.mp hr
  rw [deref_eq_ok] at hi
  rw [client_eq_ok_iff] at hc
  cases hstream : c.stream with
  | none =>
      simp only [hstream] at hr
      obtain ⟨j, hj, hr⟩ := bind_eq_ok.mp hr
      obtain ⟨posts, hposts, hr⟩ := bind_eq_ok.mp hr
      rw [deref_eq_ok, hi, Option.some.injEq] at hj
      subst hj
      cases hr
      have hclient (u : Str) : (s.setClient i { c with stream := some stream }).getClient u = s.getClient u :=
        @getClient_joinOf s i c stream [] hc u
      have hbefore : s.getFollowingPosts c 20 = .ok posts := by
        rw [← hposts]
        exact (followingPosts_congr hclient c _ 20).symm
      rw [foldl_writeStream]
      exact .joined hi hc hstream hbefore
  | some st =>
      have hsome : c.stream ≠ none := by rw [hstream]; exact Option.some_ne_none st
      simp only [hstream] at hr
      by_cases hmsg : message.msg = []
      · simp only [hmsg, ne_eq, not_true_eq_false, ↓reduceIte] at hr
        cases hr
        exact .ignored hi hc hsome hmsg
      · simp only [ne_eq, hmsg, not_false_eq_true, ↓reduceIte] at hr
        obtain ⟨s₁, hs₁, hr⟩ := bind_eq_ok.mp hr
        obtain ⟨j, d, data, hj, hd, hdata, rfl⟩ := addPostHelper_writes hs₁
        rw [hi, Option.some.injEq] at hj
        subst hj
        rw [hc, Option.some.injEq] at hd
        subst hd
        cases hr
        exact .posted hi hc hsome hmsg hdata

/-- A master propagates the posts it stores, and nothing else. -/
theorem timeline_some {stream : StreamId} {message m : Message}
    (hr : s.timeline tz stream message = .ok (s', some m)) :
    m = message ∧ ∃ i a data, s.getClient message.username = some i ∧ s.heap[i]? = some a ∧
      formatMessageOutput tz message = .ok data ∧ s' = s.postOf message a data := by
  obtain ⟨hm, -, -, i, data, w, -, -, hs'⟩ := timeline_posted hr
  have hlength : s'.all_posts.length = s.all_posts.length + 1 := by
    rw [hs']
    simp
  refine ⟨hm, ?_⟩
  have ho := timeline_outcome hr
  generalize s' = s₁ at ho hlength
  cases ho with
  | joined hi hc hnone hposts => exact absurd hlength (Nat.ne_of_lt (Nat.lt_succ_self _))
  | posted hi hc hsome hmsg hdata => exact ⟨_, _, _, hi, hc, hdata, rfl⟩
  | ignored hi hc hsome hmsg => exact absurd hlength (Nat.ne_of_lt (Nat.lt_succ_self _))

theorem timeline_of_posted {stream : StreamId} {message : Message} {r : SNSServer × Option Message} {i : Nat}
    {c : Client} (hr : s.timeline tz stream message = .ok r) (hi : s.getClient message.username = some i)
    (hc : s.heap[i]? = some c) (hsome : c.stream ≠ none) (hmsg : message.msg ≠ []) :
    r.2 = if s.master then some message else none := by
  obtain ⟨st, hst⟩ := Option.ne_none_iff_exists'.mp hsome
  simp only [timeline, hi, deref, ok_bind, client_eq hc, hst, ne_eq, hmsg, not_false_eq_true, ↓reduceIte] at hr
  obtain ⟨s₁, hs₁, hr⟩ := bind_eq_ok.mp hr
  obtain ⟨j, data, w, -, -, rfl⟩ := addPostHelper_eq hs₁
  cases hr
  rfl

/-- A master which propagates nothing has not stored anything. -/
theorem timeline_none {stream : StreamId} {message : Message} (hm : s.master = true)
    (hr : s.timeline tz stream message = .ok (s', none)) :
    s' = s ∨ ∃ i c posts, s.heap[i]? = some c ∧ s' = s.joinOf stream i c posts := by
  have ho := timeline_outcome hr
  generalize hs₁ : (s', (none : Option Message)).1 = s₁ at ho
  replace hs₁ : s' = s₁ := hs₁
  cases ho with
  | joined hi hc hnone hposts => exact .inr ⟨_, _, _, hc, hs₁⟩
  | ignored hi hc hsome hmsg => exact .inl hs₁
  | posted hi hc hsome hmsg hdata =>
      have hpost := timeline_of_posted hr hi hc hsome hmsg
      rw [hm] at hpost
      cases hpost

/-! ## Steps -/

namespace Streams

inductive Outcome (tz : TimeZone) (c : State) : Event → State → Prop
  | account {method : Method} {request : Request} {s' : SNSServer} {status : SNSStatus} (hm : method ≠ .ADD_POST)
      (ho : HandleOutcome c.server tz request method s' status) :
      Outcome tz c (.request method request) { c with server := s' }
  | addPost {request : Request} {i : Nat} {a : Client} {data : Str}
      (hi : c.server.getClient request.message.username = some i) (ha : c.server.heap[i]? = some a)
      (hdata : formatMessageOutput tz request.message = .ok data) :
      Outcome tz c (.request .ADD_POST request) { c with server := c.server.postOf request.message a data }
  | enter : Outcome tz c .enter { c with opened := c.opened + 1, live := c.live ++ [c.opened] }
  | joined {stream : StreamId} {message : Message} {i : Nat} {a : Client} {posts : List Post}
      (hlive : stream ∈ c.live) (hi : c.server.getClient message.username = some i)
      (ha : c.server.heap[i]? = some a) (hnone : a.stream = none)
      (hposts : c.server.getFollowingPosts a 20 = .ok posts) :
      Outcome tz c (.message stream message) { c with server := c.server.joinOf stream i a posts }
  | posted {stream : StreamId} {message : Message} {i : Nat} {a : Client} {data : Str}
      (hlive : stream ∈ c.live) (hi : c.server.getClient message.username = some i)
      (ha : c.server.heap[i]? = some a) (hsome : a.stream ≠ none)
      (hdata : formatMessageOutput tz message = .ok data) :
      Outcome tz c (.message stream message) { c with server := c.server.postOf message a data }
  | ignored {stream : StreamId} {message : Message} {i : Nat} {a : Client}
      (hlive : stream ∈ c.live) (hi : c.server.getClient message.username = some i)
      (ha : c.server.heap[i]? = some a) (hsome : a.stream ≠ none) :
      Outcome tz c (.message stream message) c
  | leave {stream : StreamId} (hlive : stream ∈ c.live) :
      Outcome tz c (.leave stream) { c with live := c.live.erase stream }

variable {c c' : State} {e : Event}

/-- What a step writes to streams. -/
def newWrites (c c' : State) : List (StreamId × Message) := c'.server.written.drop c.server.written.length

/-- A handler which is called in this step returns, and leaves this server. -/
inductive Handles (tz : TimeZone) (c : State) : Event → SNSServer → Prop
  | request {method : Method} {request : Request} {r : SNSServer × Reply}
      (hr : c.server.handle tz method request = .ok r) : Handles tz c (.request method request) r.1
  | message {stream : StreamId} {message : Message} {r : SNSServer × Option Message} (hlive : stream ∈ c.live)
      (hr : c.server.timeline tz stream message = .ok r) : Handles tz c (.message stream message) r.1

theorem handled_eq_ok {server : SNSServer} : c.handled server = .ok c' ↔
    (∀ w ∈ newWrites c { c with server }, w.1 ∈ c.live) ∧ c' = { c with server } := by
  unfold State.handled newWrites
  split_ifs with hlive
  · rw [Except.ok.injEq, eq_comm]
    exact (and_iff_right hlive).symm
  · exact iff_of_false nofun fun h => hlive h.1

/-- A call begins or returns, or a handler writes to live streams only. -/
theorem step_cases (hs : c.step tz e = .ok c') :
    (e = .enter ∧ c' = { c with opened := c.opened + 1, live := c.live ++ [c.opened] }) ∨
    (∃ stream ∈ c.live, e = .leave stream ∧ c' = { c with live := c.live.erase stream }) ∨
    ∃ server, Handles tz c e server ∧ c' = { c with server } ∧ ∀ w ∈ newWrites c c', w.1 ∈ c.live := by
  cases e with
  | request method request =>
      obtain ⟨r, hr, hs⟩ := bind_eq_ok.mp hs
      obtain ⟨hwrites, rfl⟩ := handled_eq_ok.mp hs
      exact Or.inr (Or.inr ⟨r.1, .request hr, rfl, hwrites⟩)
  | enter =>
      cases hs
      exact Or.inl ⟨rfl, rfl⟩
  | message stream message =>
      rw [State.step] at hs
      by_cases hlive : stream ∈ c.live
      · rw [if_pos hlive] at hs
        obtain ⟨r, hr, hs⟩ := bind_eq_ok.mp hs
        obtain ⟨hwrites, rfl⟩ := handled_eq_ok.mp hs
        exact Or.inr (Or.inr ⟨r.1, .message hlive hr, rfl, hwrites⟩)
      · rw [if_neg hlive] at hs
        cases hs
  | leave stream =>
      rw [State.step] at hs
      by_cases hlive : stream ∈ c.live
      · rw [if_pos hlive] at hs
        cases hs
        exact Or.inr (Or.inl ⟨stream, hlive, rfl, rfl⟩)
      · rw [if_neg hlive] at hs
        cases hs

theorem step_message {stream : StreamId} {message : Message} (hs : c.step tz (.message stream message) = .ok c') :
    stream ∈ c.live ∧ ∃ r, c.server.timeline tz stream message = .ok r ∧ c' = { c with server := r.1 } := by
  rcases step_cases hs with ⟨he, -⟩ | ⟨_, -, he, -⟩ | ⟨server, hhandles, rfl, -⟩
  · cases he
  · cases he
  · cases hhandles with
    | message hlive hr => exact ⟨hlive, _, hr, rfl⟩

theorem step_request {method : Method} {request : Request} (hs : c.step tz (.request method request) = .ok c') :
    ∃ r, c.server.handle tz method request = .ok r ∧ c' = { c with server := r.1 } := by
  rcases step_cases hs with ⟨he, -⟩ | ⟨_, -, he, -⟩ | ⟨server, hhandles, rfl, -⟩
  · cases he
  · cases he
  · cases hhandles with
    | request hr => exact ⟨_, hr, rfl⟩

/-- The step of a handler returns if the handler has written to live streams only. -/
theorem Handles.step {server : SNSServer} (h : Handles tz c e server)
    (hwrites : ∀ w ∈ newWrites c { c with server }, w.1 ∈ c.live) : c.step tz e = .ok { c with server } := by
  cases h with
  | request hr => exact bind_eq_ok.mpr ⟨_, hr, handled_eq_ok.mpr ⟨hwrites, rfl⟩⟩
  | message hlive hr =>
      rw [State.step, if_pos hlive]
      exact bind_eq_ok.mpr ⟨_, hr, handled_eq_ok.mpr ⟨hwrites, rfl⟩⟩

theorem Handles.outcome {server : SNSServer} (h : WellFormed c.server) (hs : Handles tz c e server) :
    Outcome tz c e { c with server } := by
  cases hs with
  | @request method request r hr =>
      obtain ⟨s', reply⟩ := r
      by_cases hm : method = .ADD_POST
      · subst hm
        obtain ⟨s₁, hs₁, hr⟩ := bind_eq_ok.mp hr
        obtain ⟨i, a, data, hi, ha, hdata, rfl⟩ := addPostHelper_writes hs₁
        cases hr
        exact .addPost hi ha hdata
      · exact .account hm (handle_outcome h hr)
  | @message stream message r hlive hr =>
      have ho := timeline_outcome hr
      cases r
      cases ho with
      | joined hi ha hnone hposts => exact .joined hlive hi ha hnone hposts
      | posted hi ha hsome hmsg hdata => exact .posted hlive hi ha hsome hdata
      | ignored hi ha hsome hmsg => exact .ignored hlive hi ha hsome

theorem step_outcome (h : WellFormed c.server) (hs : c.step tz e = .ok c') : Outcome tz c e c' := by
  rcases step_cases hs with ⟨rfl, rfl⟩ | ⟨stream, hlive, rfl, rfl⟩ | ⟨server, hhandles, rfl, -⟩
  · exact .enter
  · exact .leave hlive
  · exact hhandles.outcome h

theorem Outcome.wellFormed (h : WellFormed c.server) (ho : Outcome tz c e c') : WellFormed c'.server := by
  cases ho with
  | account hm ho => exact ho.wellFormed h
  | addPost hi ha hdata => exact h.congr rfl rfl
  | enter => exact h
  | joined hlive hi ha hnone hposts => exact h.joinOf ha
  | posted hlive hi ha hsome hdata => exact h.congr rfl rfl
  | ignored hlive hi ha hsome => exact h
  | leave hlive => exact h

theorem Outcome.getClient (h : WellFormed c.server) (ho : Outcome tz c e c') {u : Str} {i : Nat}
    (hu : c.server.getClient u = some i) : c'.server.getClient u = some i := by
  cases ho with
  | account hm ho => exact ho.getClient h hu
  | joined hlive hi ha hnone hposts => exact (getClient_joinOf ha u).trans hu
  | _ => exact hu

/-- A step joins at most one client to the timeline. -/
theorem Outcome.streamOf (ho : Outcome tz c e c') : c'.server.streamOf = c.server.streamOf ∨
    ∃ stream message i, e = .message stream message ∧ stream ∈ c.live ∧
      c.server.getClient message.username = some i ∧ c.server.streamOf i = none ∧ c'.live = c.live ∧
      c'.server.streamOf = Function.update c.server.streamOf i (some stream) := by
  cases ho with
  | account hm ho => exact Or.inl ho.streamOf
  | @joined stream message i a posts hlive hi ha hnone hposts =>
      exact Or.inr ⟨stream, message, i, rfl, hlive, hi, (streamOf_eq ha).trans hnone, rfl, streamOf_joinOf ha⟩
  | _ => exact Or.inl rfl

/-- A stream which has been set stays. -/
theorem Outcome.streamOf_some (ho : Outcome tz c e c') {k : Nat} {stream : StreamId}
    (hk : c.server.streamOf k = some stream) : c'.server.streamOf k = some stream := by
  rcases ho.streamOf with hsame | ⟨stream', message, i, -, -, -, hnone, -, hupdate⟩
  · rw [hsame, hk]
  · rw [hupdate, Function.update_of_ne]
    · exact hk
    · rintro rfl
      rw [hnone] at hk
      cases hk

/-! ## What a step stores and writes -/

/-- The posts a step stores. -/
def newPosts (c c' : State) : List Post := c'.server.all_posts.drop c.server.all_posts.length

/-- A step stores nothing and writes nothing, or stores a post and writes it to the streams of the followers, or
writes the backlog of a client who joins. -/
inductive Effect (c : State) (e : Event) (c' : State) : Prop
  | quiet (hposts : newPosts c c' = []) (hwritten : c'.server.written = c.server.written)
  | posted {message : Message} {i : Nat} {a : Client} (hi : c.server.getClient message.username = some i)
      (ha : c.server.heap[i]? = some a) (hposts : newPosts c c' = [.ofMessage message])
      (hwritten : c'.server.written =
        c.server.written ++ (a.client_followers.filterMap c.server.streamOf).map (·, message))
  | joined {stream : StreamId} {message : Message} {i : Nat} {a : Client} {posts : List Post}
      (he : e = .message stream message) (hlive : stream ∈ c.live)
      (hi : c.server.getClient message.username = some i) (ha : c.server.heap[i]? = some a)
      (hnone : a.stream = none) (hbacklog : c.server.getFollowingPosts a 20 = .ok posts)
      (hposts : newPosts c c' = [])
      (hwritten : c'.server.written = c.server.written ++ posts.map fun post => (stream, Post.toMessage post))

theorem newPosts_of_eq (h : c'.server.all_posts = c.server.all_posts) : newPosts c c' = [] := by
  rw [newPosts, h, List.drop_length]

theorem Outcome.effect (ho : Outcome tz c e c') : Effect c e c' := by
  cases ho with
  | account hm ho =>
      obtain ⟨hwritten, hposts⟩ := ho.quiet hm
      exact .quiet (newPosts_of_eq hposts) hwritten
  | addPost hi ha hdata => exact .posted hi ha List.drop_left rfl
  | enter => exact .quiet (newPosts_of_eq rfl) rfl
  | joined hlive hi ha hnone hposts => exact .joined rfl hlive hi ha hnone hposts (newPosts_of_eq rfl) rfl
  | posted hlive hi ha hsome hdata => exact .posted hi ha List.drop_left rfl
  | ignored hlive hi ha hsome => exact .quiet (newPosts_of_eq rfl) rfl
  | leave hlive => exact .quiet (newPosts_of_eq rfl) rfl

theorem newWrites_of_append {w : List (StreamId × Message)} (h : c'.server.written = c.server.written ++ w) :
    newWrites c c' = w := by
  rw [newWrites, h, List.drop_left]

end Streams

end DistributedSns.Server
