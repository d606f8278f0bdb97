import DistributedSns.Server.FollowTheorems
import DistributedSns.Server.TimelineTheorems

/-!
# The backlog

The backlog of a client is read off `all_posts`, latest stored post first. The posts in it are the right ones after
every history of follows and unfollows; they are the newest ones, newest first, when they were stored in the order of
their timestamps.
-/

namespace DistributedSns.Server.Streams

open Lib (Machine)
open SNSServer

variable {tz : TimeZone} {s c c' : State} {e : Event} {tr : List (State × Event)}

/-! ## The time of the last follow -/

/-- The time of a request of `a` to follow `b` which succeeds in this step. -/
def followTimeIn (tz : TimeZone) (a b : Str) (c : State) : Event → Option Timestamp
  | .request method request => followedIn tz a b c.server (method, request)
  | _ => none

def lastFollowTime (tz : TimeZone) (a b : Str) (tr : List (State × Event)) : Option Timestamp :=
  Machine.latest (followTimeIn tz a b) tr

theorem lastFollowTime_concat (a b : Str) (c : State) (e : Event) : lastFollowTime tz a b (tr ++ [(c, e)]) =
    (followTimeIn tz a b c e).or (lastFollowTime tz a b tr) :=
  Machine.latest_concat c e

/-- Streams do not matter for the times in the lists. -/
theorem Timed.of_sameLists {last : Str → Str → Option Timestamp} {s s' : SNSServer} (h : Timed last s)
    (hheap : ∀ (k : Nat) (d : Client), s'.heap[k]? = some d → ∃ c, s.heap[k]? = some c ∧ SameLists c d) :
    Timed last s' := by
  intro i c hc j t hjt d hd
  obtain ⟨c', hc', hsc⟩ := hheap i c hc
  obtain ⟨d', hd', hsd⟩ := hheap j d hd
  rw [hsc.following, hsc.follow_time] at hjt
  rw [hsc.username, hsd.username]
  exact h i c' hc' j t hjt d' hd'

/-- The times in the following lists are those of the last successful follows in the history. -/
structure FollowTimes (tz : TimeZone) (tr : List (State × Event)) (c : State) : Prop where
  wellFormed : WellFormed c.server
  timed : Timed (fun a b => lastFollowTime tz a b tr) c.server

theorem FollowTimes.of_fresh (hfresh : Fresh s.server) : FollowTimes tz [] s := by
  constructor
  · exact hfresh.wellFormed
  · intro i f hf
    rw [hfresh.heap] at hf
    cases hf

/-- A step which handles no request and keeps the lists keeps the times. -/
theorem FollowTimes.of_sameLists (h : FollowTimes tz tr c) (hwf : WellFormed c'.server)
    (he : ∀ a b, followTimeIn tz a b c e = none)
    (hheap : ∀ (k : Nat) (d : Client), c'.server.heap[k]? = some d →
      ∃ f, c.server.heap[k]? = some f ∧ SameLists f d) : FollowTimes tz (tr ++ [(c, e)]) c' := by
  constructor
  · exact hwf
  · simp only [lastFollowTime_concat, he, Option.none_or]
    exact Timed.of_sameLists h.timed hheap

theorem FollowTimes.step (h : FollowTimes tz tr c) (hs : c.step tz e = .ok c') :
    FollowTimes tz (tr ++ [(c, e)]) c' := by
  have hwf := (step_outcome h.wellFormed hs).wellFormed h.wellFormed
  have hsame (hheap : c'.server.heap = c.server.heap) (he : ∀ a b, followTimeIn tz a b c e = none) :=
    h.of_sameLists hwf he (by rw [hheap]; exact fun k d hd => ⟨d, hd, rfl, rfl, rfl, rfl, rfl⟩)
  cases e with
  | request method request =>
      obtain ⟨r, hr, rfl⟩ := step_request hs
      exact ⟨hwf, h.timed.handle h.wellFormed hr fun a b => lastFollowTime_concat a b c (.request method request)⟩
  | enter =>
      cases hs
      exact hsame rfl fun _ _ => rfl
  | message stream message =>
      cases step_outcome h.wellFormed hs with
      | joined hlive hi ha hnone hposts =>
          exact h.of_sameLists hwf (fun _ _ => rfl) fun k d => sameLists_joinOf ha
      | posted hlive hi ha hsome hdata => exact hsame rfl fun _ _ => rfl
      | ignored hlive hi ha hsome => exact hsame rfl fun _ _ => rfl
  | leave stream =>
      cases step_outcome h.wellFormed hs with
      | leave hlive => exact hsame rfl fun _ _ => rfl

theorem followTimes_of_run (hfresh : Fresh s.server) (hrun : (machine tz).Run s tr c) : FollowTimes tz tr c := by
  induction hrun with
  | nil => exact .of_fresh hfresh
  | snoc hrun hstep ih => exact ih.step hstep

/-! ## Selection -/

/-- The user follows the author of the post, which is from after his last follow. -/
def eligible (tz : TimeZone) (tr : List (State × Event)) (s : SNSServer) (u : Str) (post : Post) : Bool :=
  s.follows u post.username && (lastFollowTime tz u post.username tr).any (post.timestamp.gt ·)

section

variable {u : Str} {i : Nat} {f : Client} {post : Post}

/-- The place of a user in a following list. -/
def followIndex (s : SNSServer) (f : Client) (v : Str) : Option Nat :=
  (s.getClient v).bind fun author => f.client_following.findIdx? (· = author)

theorem follows_eq_isSome (hi : c.server.getClient u = some i) (hf : c.server.heap[i]? = some f) (v : Str) :
    c.server.follows u v = (followIndex c.server f v).isSome := by
  rw [follows, hi, followIndex]
  cases hj : c.server.getClient v with
  | none => rfl
  | some j =>
      rw [Option.bind_some, List.findIdx?_isSome, Bool.eq_iff_iff]
      simp [isFollowing, hf]

/-- At the same place in `follow_time` is the time of the last follow. -/
theorem FollowTimes.follow_time (h : FollowTimes tz tr c) (hi : c.server.getClient u = some i)
    (hf : c.server.heap[i]? = some f) {v : Str} {idx : Nat} (hidx : followIndex c.server f v = some idx) :
    ∃ t, f.follow_time[idx]? = some t ∧ lastFollowTime tz u v tr = some t := by
  have hwf := h.wellFormed
  obtain ⟨j, hj, hidx⟩ := Option.bind_eq_some_iff.mp hidx
  obtain ⟨hlt, hauthor, -⟩ := List.findIdx?_eq_some_iff_getElem.mp hidx
  rw [decide_eq_true_iff] at hauthor
  obtain ⟨f', hf', hu⟩ := hwf.getClient_eq_some.mp hi
  rw [hf, Option.some.injEq] at hf'
  subst hf'
  obtain ⟨d, hd, hv⟩ := hwf.getClient_eq_some.mp hj
  have htime := List.getElem?_eq_getElem (l := f.follow_time) (i := idx) (by rwa [hwf.times i f hf])
  refine ⟨_, htime, ?_⟩
  rw [← hu, ← hv]
  apply h.timed i f hf j _ _ d hd
  apply List.mem_of_getElem? (i := idx)
  rw [List.getElem?_zip_eq_some]
  exact ⟨by rw [List.getElem?_eq_getElem hlt, hauthor], htime⟩

/-- The loop takes the eligible posts until it has enough. -/
theorem FollowTimes.followingPosts (h : FollowTimes tz tr c) (hi : c.server.getClient u = some i)
    (hf : c.server.heap[i]? = some f) (posts : List Post) (maxPosts : Nat) :
    c.server.followingPosts f posts maxPosts =
      .ok ((posts.filter (eligible tz tr c.server u)).take maxPosts) := by
  have hfollows := follows_eq_isSome hi hf
  induction posts generalizing maxPosts with
  | nil => simp [SNSServer.followingPosts]
  | cons post posts ih =>
      cases maxPosts with
      | zero => rfl
      | succ maxPosts =>
          rw [SNSServer.followingPosts, ← followIndex]
          cases hidx : followIndex c.server f post.username with
          | none =>
              have hother : eligible tz tr c.server u post = false := by simp [eligible, hfollows, hidx]
              rw [List.filter_cons_of_neg (by simp [hother])]
              exact ih (maxPosts + 1)
          | some idx =>
              obtain ⟨t, ht, hlast⟩ := h.follow_time hi hf hidx
              have hlater : eligible tz tr c.server u post = post.timestamp.gt t := by
                simp [eligible, hfollows, hidx, hlast]
              simp only [ht]
              cases hgt : post.timestamp.gt t with
              | true =>
                  rw [List.filter_cons_of_pos (hlater.trans hgt), List.take_succ_cons, ih maxPosts]
                  rfl
              | false =>
                  rw [List.filter_cons_of_neg (by simp [hlater, hgt])]
                  exact ih (maxPosts + 1)

end

/-- After every run the backlog of a user is cut from his eligible posts, latest stored first. -/
theorem getFollowingPosts_exact (hfresh : Fresh s.server) (hrun : (machine tz).Run s tr c) {u : Str} {i : Nat}
    {f : Client} (hi : c.server.getClient u = some i) (hf : c.server.heap[i]? = some f) (maxPosts : Nat) :
    c.server.getFollowingPosts f maxPosts =
      .ok ((c.server.all_posts.reverse.filter (eligible tz tr c.server u)).take maxPosts) :=
  (followTimes_of_run hfresh hrun).followingPosts hi hf _ maxPosts

section

def carl : Str := "carl".toList

def unfollowOf (username : Str) (toUnFollow : Str) : Event :=
  .request .UNFOLLOW { username, arguments := [toUnFollow] }

/-- Ann unfollows Bob, whose place in her lists then holds Carl, and follows him again. -/
def refollow : List Event :=
  [loginOf ann, loginOf bob, loginOf carl, followOf ann bob 1, followOf ann carl 2, addPostOf bob 3,
    unfollowOf ann bob, addPostOf carl 4, followOf ann bob 5, addPostOf carl 5, addPostOf bob 6]

theorem getFollowingPosts_exact_refollow : ∃ c f, refollow.foldlM (State.step .utc) {} = .ok c ∧
    c.server.heap[0]? = some f ∧ c.server.getFollowingPosts f 2 = .ok ((c.server.all_posts.reverse.filter
      (eligible .utc (Machine.history (State.step .utc) {} refollow) c.server ann)).take 2) ∧
    (c.server.getFollowingPosts f 20).toOption.map (·.map Post.toMessage) =
      some [postMessage bob 6, postMessage carl 5, postMessage carl 4] := by
  have hrun : ∃ c, refollow.foldlM (State.step .utc) {} = .ok c ∧ ∃ f, c.server.heap[0]? = some f ∧
      c.server.getClient ann = some 0 ∧ (c.server.getFollowingPosts f 20).toOption.map (·.map Post.toMessage) =
        some [postMessage bob 6, postMessage carl 5, postMessage carl 4] :=
    ⟨_, rfl, _, rfl, by decide +kernel, by decide +kernel⟩
  obtain ⟨c, hc, f, hf, hi, hposts⟩ := hrun
  exact ⟨c, f, hc, hf, getFollowingPosts_exact ⟨rfl, rfl⟩ (Machine.run_of_foldlM hc) hi hf 2, hposts⟩

end

/-! ## Order -/

/-- No post is stored before one with an earlier timestamp. -/
def Chronological (posts : List Post) : Prop :=
  posts.Pairwise fun a b => a.timestamp.gt b.timestamp = false

/-- The backlog goes from newer to older posts, and no candidate which is left out is newer than one in it. -/
def NewestFirst (backlog candidates : List Post) : Prop :=
  ∃ rest, (backlog ++ rest).Perm candidates ∧
    backlog.Pairwise (fun a b => b.timestamp.gt a.timestamp = false) ∧
    ∀ post ∈ rest, ∀ shown ∈ backlog, post.timestamp.gt shown.timestamp = false

theorem newestFirst_take {posts : List Post} :
    (∀ maxPosts, NewestFirst (posts.reverse.take maxPosts) posts) ↔ Chronological posts := by
  constructor
  · intro h
    obtain ⟨rest, -, hsorted, -⟩ := h posts.length
    rw [List.take_of_length_le (by simp), List.pairwise_reverse] at hsorted
    exact hsorted
  · intro h maxPosts
    have hsorted := List.pairwise_reverse.mpr h
    rw [← List.take_append_drop maxPosts posts.reverse, List.pairwise_append] at hsorted
    obtain ⟨htake, -, hleft⟩ := hsorted
    refine ⟨posts.reverse.drop maxPosts, ?_, htake, fun post hpost shown hshown => hleft shown hshown post hpost⟩
    rw [List.take_append_drop]
    exact List.reverse_perm posts

/-- Whatever the limit, the backlog of the user is the newest of his eligible posts, newest first. -/
def NewestBacklog (tz : TimeZone) (tr : List (State × Event)) (c : State) (u : Str) : Prop :=
  ∀ (i : Nat) (f : Client), c.server.getClient u = some i → c.server.heap[i]? = some f → ∀ maxPosts,
    ∃ backlog, c.server.getFollowingPosts f maxPosts = .ok backlog ∧
      NewestFirst backlog (c.server.all_posts.filter (eligible tz tr c.server u))

theorem FollowTimes.newestBacklog (h : FollowTimes tz tr c) (u : Str) : NewestBacklog tz tr c u ↔
    Chronological (c.server.all_posts.filter (eligible tz tr c.server u)) := by
  rw [← newestFirst_take]
  constructor
  · intro hnewest maxPosts
    cases hi : c.server.getClient u with
    | none =>
        have hnobody : eligible tz tr c.server u = fun _ => false := by
          funext post
          simp [eligible, follows, hi]
        rw [hnobody]
        exact ⟨[], by simp, by simp, by simp⟩
    | some i =>
        obtain ⟨f, hf, -⟩ := h.wellFormed.getClient_eq_some.mp hi
        obtain ⟨backlog, hbacklog, hfirst⟩ := hnewest i f hi hf maxPosts
        rw [getFollowingPosts, h.followingPosts hi hf, List.filter_reverse, Except.ok.injEq] at hbacklog
        rw [hbacklog]
        exact hfirst
  · intro hnewest i f hi hf maxPosts
    refine ⟨_, h.followingPosts hi hf _ maxPosts, ?_⟩
    rw [List.filter_reverse]
    exact hnewest maxPosts

/-! ## Runs which store in order -/

/-- The message which this step makes a post: not the first one of a stream, and no empty one. -/
def storedIn (c : State) : Event → Option Message
  | .request .ADD_POST request => some request.message
  | .message _ message =>
    if message.msg ≠ [] ∧ ((c.server.getClient message.username).bind c.server.streamOf).isSome then some message
    else none
  | _ => none

theorem all_posts_step (h : WellFormed c.server) (hs : c.step tz e = .ok c') :
    c'.server.all_posts = c.server.all_posts ++ ((storedIn c e).map Post.ofMessage).toList := by
  cases e with
  | request method request =>
      cases step_outcome h hs with
      | account hm ho =>
          rw [(ho.quiet hm).2]
          cases method with
          | ADD_POST => exact absurd rfl hm
          | _ => exact (List.append_nil _).symm
      | addPost hi ha hdata => rfl
  | enter =>
      cases hs
      exact (List.append_nil _).symm
  | message stream message =>
      obtain ⟨-, r, hr, rfl⟩ := step_message hs
      have ho := timeline_outcome hr
      cases r
      cases ho with
      | joined hi ha hnone hposts => simp [storedIn, hi, streamOf_eq ha, hnone, setClient]
      | posted hi ha hsome hmsg hdata =>
          have hstream : ((c.server.getClient message.username).bind c.server.streamOf).isSome := by
            rwa [hi, Option.bind_some, streamOf_eq ha, ← Option.ne_none_iff_isSome]
          rw [storedIn, if_pos ⟨hmsg, hstream⟩]
          rfl
      | ignored hi ha hsome hmsg => simp [storedIn, hmsg]
  | leave stream =>
      cases step_outcome h hs with
      | leave hlive => exact (List.append_nil _).symm

/-- What the step stores is not older than any post of the server. -/
def StoresInOrder (c : State) (e : Event) : Prop :=
  ∀ message ∈ storedIn c e, ∀ post ∈ c.server.all_posts, post.timestamp.gt message.timestamp = false

instance (c : State) (e : Event) : Decidable (StoresInOrder c e) :=
  inferInstanceAs (Decidable (∀ message ∈ storedIn c e, ∀ post ∈ c.server.all_posts,
    post.timestamp.gt message.timestamp = false))

theorem chronological_step (h : WellFormed c.server) (hposts : Chronological c.server.all_posts)
    (he : StoresInOrder c e) (hs : c.step tz e = .ok c') : Chronological c'.server.all_posts := by
  rw [all_posts_step h hs]
  cases hstored : storedIn c e with
  | none =>
      rw [Option.map_none, Option.toList_none, List.append_nil]
      exact hposts
  | some message =>
      apply List.pairwise_append.mpr
      refine ⟨hposts, List.pairwise_singleton _ _, fun post hpost new hnew => ?_⟩
      rw [Option.map_some, Option.toList_some, List.mem_singleton] at hnew
      subst hnew
      exact he message hstored post hpost

theorem chronological_of_run (h : WellFormed s.server) (hposts : Chronological s.server.all_posts)
    (hrun : (machine tz).Run s tr c) (horder : ∀ x ∈ tr, StoresInOrder x.1 x.2) :
    Chronological c.server.all_posts := by
  have hinv : WellFormed c.server ∧ Chronological c.server.all_posts := by
    apply hrun.invariant_of (C := StoresInOrder) horder ⟨h, hposts⟩
    rintro c e c' ⟨hc, hposts⟩ he hstep
    exact ⟨(step_outcome hc hstep).wellFormed hc, chronological_step hc hposts he hstep⟩
  exact hinv.2

/-- After a run the backlog of a user is the newest of his eligible posts exactly if these were stored in the order
of their timestamps, as all posts are when no step stores one which is older than a post of the server. -/
theorem newest_backlog (hfresh : Fresh s.server) (hrun : (machine tz).Run s tr c) :
    (∀ u, NewestBacklog tz tr c u ↔
      Chronological (c.server.all_posts.filter (eligible tz tr c.server u))) ∧
    (Chronological s.server.all_posts → (∀ x ∈ tr, StoresInOrder x.1 x.2) → ∀ u, NewestBacklog tz tr c u) := by
  have h := followTimes_of_run hfresh hrun
  refine ⟨h.newestBacklog, fun hposts horder u => ?_⟩
  rw [h.newestBacklog]
  exact (chronological_of_run hfresh.wellFormed hposts hrun horder).filter _

section

theorem newest_backlog_refollow : ∃ c, refollow.foldlM (State.step .utc) {} = .ok c ∧
    ∀ u, NewestBacklog .utc (Machine.history (State.step .utc) {} refollow) c u := by
  have hrun : ∃ c, refollow.foldlM (State.step .utc) {} = .ok c ∧
      ∀ x ∈ Machine.history (State.step .utc) {} refollow, StoresInOrder x.1 x.2 :=
    ⟨_, rfl, by decide +kernel⟩
  obtain ⟨c, hc, horder⟩ := hrun
  exact ⟨c, hc, (newest_backlog ⟨rfl, rfl⟩ (Machine.run_of_foldlM hc)).2 .nil horder⟩

/-- Carl's post, which another master sends, arrives before an older one of Bob, who is in the timeline here. -/
def lateArrival : List Event :=
  [loginOf ann, loginOf bob, loginOf carl, followOf ann bob 1, followOf ann carl 1, .enter,
    .message 0 (joinMessage bob), addPostOf carl 20, .message 0 (postMessage bob 10)]

/-- Ann gets the older post first, and no other if she gets one. -/
theorem newest_backlog_lateArrival : ∃ s c tr f, s.Start ∧ Fresh s.server ∧ s.server.all_posts = [] ∧
    (machine .utc).Run s tr c ∧ c.server.getClient ann = some 0 ∧ c.server.heap[0]? = some f ∧
    c.server.getFollowingPosts f 20 = .ok [.ofMessage (postMessage bob 10), .ofMessage (postMessage carl 20)] ∧
    c.server.getFollowingPosts f 1 = .ok [.ofMessage (postMessage bob 10)] ∧
    eligible .utc tr c.server ann (.ofMessage (postMessage carl 20)) = true ∧ ¬ NewestBacklog .utc tr c ann := by
  have hrun : ∃ c, lateArrival.foldlM (State.step .utc) {} = .ok c ∧ ∃ f, c.server.heap[0]? = some f ∧
      c.server.getClient ann = some 0 ∧ c.server.getFollowingPosts f 20 =
        .ok [.ofMessage (postMessage bob 10), .ofMessage (postMessage carl 20)] ∧
      c.server.getFollowingPosts f 1 = .ok [.ofMessage (postMessage bob 10)] ∧
      eligible .utc (Machine.history (State.step .utc) {} lateArrival) c.server ann
        (.ofMessage (postMessage carl 20)) = true :=
    ⟨_, rfl, _, rfl, by decide +kernel, by rfl, by rfl, by decide +kernel⟩
  obtain ⟨c, hc, f, hf, hi, hall, hone, heligible⟩ := hrun
  refine ⟨{}, c, _, f, startEmpty, ⟨rfl, rfl⟩, rfl, Machine.run_of_foldlM hc, hi, hf, hall, hone, heligible, ?_⟩
  intro h
  obtain ⟨backlog, hbacklog, rest, -, hsorted, -⟩ := h 0 f hi hf 20
  rw [hall, Except.ok.injEq] at hbacklog
  subst hbacklog
  revert hsorted
  decide

end

end DistributedSns.Server.Streams
