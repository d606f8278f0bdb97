import DistributedSns.Server.Theorems

/-!
# The follow lists

The three lists of a client and those of the clients they point to stay aligned over every run, and the time kept
for a followed client is that of the last successful request to follow him.
-/

namespace DistributedSns.Server

open Lib (Machine)
open SNSServer

variable {tz : TimeZone} {s₀ s s' : SNSServer} {tr : List (SNSServer × (Method × Request))}

/-! ## The last successful follow -/

/-- The time of a request of `a` to follow `b` which succeeds in this step. -/
def followedIn (tz : TimeZone) (a b : Str) (s : SNSServer) (e : Method × Request) : Option Timestamp :=
  match s.handle tz e.1 e.2 with
  | .ok r =>
    if e.1 = .FOLLOW ∧ e.2.username = a ∧ e.2.arguments[0]? = some b ∧ r.2.status = .SUCCESS then
      some e.2.timestamp
    else none
  | .error _ => none

def lastFollow (tz : TimeZone) (a b : Str) (tr : List (SNSServer × (Method × Request))) : Option Timestamp :=
  Machine.latest (followedIn tz a b) tr

section

variable {request : Request} {reply : Reply} {a b : Str}

theorem followedIn_of_ne {method : Method} (hm : method ≠ .FOLLOW) :
    followedIn tz a b s (method, request) = none := by
  rw [followedIn]
  split
  · rw [if_neg]
    exact fun h => hm h.1
  · rfl

theorem followedIn_follow (hr : s.follow tz request = .ok (s', reply)) {b' : Str} {i j : Nat}
    (hk : Known s request b' i j) : followedIn tz a b s (.FOLLOW, request) =
      if request.username = a ∧ b' = b ∧ reply.status = .SUCCESS then some request.timestamp else none := by
  have hr' : s.handle tz .FOLLOW request = .ok (s', reply) := hr
  simp only [followedIn, hr', hk.arguments, Option.some.injEq, true_and]

end

/-! ## The times in the lists -/

/-- Every entry of a following list has the time of the last successful follow. -/
def Timed (last : Str → Str → Option Timestamp) (s : SNSServer) : Prop :=
  ∀ (i : Nat) (c : Client), s.heap[i]? = some c → ∀ j t, (j, t) ∈ c.client_following.zip c.follow_time →
    ∀ d, s.heap[j]? = some d → last c.username d.username = some t

theorem Timed.congr {last : Str → Str → Option Timestamp} (h : Timed last s) (hheap : s'.heap = s.heap) :
    Timed last s' := by
  unfold Timed
  rw [hheap]
  exact h

theorem mem_zip_eraseIdx {α β : Type} {l : List α} {m : List β} (h : m.length = l.length) {k : Nat} {x : α × β}
    (hx : x ∈ (l.eraseIdx k).zip (m.eraseIdx k)) : x ∈ l.zip m := by
  induction l generalizing m k with
  | nil => simp at hx
  | cons a l ih =>
      cases m with
      | nil => cases h
      | cons b m =>
          cases k with
          | zero => exact List.mem_cons_of_mem _ hx
          | succ k =>
              simp only [List.eraseIdx_cons_succ, List.zip_cons_cons, List.mem_cons] at hx ⊢
              exact hx.imp_right (ih (by simpa using h))

section

variable {last : Str → Str → Option Timestamp} {i j : Nat} {a b u : Str} {t : Timestamp}

theorem Timed.addClient (h : Timed last s) (hwf : WellFormed s) : Timed last (s.addClient u) := by
  intro i c hc j t hjt d hd
  rcases getElem?_addClient hc with hc | ⟨-, rfl⟩
  · have hj := hwf.following i c hc j (List.of_mem_zip hjt).1
    rcases getElem?_addClient hd with hd | ⟨rfl, -⟩
    · exact h i c hc j t hjt d hd
    · exact absurd hj (lt_irrefl _)
  · simp at hjt

theorem Timed.link (h : Timed last s) (hwf : WellFormed s) (hi : s.getClient a = some i)
    (hj : s.getClient b = some j) {c : Client} (hc : s.heap[i]? = some c) (hm : j ∉ c.client_following)
    {l : Str → Str → Option Timestamp} (hnew : l a b = some t)
    (hold : ∀ a' b', ¬ (a' = a ∧ b' = b) → l a' b' = last a' b') : Timed l (s.link i j t) := by
  obtain ⟨d, hd, hdb⟩ := hwf.getClient_eq_some.mp hj
  obtain ⟨c', hc', hca⟩ := hwf.getClient_eq_some.mp hi
  rw [hc, Option.some.injEq] at hc'
  subst hc'
  -- an entry which was there before belongs to another pair of users
  have hkept (i' : Nat) (c' : Client) (hc' : s.heap[i']? = some c') (j' : Nat) (t' : Timestamp)
      (hjt : (j', t') ∈ c'.client_following.zip c'.follow_time) (d' : Client) (hd' : s.heap[j']? = some d') :
      l c'.username d'.username = some t' := by
    rw [hold]
    · exact h i' c' hc' j' t' hjt d' hd'
    · rintro ⟨hca', hdb'⟩
      have hi' := hwf.names i' i c' c hc' hc (hca'.trans hca.symm)
      have hj' := hwf.names j' j d' d hd' hd (hdb'.trans hdb.symm)
      subst hi' hj'
      rw [hc, Option.some.injEq] at hc'
      subst hc'
      exact hm (List.of_mem_zip hjt).1
  intro i' c' hc' j' t' hjt d' hd'
  rw [getElem?_link, Option.map_eq_some_iff] at hc' hd'
  obtain ⟨e, he, rfl⟩ := hc'
  obtain ⟨f, hf, rfl⟩ := hd'
  rw [following_linkClient, follow_time_linkClient] at hjt
  rw [username_linkClient, username_linkClient]
  split_ifs at hjt with hi'
  · subst hi'
    rw [hc, Option.some.injEq] at he
    subst he
    rw [List.zip_append (hwf.times i' c hc).symm] at hjt
    rcases List.mem_append.mp hjt with hjt | hjt
    · exact hkept i' c hc j' t' hjt f hf
    · simp only [List.zip_cons_cons, List.zip_nil_right, List.mem_singleton, Prod.mk.injEq] at hjt
      obtain ⟨rfl, rfl⟩ := hjt
      rw [hd, Option.some.injEq] at hf
      subst hf
      rw [hca, hdb]
      exact hnew
  · exact hkept i' e he j' t' hjt f hf

theorem Timed.unlink (h : Timed last s) (hwf : WellFormed s) : Timed last (s.unlink i j) := by
  intro i' c' hc' j' t' hjt d' hd'
  rw [getElem?_unlink, Option.map_eq_some_iff] at hc' hd'
  obtain ⟨e, he, rfl⟩ := hc'
  obtain ⟨f, hf, rfl⟩ := hd'
  rw [following_unlinkClient, follow_time_unlinkClient] at hjt
  rw [username_unlinkClient, username_unlinkClient]
  split_ifs at hjt
  · rw [List.erase_eq_eraseIdx_of_idxOf rfl] at hjt
    exact h i' e he j' t' (mem_zip_eraseIdx (hwf.times i' e he) hjt) f hf
  · exact h i' e he j' t' hjt f hf

end

/-- A request keeps the lists in step with the last successful follows. -/
theorem Timed.handle {last l : Str → Str → Option Timestamp} (h : Timed last s) (hwf : WellFormed s) {method : Method}
    {request : Request} {reply : Reply} (hr : s.handle tz method request = .ok (s', reply))
    (hl : ∀ a b, l a b = (followedIn tz a b s (method, request)).or (last a b)) : Timed l s' := by
  have ho := handle_outcome hwf hr
  -- a step without a successful follow leaves the last follows as they are
  have hnone (hn : ∀ a b, followedIn tz a b s (method, request) = none) : l = last := by
    funext a b
    rw [hl, hn, Option.none_or]
  have hfollow {b' : Str} {i j : Nat} (hm : method = .FOLLOW) (hk : Known s request b' i j) (a b : Str) :
      followedIn tz a b s (method, request) =
        if request.username = a ∧ b' = b ∧ reply.status = .SUCCESS then some request.timestamp else none := by
    subst hm
    exact followedIn_follow hr hk
  generalize hstatus : reply.status = status at ho
  cases ho with
  | loginKnown hi =>
      rw [hnone fun a b => followedIn_of_ne (by decide)]
      exact h
  | loginNew hnew =>
      rw [hnone fun a b => followedIn_of_ne (by decide)]
      exact (h.addClient hwf).congr rfl
  | followSelf hk =>
      rw [hnone fun a b => by rw [hfollow rfl hk, hstatus, if_neg (by simp)]]
      exact h
  | followAgain hk hne hc hm =>
      rw [hnone fun a b => by rw [hfollow rfl hk, hstatus, if_neg (by simp)]]
      exact h
  | @followNew b text i j c hk hne hc hm htext =>
      have hlink := h.link hwf hk.requester hk.target hc hm (t := request.timestamp) (l := l)
      refine (hlink ?_ ?_).congr rfl
      · rw [hl, hfollow rfl hk, if_pos ⟨rfl, rfl, hstatus⟩, Option.some_or]
      · intro a' b' hab
        rw [hl, hfollow rfl hk, if_neg, Option.none_or]
        exact fun he => hab ⟨he.1.symm, he.2.1.symm⟩
  | unfollowSelf hk =>
      rw [hnone fun a b => followedIn_of_ne (by decide)]
      exact h
  | unfollowNone hk hne hc hm =>
      rw [hnone fun a b => followedIn_of_ne (by decide)]
      exact h
  | unfollow hk hne hc hm =>
      rw [hnone fun a b => followedIn_of_ne (by decide)]
      exact (h.unlink hwf).congr rfl
  | post hi hdata =>
      rw [hnone fun a b => followedIn_of_ne (by decide)]
      exact h.congr rfl

/-! ## Runs -/

structure TimedInv (tz : TimeZone) (tr : List (SNSServer × (Method × Request))) (s : SNSServer) : Prop where
  wellFormed : WellFormed s
  timed : Timed (fun a b => lastFollow tz a b tr) s

theorem TimedInv.step {e : Method × Request} (h : TimedInv tz tr s)
    (hs : (serverMachine tz).step s e s') : TimedInv tz (tr ++ [(s, e)]) s' := by
  obtain ⟨⟨s₁, reply⟩, hr, hs⟩ := bind_eq_ok.mp hs
  cases hs
  constructor
  · exact (handle_outcome h.wellFormed hr).wellFormed h.wellFormed
  · exact h.timed.handle h.wellFormed hr fun a b => Machine.latest_concat s e

theorem timedInv_of_run (hs₀ : (serverMachine tz).init s₀) (hrun : (serverMachine tz).Run s₀ tr s) :
    TimedInv tz tr s := by
  induction hrun with
  | nil =>
      constructor
      · exact hs₀.1.wellFormed
      · intro i c hc
        rw [hs₀.1.heap] at hc
        cases hc
  | snoc _ hs ih => exact ih.step hs

/-! ## The invariant of the follow lists -/

/-- What holds between the clients in `client_db`. -/
structure FollowGraph (tz : TimeZone) (tr : List (SNSServer × (Method × Request))) (s : SNSServer) : Prop where
  valid : ∀ i ∈ s.client_db, ∃ c : Client, s.heap[i]? = some c
  names : (s.client_db.map s.username?).Nodup
  listed : ∀ i ∈ s.client_db, ∀ c : Client, s.heap[i]? = some c →
    ∀ j ∈ c.client_following ++ c.client_followers, j ∈ s.client_db
  mirror : ∀ i ∈ s.client_db, ∀ j ∈ s.client_db, ∀ c d : Client, s.heap[i]? = some c → s.heap[j]? = some d →
    (j ∈ c.client_following ↔ i ∈ d.client_followers)
  nodup : ∀ i ∈ s.client_db, ∀ c : Client, s.heap[i]? = some c →
    c.client_following.Nodup ∧ c.client_followers.Nodup
  irrefl : ∀ i ∈ s.client_db, ∀ c : Client, s.heap[i]? = some c →
    i ∉ c.client_following ∧ i ∉ c.client_followers
  length : ∀ i ∈ s.client_db, ∀ c : Client, s.heap[i]? = some c →
    c.follow_time.length = c.client_following.length
  times : ∀ i ∈ s.client_db, ∀ c : Client, s.heap[i]? = some c → ∀ (n j : Nat) (d : Client) (t : Timestamp),
    c.client_following[n]? = some j → s.heap[j]? = some d → c.follow_time[n]? = some t →
      lastFollow tz c.username d.username tr = some t
  erase : ∀ i ∈ s.client_db, ∀ j ∈ s.client_db, ∀ c d : Client, s.heap[i]? = some c → s.heap[j]? = some d →
    ∀ index, s.indexOfFollowing c j = some index → index < c.client_following.length ∧
      index < c.follow_time.length ∧ ∃ index2, s.indexOfFollower d i = some index2 ∧
        index2 < d.client_followers.length

theorem idxOf?_lt {l : List Nat} {j k : Nat} (h : l.idxOf? j = some k) : j ∈ l ∧ k < l.length := by
  rw [idxOf?_eq] at h
  split_ifs at h with hm
  cases h
  exact ⟨hm, List.idxOf_lt_length_iff.mpr hm⟩

theorem TimedInv.followGraph (h : TimedInv tz tr s) : FollowGraph tz tr s := by
  have hwf := h.wellFormed
  have hdb (j : Nat) : j ∈ s.client_db ↔ j < s.heap.length := by
    rw [hwf.db, List.mem_range]
  constructor
  · intro i hi
    exact ⟨_, List.getElem?_eq_getElem ((hdb i).mp hi)⟩
  · rw [hwf.db]
    apply List.Nodup.map_on _ List.nodup_range
    intro i hi j hj hij
    rw [List.mem_range] at hi hj
    simp only [username?, List.getElem?_eq_getElem hi, List.getElem?_eq_getElem hj, Option.map_some,
      Option.some.injEq] at hij
    exact hwf.names i j _ _ (List.getElem?_eq_getElem hi) (List.getElem?_eq_getElem hj) hij
  · intro i _ c hc j hj
    rw [hdb]
    rcases List.mem_append.mp hj with hj | hj
    · exact hwf.following i c hc j hj
    · exact hwf.followers i c hc j hj
  · intro i _ j _ c d hc hd
    exact hwf.mirror i j c d hc hd
  · intro i _ c hc
    exact ⟨hwf.nodup_following i c hc, hwf.nodup_followers i c hc⟩
  · intro i _ c hc
    refine ⟨hwf.irrefl i c hc, fun hm => ?_⟩
    exact hwf.irrefl i c hc ((hwf.mirror i i c c hc hc).mpr hm)
  · intro i _ c hc
    exact hwf.times i c hc
  · intro i _ c hc n j d t hj hd ht
    apply h.timed i c hc j t _ d hd
    exact List.mem_of_getElem? (List.getElem?_zip_eq_some.mpr ⟨hj, ht⟩)
  · intro i hi j hj c d hc hd index hindex
    rw [indexOfFollowing, hwf.indexOf_eq (hwf.following i c hc) ((hdb j).mp hj)] at hindex
    obtain ⟨hm, hlt⟩ := idxOf?_lt hindex
    have hm' := (hwf.mirror i j c d hc hd).mp hm
    refine ⟨hlt, by rwa [hwf.times i c hc], d.client_followers.idxOf i, ?_,
      List.idxOf_lt_length_iff.mpr hm'⟩
    rw [indexOfFollower, hwf.indexOf_eq (hwf.followers j d hd) ((hdb i).mp hi), idxOf?_eq, if_pos hm']

/-- After every run of a server which started empty the follow lists are aligned. -/
theorem follow_graph (hs₀ : (serverMachine tz).init s₀) (hrun : (serverMachine tz).Run s₀ tr s) :
    FollowGraph tz tr s :=
  (timedInv_of_run hs₀ hrun).followGraph

theorem follow_graph_accountRequests : ∃ s, accountRequests.foldlM (handleRequest .utc) {} = .ok s ∧
    FollowGraph .utc (Machine.history (handleRequest .utc) {} accountRequests) s ∧
      ∃ c, s.heap[0]? = some c ∧ c.client_following = [1] := by
  have hrun : ∃ s, accountRequests.foldlM (handleRequest .utc) {} = .ok s ∧
      ∃ c, s.heap[0]? = some c ∧ c.client_following = [1] :=
    ⟨_, rfl, _, rfl, by decide +kernel⟩
  obtain ⟨s, hs, hfollowing⟩ := hrun
  exact ⟨s, hs, follow_graph ⟨⟨rfl, rfl⟩, rfl⟩ (Machine.run_of_foldlM hs), hfollowing⟩

end DistributedSns.Server
