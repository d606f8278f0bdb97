import DistributedSns.Server.StreamTheorems

/-!
# What a timeline shows

A client who joins the timeline gets the backlog, selected by his following list, and from then on every post of a user
he follows, pushed along the followers list of its author. The two lists mirror each other, so nothing is lost in
between and nothing comes twice, as long as no second user joins on his stream.
-/

namespace DistributedSns.Server.Streams

open Lib (Machine)
open SNSServer

variable {tz : TimeZone} {s c c' c'' : State} {e : Event} {tr tr' : List (State × Event)} {stream : StreamId}

/-! ## What is written to one stream -/

def onStream (stream : StreamId) (written : List (StreamId × Message)) : List Message :=
  (written.filter fun w => w.1 = stream).map (·.2)

theorem onStream_append (stream : StreamId) (w w' : List (StreamId × Message)) :
    onStream stream (w ++ w') = onStream stream w ++ onStream stream w' := by
  simp [onStream]

theorem onStream_self (stream : StreamId) (posts : List Post) :
    onStream stream (posts.map fun post => (stream, Post.toMessage post)) = posts.map Post.toMessage := by
  induction posts with
  | nil => rfl
  | cons post posts ih => simp_all [onStream]

theorem onStream_other {stream' : StreamId} (hne : stream' ≠ stream) (posts : List Post) :
    onStream stream (posts.map fun post => (stream', Post.toMessage post)) = [] := by
  simp [onStream, hne]

/-- A message which is pushed to a list of clients comes once to the stream of a client who is in it. -/
theorem onStream_push {l : List Nat} (hl : l.Nodup) {g : Nat → Option StreamId} {i : Nat}
    (hg : ∀ ref, g ref = some stream ↔ ref = i) (message : Message) :
    onStream stream ((l.filterMap g).map (·, message)) = if i ∈ l then [message] else [] := by
  induction l with
  | nil => rfl
  | cons ref l ih =>
      rw [List.nodup_cons] at hl
      have ih := ih hl.2
      cases href : g ref with
      | none =>
          have hne : ref ≠ i := by
            rintro rfl
            rw [(hg ref).mpr rfl] at href
            cases href
          simpa [href, Ne.symm hne] using ih
      | some stream' =>
          rw [List.filterMap_cons_some href, List.map_cons, ← List.singleton_append, onStream_append, ih]
          by_cases hne : ref = i
          · subst hne
            rw [(hg ref).mpr rfl, Option.some.injEq] at href
            simp [onStream, href, hl.1]
          · have hne' : stream' ≠ stream := by
              rintro rfl
              exact hne ((hg ref).mp href)
            simp [onStream, hne', Ne.symm hne]

/-! ## Followed authors -/

theorem follows_iff_mem_followers {s : SNSServer} (h : WellFormed s) {u v : Str} {i j : Nat} {a : Client}
    (hi : s.getClient u = some i) (hj : s.getClient v = some j) (ha : s.heap[j]? = some a) :
    s.follows u v = true ↔ i ∈ a.client_followers := by
  obtain ⟨b, hb, -⟩ := h.getClient_eq_some.mp hi
  rw [follows_eq_true]
  constructor
  · rintro ⟨i', j', b', hi', hj', hb', hm⟩
    rw [hi, Option.some.injEq] at hi'
    subst hi'
    rw [hj, Option.some.injEq] at hj'
    subst hj'
    exact (h.mirror i j b' a hb' ha).mp hm
  · intro hm
    exact ⟨i, j, b, hi, hj, hb, (h.mirror i j b a hb ha).mpr hm⟩

theorem follows_self {s : SNSServer} (h : WellFormed s) (u : Str) : s.follows u u = false := by
  rw [Bool.eq_false_iff]
  intro hself
  obtain ⟨i, j, a, hi, hj, ha, hm⟩ := follows_eq_true.mp hself
  rw [hi, Option.some.injEq] at hj
  subst hj
  exact h.irrefl i a ha hm

/-- The backlog holds posts of followed users only. -/
theorem followingPosts_followed {s : SNSServer} {a : Client} {all : List Post} {maxPosts : Nat}
    {posts : List Post} (hposts : s.followingPosts a all maxPosts = .ok posts) :
    ∀ post ∈ posts, ∃ j ∈ a.client_following, s.getClient post.username = some j := by
  revert posts
  fun_induction SNSServer.followingPosts s a all maxPosts with
  | case1 => simp
  | case2 => simp
  | case3 post all maxPosts index hidx =>
      rename_i ih
      exact ih
  | case4 => simp
  | case5 post all maxPosts index idx hidx followTime htime hlater =>
      rename_i ih
      intro posts hposts p hp
      obtain ⟨rest, hrest, hposts⟩ := bind_eq_ok.mp hposts
      cases hposts
      rcases List.mem_cons.mp hp with rfl | hp
      · obtain ⟨j, hauthor, hj⟩ := Option.bind_eq_some_iff.mp hidx
        obtain ⟨hlt, hj, -⟩ := List.findIdx?_eq_some_iff_getElem.mp hj
        rw [decide_eq_true_iff] at hj
        exact ⟨j, hj ▸ List.getElem_mem hlt, hauthor⟩
      · exact ih hrest p hp
  | case6 post all maxPosts index idx hidx followTime htime hlater =>
      rename_i ih
      exact ih

/-! ## The owner of a stream -/

/-- A user joins the timeline on the stream: his message is read there while he has no stream. -/
def Joins (c : State) (stream : StreamId) : Event → Prop
  | .message stream' message => stream' = stream ∧
      ∃ ref ∈ c.server.getClient message.username, c.server.streamOf ref = none
  | _ => False

instance (c : State) (stream : StreamId) (e : Event) : Decidable (Joins c stream e) :=
  match e with
  | .message stream' message => inferInstanceAs (Decidable (stream' = stream ∧
      ∃ ref ∈ c.server.getClient message.username, c.server.streamOf ref = none))
  | .request _ _ => .isFalse id
  | .enter => .isFalse id
  | .leave _ => .isFalse id

/-- Nobody has joined on the stream. -/
structure Unjoined (c : State) (stream : StreamId) : Prop where
  wellFormed : WellFormed c.server
  stored : ∀ ref, c.server.streamOf ref ≠ some stream
  quiet : onStream stream c.server.written = []

/-- The stream is stored in the client of the user and in no other client. -/
structure Owns (c : State) (u : Str) (i : Nat) (stream : StreamId) : Prop where
  wellFormed : WellFormed c.server
  user : c.server.getClient u = some i
  stored : ∀ ref, c.server.streamOf ref = some stream ↔ ref = i

theorem Outcome.streamOf_of_not_joins (ho : Outcome tz c e c') (he : ¬ Joins c stream e) (ref : Nat) :
    c'.server.streamOf ref = some stream ↔ c.server.streamOf ref = some stream := by
  rcases ho.streamOf with hsame | ⟨stream', message, i, rfl, -, hi, hnone, -, hupdate⟩
  · rw [hsame]
  · have hne : stream' ≠ stream := fun h => he ⟨h, i, hi, hnone⟩
    rw [hupdate, Function.update_apply]
    split_ifs with href
    · subst href
      simp [hnone, hne]
    · rfl

theorem Effect.unjoined (heff : Effect c e c') (h : Unjoined c stream) (he : ¬ Joins c stream e) :
    onStream stream c'.server.written = [] := by
  cases heff with
  | quiet hposts hwritten => rw [hwritten, h.quiet]
  | posted hi ha hposts hwritten =>
      have hpush (l : List Nat) (message : Message) :
          onStream stream ((l.filterMap c.server.streamOf).map (·, message)) = [] := by
        simp only [onStream, List.map_eq_nil_iff, List.filter_eq_nil_iff]
        intro w hw hstream
        obtain ⟨stream', hstream', rfl⟩ := List.mem_map.mp hw
        obtain ⟨ref, -, href⟩ := List.mem_filterMap.mp hstream'
        rw [decide_eq_true_iff] at hstream
        exact h.stored ref (hstream ▸ href)
      rw [hwritten, onStream_append, h.quiet, hpush, List.append_nil]
  | joined hmsg hlive hi ha hnone hbacklog hposts hwritten =>
      subst hmsg
      have hne := fun heq => he ⟨heq, _, hi, (streamOf_eq ha).trans hnone⟩
      rw [hwritten, onStream_append, h.quiet, onStream_other hne, List.append_nil]

theorem unjoined_step (h : Unjoined c stream) (ho : Outcome tz c e c') (he : ¬ Joins c stream e) :
    Unjoined c' stream := by
  constructor
  · exact ho.wellFormed h.wellFormed
  · intro ref
    rw [ne_eq, ho.streamOf_of_not_joins he]
    exact h.stored ref
  · exact ho.effect.unjoined h he

theorem unjoined_of_run (hs : s.Start) (hrun : (machine tz).Run s tr c)
    (hfirst : ∀ x ∈ tr, ¬ Joins x.1 stream x.2) : Unjoined c stream := by
  apply hrun.invariant_of (C := fun c e => ¬ Joins c stream e) hfirst
  · constructor
    · exact hs.wellFormed
    · simp [hs.streams]
    · simp [hs.written, onStream]
  · intro c e c' hc he hstep
    exact unjoined_step hc (step_outcome hc.wellFormed hstep) he

theorem owns_step {u : Str} {i : Nat} (h : Owns c u i stream) (ho : Outcome tz c e c') (he : ¬ Joins c stream e) :
    Owns c' u i stream := by
  constructor
  · exact ho.wellFormed h.wellFormed
  · exact ho.getClient h.wellFormed h.user
  · intro ref
    rw [ho.streamOf_of_not_joins he, h.stored]

/-- While the stream has one owner, it gets the posts of the users whom the owner follows. -/
theorem Effect.onStream_owned {u : Str} {i : Nat} (heff : Effect c e c') (h : Owns c u i stream)
    (he : ¬ Joins c stream e) : onStream stream c'.server.written = onStream stream c.server.written ++
      ((newPosts c c').filter fun post => c.server.follows u post.username).map Post.toMessage := by
  cases heff with
  | quiet hposts hwritten => simp [hwritten, hposts]
  | @posted message j a hj ha hposts hwritten =>
      have hpush := onStream_push (h.wellFormed.nodup_followers j a ha) h.stored message
      have hfollows := follows_iff_mem_followers h.wellFormed h.user hj ha
      rw [hwritten, onStream_append, hpush, hposts]
      by_cases hm : i ∈ a.client_followers
      · have hfollowed : c.server.follows u (Post.ofMessage message).username = true := hfollows.mpr hm
        rw [if_pos hm, List.filter_singleton, hfollowed]
        rfl
      · have hother : c.server.follows u (Post.ofMessage message).username = false := by
          rw [Bool.eq_false_iff]
          exact fun hu => hm (hfollows.mp hu)
        rw [if_neg hm, List.filter_singleton, hother]
        rfl
  | joined hmsg hlive hi ha hnone hbacklog hposts hwritten =>
      subst hmsg
      have hne := fun heq => he ⟨heq, _, hi, (streamOf_eq ha).trans hnone⟩
      rw [hwritten, onStream_append, onStream_other hne, hposts]
      rfl

/-! ## Backlog and live posts -/

/-- The posts which are stored by the steps of a history while the user follows their authors. -/
def livePosts (tz : TimeZone) (u : Str) (tr : List (State × Event)) : List Post :=
  tr.flatMap fun x =>
    match x.1.step tz x.2 with
    | .ok c' => (newPosts x.1 c').filter fun post => x.1.server.follows u post.username
    | .error _ => []

theorem livePosts_concat {u : Str} (hstep : c.step tz e = .ok c') : livePosts tz u (tr ++ [(c, e)]) =
    livePosts tz u tr ++ (newPosts c c').filter fun post => c.server.follows u post.username := by
  simp [livePosts, hstep]

theorem onStream_of_run {u : Str} {i : Nat} (h : Owns c u i stream) (hrun : (machine tz).Run c tr c')
    (honly : ∀ x ∈ tr, ¬ Joins x.1 stream x.2) : Owns c' u i stream ∧
      onStream stream c'.server.written =
        onStream stream c.server.written ++ (livePosts tz u tr).map Post.toMessage := by
  induction hrun with
  | nil => simp [h, livePosts]
  | @snoc tr c₁ e c₂ hrun hstep ih =>
      obtain ⟨hc, hwritten⟩ := ih fun x hx => honly x (List.mem_append_left _ hx)
      have he := honly (c₁, e) (List.mem_append_right _ List.mem_cons_self)
      have ho := step_outcome hc.wellFormed hstep
      refine ⟨owns_step hc ho he, ?_⟩
      rw [ho.effect.onStream_owned hc he, hwritten, livePosts_concat hstep, List.map_append, List.append_assoc]

theorem livePosts_others {u : Str} (h : WellFormed c.server) (hrun : (machine tz).Run c tr c') :
    ∀ post ∈ livePosts tz u tr, post.username ≠ u := by
  induction hrun with
  | nil => simp [livePosts]
  | @snoc tr c₁ e c₂ hrun hstep ih =>
      rw [livePosts_concat hstep]
      intro post hpost
      rcases List.mem_append.mp hpost with hold | hnew
      · exact ih post hold
      · have hfollows := (List.mem_filter.mp hnew).2
        rintro rfl
        rw [follows_self (wellFormed_of_run h hrun)] at hfollows
        cases hfollows

/-- A stream on which one user joins gets his backlog and then every post of a user he follows, once and in order,
and nothing else. -/
theorem timeline_exactly_once {message : Message} (hs : (machine tz).init s) (hrun : (machine tz).Run s tr c)
    (hfirst : ∀ x ∈ tr, ¬ Joins x.1 stream x.2) (hjoins : Joins c stream (.message stream message))
    (hjoin : c.step tz (.message stream message) = .ok c') (hrun' : (machine tz).Run c' tr' c'')
    (honly : ∀ x ∈ tr', ¬ Joins x.1 stream x.2) : ∃ i f backlog,
      c.server.getClient message.username = some i ∧ c.server.heap[i]? = some f ∧
      c.server.getFollowingPosts f 20 = .ok backlog ∧
      onStream stream c''.server.written =
        (backlog ++ livePosts tz message.username tr').map Post.toMessage ∧
      ∀ post ∈ backlog ++ livePosts tz message.username tr', post.username ≠ message.username := by
  have h := unjoined_of_run hs hrun hfirst
  obtain ⟨-, i, hi, hnone⟩ := hjoins
  have ho := step_outcome h.wellFormed hjoin
  have hwf' := ho.wellFormed h.wellFormed
  cases ho with
  | @joined _ _ j f backlog hlive hj hf hfnone hbacklog =>
      have howns : Owns { c with server := c.server.joinOf stream j f backlog } message.username j stream := by
        constructor
        · exact hwf'
        · exact (getClient_joinOf hf _).trans hj
        · intro ref
          rw [streamOf_joinOf hf, Function.update_apply]
          split_ifs with href
          · simp [href]
          · simp [href, h.stored ref]
      have hbacklog' : onStream stream (c.server.joinOf stream j f backlog).written =
          backlog.map Post.toMessage := by
        rw [SNSServer.joinOf, onStream_append, h.quiet, onStream_self, List.nil_append]
      refine ⟨j, f, backlog, hj, hf, hbacklog, ?_, ?_⟩
      · rw [(onStream_of_run howns hrun' honly).2, hbacklog', List.map_append]
      · intro post hpost
        rcases List.mem_append.mp hpost with hold | hlive
        · obtain ⟨k, hk, hauthor⟩ := followingPosts_followed hbacklog post hold
          rintro heq
          rw [heq, hj, Option.some.injEq] at hauthor
          subst hauthor
          exact h.wellFormed.irrefl j f hf hk
        · exact livePosts_others hwf' hrun' post hlive
  | posted hlive hj hf hsome hdata =>
      rw [hi, Option.some.injEq] at hj
      subst hj
      exact absurd ((streamOf_eq hf).symm.trans hnone) hsome
  | ignored hlive hj hf hsome =>
      rw [hi, Option.some.injEq] at hj
      subst hj
      exact absurd ((streamOf_eq hf).symm.trans hnone) hsome

section

def addPostOf (username : Str) (seconds : Int) : Event :=
  .request .ADD_POST { message := postMessage username seconds }

/-- Ann follows Bob, who has a post. -/
def beforeJoin : List Event :=
  [loginOf ann, loginOf bob, followOf ann bob 1, addPostOf bob 2, .enter]

def afterJoin : List Event := [addPostOf bob 3, .message 0 (postMessage ann 4)]

theorem timeline_exactly_once_bob : ∃ c c' c'', beforeJoin.foldlM (State.step .utc) {} = .ok c ∧
    c.step .utc (.message 0 (joinMessage ann)) = .ok c' ∧ afterJoin.foldlM (State.step .utc) c' = .ok c'' ∧
    (∃ i f backlog, c.server.getClient ann = some i ∧ c.server.heap[i]? = some f ∧
      c.server.getFollowingPosts f 20 = .ok backlog ∧
      onStream 0 c''.server.written = (backlog ++
        livePosts .utc ann (Machine.history (State.step .utc) c' afterJoin)).map Post.toMessage ∧
      ∀ post ∈ backlog ++ livePosts .utc ann (Machine.history (State.step .utc) c' afterJoin),
        post.username ≠ ann) ∧
    onStream 0 c''.server.written = [postMessage bob 2, postMessage bob 3] := by
  have hrun : ∃ c, beforeJoin.foldlM (State.step .utc) {} = .ok c ∧
      ∃ c', c.step .utc (.message 0 (joinMessage ann)) = .ok c' ∧
      ∃ c'', afterJoin.foldlM (State.step .utc) c' = .ok c'' ∧
        (∀ x ∈ Machine.history (State.step .utc) {} beforeJoin, ¬ Joins x.1 0 x.2) ∧
        Joins c 0 (.message 0 (joinMessage ann)) ∧
        (∀ x ∈ Machine.history (State.step .utc) c' afterJoin, ¬ Joins x.1 0 x.2) ∧
        onStream 0 c''.server.written = [postMessage bob 2, postMessage bob 3] :=
    ⟨_, rfl, _, rfl, _, rfl, by decide +kernel, by decide +kernel, by decide +kernel, by decide +kernel⟩
  obtain ⟨c, hc, c', hjoin, c'', hc'', hfirst, hjoins, honly, hwritten⟩ := hrun
  have hdelivery := timeline_exactly_once startEmpty (Machine.run_of_foldlM hc) hfirst hjoins hjoin
    (Machine.run_of_foldlM hc'') honly
  exact ⟨c, c', c'', hc, hjoin, hc'', hdelivery, hwritten⟩

/-- Bob, who follows Ann, sends his first message on Ann's stream. -/
def sharedStream : List Event := [.message 0 (joinMessage bob), .message 0 (postMessage ann 2)]

/-- Ann then reads her own post there. -/
theorem own_post_on_shared_stream : ∃ c c' c'' tr,
    (machine .utc).Reachable c ∧ c.server.written = [] ∧ Joins c 0 (.message 0 (joinMessage ann)) ∧
    c.step .utc (.message 0 (joinMessage ann)) = .ok c' ∧ (machine .utc).Run c' tr c'' ∧ 0 ∈ c''.live ∧
    (∃ f, c.server.heap[0]? = some f ∧ f.username = ann ∧ c.server.getFollowingPosts f 20 = .ok []) ∧
    livePosts .utc ann tr = [] ∧ onStream 0 c''.server.written = [postMessage ann 2] := by
  have hrun : ∃ c, [loginOf ann, loginOf bob, followOf bob ann 1, .enter].foldlM (State.step .utc) {} = .ok c ∧
      ∃ c', c.step .utc (.message 0 (joinMessage ann)) = .ok c' ∧
      ∃ c'', sharedStream.foldlM (State.step .utc) c' = .ok c'' ∧
        c.server.written = [] ∧ Joins c 0 (.message 0 (joinMessage ann)) ∧ 0 ∈ c''.live ∧
        (∃ f, c.server.heap[0]? = some f ∧ f.username = ann ∧ c.server.getFollowingPosts f 20 = .ok []) ∧
        livePosts .utc ann (Machine.history (State.step .utc) c' sharedStream) = [] ∧
        onStream 0 c''.server.written = [postMessage ann 2] :=
    ⟨_, rfl, _, rfl, _, rfl, by decide +kernel, by decide +kernel, by decide +kernel,
      ⟨_, rfl, by decide +kernel, by rfl⟩, by decide +kernel, by decide +kernel⟩
  obtain ⟨c, hc, c', hjoin, c'', hc'', hwritten, hjoins, hopen, hbacklog, hlive, hshared⟩ := hrun
  exact ⟨c, c', c'', _, Machine.reachable_of_foldlM startEmpty hc, hwritten, hjoins, hjoin,
    Machine.run_of_foldlM hc'', hopen, hbacklog, hlive, hshared⟩

end

end DistributedSns.Server.Streams
