import DistributedSns.System.Lemmas.Join

/-!
# What a joined slave has

A joined slave agrees with its master exactly if what it has received covers what the master applied after the
snapshot. Account requests may be received a second time; a post which is received a second time is stored a second
time, and what is propagated between the snapshot and the first RPC that reaches the slave is lost.
-/

namespace DistributedSns.System.Join

open Lib (Machine update)
open Coordinator (SNSCoordinator)
open Server
open Server.SNSServer (Method)

/-! ## Agreement -/

section

variable {tz : TimeZone} {c₀ c : State} {tr : List (State × Event)}

theorem map_content_of_same {ps qs : List Post} (h : List.Forall₂ (SamePost tz) ps qs) :
    qs.map content = ps.map content := by
  induction h with
  | nil => rfl
  | cons hpq _ ih => rw [List.map_cons, List.map_cons, ih, content, content, hpq.username, hpq.data]

/-- Nothing is received which the master has not applied. -/
theorem MasterInv.mem_of_received (h : MasterInv tz c₀ tr c) {x : Method × Request} (hx : x ∈ received tr) :
    x ∈ appliedBefore tz tr ++ appliedAfter tz tr :=
  h.handed.mem_iff.mp (List.mem_append_left _ (List.mem_append_right _ hx))

theorem Caught.users_iff (hm : MasterInv tz c₀ tr c) (hc : Caught tz c₀ tr c) :
    (∀ u, c.slave.hasUser u = c.master.hasUser u) ↔ ∀ request, (Method.LOGIN, request) ∈ appliedAfter tz tr →
      (appliedBefore tz tr ++ received tr).foldl (update write) c₀.master.graph (.user request.username) = true := by
  have hslave (u : Str) : c.slave.hasUser u = _ := congrFun hc.graph (.user u)
  have hmaster (u : Str) : c.master.hasUser u = _ := congrFun hm.graph (.user u)
  constructor
  · intro h request hrequest
    rw [← hslave, h, hmaster, foldl_update_user]
    exact .inr ⟨request, List.mem_append_right _ hrequest, rfl⟩
  · intro h u
    rw [Bool.eq_iff_iff, hslave, hmaster]
    constructor
    · intro hu
      rw [foldl_update_user] at hu ⊢
      refine hu.imp_right ?_
      rintro ⟨request, hrequest, hu⟩
      refine ⟨request, ?_, hu⟩
      rcases List.mem_append.mp hrequest with hbefore | hreceived
      · exact List.mem_append_left _ hbefore
      · exact hm.mem_of_received hreceived
    · intro hu
      rcases foldl_update_user.mp hu with hu | ⟨request, hrequest, rfl⟩
      · exact foldl_update_user.mpr (.inl hu)
      · rcases List.mem_append.mp hrequest with hbefore | hafter
        · exact foldl_update_user.mpr (.inr ⟨request, List.mem_append_left _ hbefore, rfl⟩)
        · exact h request hafter

theorem Caught.edges_iff (hm : MasterInv tz c₀ tr c) (hc : Caught tz c₀ tr c) :
    (∀ a b, c.slave.follows a b = c.master.follows a b) ↔
      ∀ a b, (appliedBefore tz tr ++ received tr).foldl (update write) c₀.master.graph (.follows a b) =
        (appliedBefore tz tr ++ appliedAfter tz tr).foldl (update write) c₀.master.graph (.follows a b) := by
  rw [← hc.graph, ← hm.graph]
  rfl

theorem Caught.posts_iff (hc : Caught tz c₀ tr c) :
    (c.slave.all_posts.map content).Perm (c.master.all_posts.map content) ↔
      ((postsOf (received tr)).map content).Perm ((postsOf (appliedAfter tz tr)).map content) := by
  obtain ⟨ps, qs, hsame, hslave, hmaster⟩ := hc.posts
  rw [hslave, hmaster, List.map_append, List.map_append, map_content_of_same hsame, List.perm_append_left_iff]

theorem Caught.agrees_iff (hm : MasterInv tz c₀ tr c) (hc : Caught tz c₀ tr c) (hphase : c.phase = .listening) :
    Agrees c ↔ Covers c₀.master.graph (appliedBefore tz tr) (appliedAfter tz tr) (received tr) := by
  constructor
  · intro h
    exact ⟨hc.known, (hc.users_iff hm).mp h.users, (hc.edges_iff hm).mp h.edges, hc.posts_iff.mp h.posts⟩
  · intro h
    exact ⟨hphase, (hc.users_iff hm).mpr h.users, (hc.edges_iff hm).mpr h.edges, hc.posts_iff.mpr h.posts⟩

/-- What is received in the order of the master makes up for what the snapshot has not. -/
theorem MasterInv.covers (hm : MasterInv tz c₀ tr c) (h : received tr = appliedAfter tz tr) :
    Covers c₀.master.graph (appliedBefore tz tr) (appliedAfter tz tr) (received tr) := by
  have hnamed := hm.named
  rw [findUsers_append, Bool.and_eq_true] at hnamed
  rw [h]
  refine ⟨hnamed.2, ?_, fun _ _ => rfl, .refl _⟩
  intro request hrequest
  rw [foldl_update_user]
  exact .inr ⟨request, List.mem_append_right _ hrequest, rfl⟩

/-- The slave agrees with the master if and only if what it has received covers what the master has applied after the
snapshot, as it does if it has received just that in the order of the master. If these are the same posts, the slave has the master's posts, those from the snapshot with the time which
can be read in it. Once nothing is pending, all requests have been propagated once. -/
theorem agrees_iff_covers (h₀ : c₀.Start tz) (hrun : (machine tz).Run c₀ tr c)
    (hclean : ∀ x ∈ tr, Clean tz x.1 x.2) (hjoined : c.phase.joined = true) :
    (Agrees c ↔ Covers c₀.master.graph (appliedBefore tz tr) (appliedAfter tz tr) (received tr)) ∧
      (received tr = appliedAfter tz tr → Agrees c) ∧
      (Agrees c → (postsOf (received tr)).Perm (postsOf (appliedAfter tz tr)) →
        ∃ posts, c.slave.all_posts.Perm posts ∧
          List.Forall₂ (fun p q => q = p ∨ SamePost tz p q) c.master.all_posts posts) ∧
      (c.pending = [] → (missed tr ++ received tr).Perm (appliedBefore tz tr ++ appliedAfter tz tr)) := by
  obtain ⟨hm, hp⟩ := progress_of_run h₀ hrun hclean
  have hquiet (hpending : c.pending = []) :
      (missed tr ++ received tr).Perm (appliedBefore tz tr ++ appliedAfter tz tr) := by
    simpa [hpending] using hm.handed
  have hagrees : Agrees c ↔ Covers c₀.master.graph (appliedBefore tz tr) (appliedAfter tz tr) (received tr) := by
    generalize hphase : c.phase = phase at hp
    cases hp with
    | listening he hc => exact hc.agrees_iff hm hphase
    | crashed hcrash =>
        refine iff_of_false ?_ ?_
        · intro h
          have hlisten := h.listening
          rw [hphase] at hlisten
          cases hlisten
        · intro h
          rw [h.known] at hcrash
          cases hcrash
    | _ =>
        rw [hphase] at hjoined
        cases hjoined
  refine ⟨hagrees, fun h => hagrees.mpr (hm.covers h), ?_, hquiet⟩
  intro h hperm
  rw [h.listening] at hp
  cases hp with
  | listening he hc =>
      obtain ⟨ps, qs, hsame, hslave, hmaster⟩ := hc.posts
      refine ⟨qs ++ postsOf (appliedAfter tz tr), ?_, ?_⟩
      · rw [hslave]
        exact hperm.append_left qs
      · rw [hmaster]
        apply List.rel_append
        · exact hsame.imp fun _ _ => .inr
        · exact List.forall₂_same.mpr fun _ _ => .inl rfl

end

/-! ## Runs of one master and one slave -/

/-- The server `serverid` of the first cluster. -/
def joinServer (serverid : Int) (port : Str) (master : Bool) : SNSServer where
  serverInfo := { clusterid := 1, serverid, hostname := ['a'], port }
  master := master

def State.ofCoordinator (coordinator : SNSCoordinator) : State where
  coordinator := coordinator
  master := joinServer 1 ['1'] true
  slave := joinServer 2 ['2'] false
  serverAddress := ['a', ':', '2']

/-- The master has registered. -/
def masterHeartbeat : SNSCoordinator.Event := .heartbeat 0 (joinServer 1 ['1'] true).serverInfo

theorem start_ofCoordinator {c : SNSCoordinator} (hc : [masterHeartbeat].foldlM SNSCoordinator.handle (.init 1) = .ok c)
    (hlength : c.clusters.length = 1)
    (hunused : (allZNodes c fun _ _ z => z.getAddress ≠ ['a', ':', '2']) = true) :
    (State.ofCoordinator c).Start .utc where
  inv := .of_reachable (Machine.reachable_of_foldlM rfl hc)
  stored := .empty ⟨rfl, rfl⟩ rfl rfl rfl
  master := rfl
  cluster := ⟨0, rfl, by simp [State.ofCoordinator, hlength]⟩
  clusterid := rfl
  serverid := by simp [State.ofCoordinator, joinServer]
  serverAddress := rfl
  unused j k z hz haddr := by
    have hne := of_allZNodes hunused hz
    exact absurd haddr (of_decide_eq_true hne)
  fresh := ⟨rfl, rfl⟩
  posts := rfl
  phase := rfl
  pending := rfl

/-- The events are a run of the two processes. -/
theorem exists_run {l : List Event} {P : List (State × Event) → State → Prop}
    (h : ∃ c, [masterHeartbeat].foldlM SNSCoordinator.handle (.init 1) = .ok c ∧ c.clusters.length = 1 ∧
      (allZNodes c fun _ _ z => z.getAddress ≠ ['a', ':', '2']) = true ∧
      ∃ c', l.foldlM (State.step .utc) (.ofCoordinator c) = .ok c' ∧
        P (Machine.history (State.step .utc) (.ofCoordinator c) l) c')
    (hl : ∀ e ∈ l, ∀ c, Clean .utc c e) : ∃ c₀ tr c, c₀.Start .utc ∧ (machine .utc).Run c₀ tr c ∧
      (∀ x ∈ tr, Clean .utc x.1 x.2) ∧ P tr c := by
  obtain ⟨c, hc, hlength, hunused, c', hrun, hP⟩ := h
  refine ⟨_, _, c', start_ofCoordinator hc hlength hunused, Machine.run_of_foldlM hrun, ?_, hP⟩
  intro x hx
  exact hl x.2 (Machine.mem_of_history hx) x.1

section

variable {tz : TimeZone} {c : State}

theorem clean_accept {method : Method} {request : Request} (h : Storable tz method request) :
    Clean tz c (.accept method request) := by
  intro x hx
  cases hx
  exact h

theorem clean_message {stream : StreamId} {message : Message} (h : Storable tz .ADD_POST { message }) :
    Clean tz c (.message stream message) := by
  intro x hx
  rw [appliedIn] at hx
  split at hx
  next hr =>
    obtain ⟨rfl, -⟩ := timeline_some hr
    cases hx
    exact h
  · cases hx

end

def annLogin : Event := .accept .LOGIN { username := "ann".toList }

/-- A message of ann; the empty one opens her timeline. -/
def annMessage (msg : Str) : Event := .message 0 { username := "ann".toList, msg }

theorem clean_annLogin (c : State) : Clean .utc c annLogin := by
  apply clean_accept
  refine ⟨fun _ => ?_, by simp, by simp, by simp⟩
  constructor <;> decide

theorem clean_annMessage {msg : Str} (h : '\n' ∉ msg) (c : State) : Clean .utc c (annMessage msg) := by
  have htime : Readable .utc {} := ⟨_, rfl, _, rfl⟩
  apply clean_message
  exact ⟨by simp, by simp, fun _ => h, fun _ => htime⟩

/-- The process joins and listens; ann logs in before, and posts before and afterwards. -/
def joinAndListen : List Event :=
  [annLogin, .propogate 0, annMessage [], annMessage "hi".toList, .propogate 0, .heartbeat 0, .getLog,
    .initializeData, .listen, annMessage "hi".toList, .propogate 0]

/-- Ann posts after the snapshot, and the post is propagated before the process listens. -/
def propogateThenListen : List Event :=
  [annLogin, .propogate 0, annMessage [], .heartbeat 0, .getLog, annMessage "hi".toList, .propogate 0,
    .initializeData, .listen]

/-- Ann posts before the snapshot, and the post is propagated when the process listens. -/
def listenThenPropogate : List Event :=
  [annLogin, .propogate 0, annMessage [], .heartbeat 0, annMessage "hi".toList, .getLog, .initializeData, .listen,
    .propogate 0]

theorem clean_of_subset {l : List Event} (h : ∀ e ∈ l, e = annLogin ∨ e = annMessage [] ∨
    e = annMessage "hi".toList ∨ ∀ c, appliedIn .utc c e = none) : ∀ e ∈ l, ∀ c, Clean .utc c e := by
  intro e he c
  rcases h e he with rfl | rfl | rfl | hsilent
  · exact clean_annLogin c
  · exact clean_annMessage (by decide) c
  · exact clean_annMessage (by decide) c
  · simp [Clean, hsilent]

theorem agrees_iff_covers_listen : ∃ c₀ tr c, c₀.Start .utc ∧ (machine .utc).Run c₀ tr c ∧ c.pending = [] ∧
    c.slave.all_posts.length = 2 ∧ Agrees c := by
  have hclean := clean_of_subset (l := joinAndListen) (by simp [joinAndListen, appliedIn])
  obtain ⟨c₀, tr, c, h₀, hrun, hclean, hjoined, hpending, hposts, hreceived⟩ := exists_run (l := joinAndListen)
    (P := fun tr c => c.phase.joined = true ∧ c.pending = [] ∧ c.slave.all_posts.length = 2 ∧
      received tr = appliedAfter .utc tr)
    ⟨_, rfl, rfl, by decide +kernel, _, rfl, rfl, rfl, by decide +kernel, by decide +kernel⟩ hclean
  obtain ⟨-, hagrees, -⟩ := agrees_iff_covers h₀ hrun hclean hjoined
  exact ⟨c₀, tr, c, h₀, hrun, hpending, hposts, hagrees hreceived⟩

/-- A post between the snapshot and the first RPC is lost. A post in the snapshot whose propagation reaches the
slave is stored twice. -/
theorem post_lost_or_duplicated :
    (∃ c₀ tr c, c₀.Start .utc ∧ (machine .utc).Run c₀ tr c ∧ (∀ x ∈ tr, Clean .utc x.1 x.2) ∧ c.phase = .listening ∧
      c.pending = [] ∧ c.master.all_posts.length = 1 ∧ c.slave.all_posts.length = 0) ∧
    ∃ c₀ tr c, c₀.Start .utc ∧ (machine .utc).Run c₀ tr c ∧ (∀ x ∈ tr, Clean .utc x.1 x.2) ∧ c.phase = .listening ∧
      c.pending = [] ∧ c.master.all_posts.length = 1 ∧ c.slave.all_posts.length = 2 := by
  constructor
  · apply exists_run (l := propogateThenListen)
    · exact ⟨_, rfl, rfl, by decide +kernel, _, rfl, rfl, rfl, by decide +kernel, by decide +kernel⟩
    · exact clean_of_subset (by simp [propogateThenListen, appliedIn])
  · apply exists_run (l := listenThenPropogate)
    · exact ⟨_, rfl, rfl, by decide +kernel, _, rfl, rfl, rfl, by decide +kernel, by decide +kernel⟩
    · exact clean_of_subset (by simp [listenThenPropogate, appliedIn])

end DistributedSns.System.Join
