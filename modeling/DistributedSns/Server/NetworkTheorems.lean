import DistributedSns.Lib.EdgeList
import DistributedSns.Server.Accounts
import DistributedSns.Server.Lemmas.Streams
import DistributedSns.Server.Theorems

/-!
# What `List` answers

The users and the pairs of a follower and a followed user, each in the order in which they came. The answer of `List`
is read off from them after every run.
-/

namespace DistributedSns.Server

open Lib (EdgeList Machine)
open Lib.EdgeList
open SNSServer

/-! ## The network -/

structure Network where
  users : List Str := []
  edges : EdgeList Str := []

namespace Network

def login (n : Network) (u : Str) : Network :=
  if n.users.contains u then n else { n with users := n.users ++ [u] }

def follow (n : Network) (a b : Str) : Network :=
  if a = b ∨ (a, b) ∈ n.edges then n else { n with edges := n.edges ++ [(a, b)] }

def unfollow (n : Network) (a b : Str) : Network := { n with edges := n.edges.erase (a, b) }

def request (n : Network) (method : Method) (request : Request) : Network :=
  match method, request.arguments[0]? with
  | .LOGIN, _ => n.login request.username
  | .FOLLOW, some b => n.follow request.username b
  | .UNFOLLOW, some b => n.unfollow request.username b
  | _, _ => n

/-- The timeline has nothing to do with the network. -/
def event (n : Network) : Streams.Event → Network
  | .request method request => n.request method request
  | _ => n

/-- The network after a run. -/
def ofRun (tr : List (Streams.State × Streams.Event)) : Network := (tr.map (·.2)).foldl event {}

def list (n : Network) (u : Str) : ListReply where
  all_users := n.users
  followers := n.edges.predecessors u
  following := n.edges.successors u

end Network

/-! ## The network of a server -/

variable {tz : TimeZone} {s s' : SNSServer} {n : Network} {a b u : Str} {i j : Nat}

theorem Network.login_of_mem (h : u ∈ n.users) : n.login u = n := by
  rw [login, if_pos (List.contains_iff_mem.mpr h)]

theorem Network.login_of_not_mem (h : u ∉ n.users) : n.login u = { n with users := n.users ++ [u] } := by
  rw [login, if_neg (mt List.contains_iff_mem.mp h)]

structure Shows (s : SNSServer) (n : Network) : Prop where
  users : s.names s.client_db = n.users
  following (i : Nat) (c : Client) (hc : s.heap[i]? = some c) :
    s.names c.client_following = n.edges.successors c.username
  followers (i : Nat) (c : Client) (hc : s.heap[i]? = some c) :
    s.names c.client_followers = n.edges.predecessors c.username
  edges (e : Str × Str) (he : e ∈ n.edges) : e.1 ∈ n.users ∧ e.2 ∈ n.users

theorem Shows.mem_users (h : Shows s n) (hwf : WellFormed s) : u ∈ n.users ↔ ∃ i, s.getClient u = some i := by
  rw [← h.users, SNSServer.names, List.mem_filterMap, hwf.db]
  constructor
  · rintro ⟨i, -, hi⟩
    exact ⟨i, hwf.username?_eq_some_iff.mp hi⟩
  · rintro ⟨i, hi⟩
    obtain ⟨c, hc, -⟩ := hwf.getClient_eq_some.mp hi
    exact ⟨i, List.mem_range.mpr (lt_of_getElem? hc), hwf.username?_eq_some_iff.mpr hi⟩

theorem Shows.mem_edges (h : Shows s n) (hwf : WellFormed s) (hi : s.getClient a = some i)
    (hj : s.getClient b = some j) {c : Client} (hc : s.heap[i]? = some c) :
    (a, b) ∈ n.edges ↔ j ∈ c.client_following := by
  obtain ⟨d, hd, rfl⟩ := hwf.getClient_eq_some.mp hi
  obtain rfl : c = d := Option.some.inj (hc.symm.trans hd)
  rw [← mem_successors, ← h.following i c hc, hwf.mem_names hj]

/-- What is kept by changes which keep the names and the lists. -/
theorem Shows.of_sameLists (h : Shows s n) (hdb : s'.client_db = s.client_db) (hname : s'.username? = s.username?)
    (hheap : ∀ (k : Nat) (d : Client), s'.heap[k]? = some d → ∃ c, s.heap[k]? = some c ∧ SameLists c d) :
    Shows s' n := by
  have hnames (refs : List Nat) : s'.names refs = s.names refs := names_congr fun ref _ => congrFun hname ref
  constructor
  · rw [hdb, hnames, h.users]
  · intro i d hd
    obtain ⟨c, hc, hsame⟩ := hheap i d hd
    rw [hnames, hsame.following, hsame.username, h.following i c hc]
  · intro i d hd
    obtain ⟨c, hc, hsame⟩ := hheap i d hd
    rw [hnames, hsame.followers, hsame.username, h.followers i c hc]
  · exact h.edges

theorem Shows.congr (h : Shows s n) (hheap : s'.heap = s.heap) (hdb : s'.client_db = s.client_db) : Shows s' n := by
  refine h.of_sameLists hdb (username?_congr hheap) ?_
  intro k d hd
  rw [hheap] at hd
  exact ⟨d, hd, rfl, rfl, rfl, rfl, rfl⟩

theorem Shows.addClient (h : Shows s n) (hwf : WellFormed s) (hnew : s.getClient u = none) :
    Shows (s.addClient u) (n.login u) := by
  have hnot : u ∉ n.users := by
    rw [h.mem_users hwf, hnew]
    simp
  have hnames (refs : List Nat) (hrefs : Valid s refs) : (s.addClient u).names refs = s.names refs := by
    apply names_congr
    intro k hk
    rw [username?, username?, SNSServer.addClient, List.getElem?_append_left (hrefs k hk)]
  have hlast : (s.addClient u).username? s.heap.length = some u := by
    rw [username?, SNSServer.addClient, List.getElem?_concat_length, Option.map_some]
  have hdb : Valid s s.client_db := by
    intro k hk
    rw [hwf.db, List.mem_range] at hk
    exact hk
  rw [Network.login_of_not_mem hnot]
  constructor
  · have husers : (s.addClient u).names (s.client_db ++ [s.heap.length]) = n.users ++ [u] := by
      rw [names_concat hlast, hnames _ hdb, h.users]
    exact husers
  · intro i c hc
    rcases getElem?_addClient hc with hc | ⟨-, rfl⟩
    · rw [hnames _ (hwf.following i c hc), h.following i c hc]
    · have hnone : n.edges.successors u = [] := by
        refine List.eq_nil_iff_forall_not_mem.mpr fun v hv => ?_
        exact hnot (h.edges _ (mem_successors.mp hv)).1
      exact hnone.symm
  · intro i c hc
    rcases getElem?_addClient hc with hc | ⟨-, rfl⟩
    · rw [hnames _ (hwf.followers i c hc), h.followers i c hc]
    · have hnone : n.edges.predecessors u = [] := by
        refine List.eq_nil_iff_forall_not_mem.mpr fun v hv => ?_
        exact hnot (h.edges _ (mem_predecessors.mp hv)).2
      exact hnone.symm
  · intro e he
    obtain ⟨h₁, h₂⟩ := h.edges e he
    exact ⟨List.mem_append_left _ h₁, List.mem_append_left _ h₂⟩

theorem Shows.link (h : Shows s n) (hwf : WellFormed s) (hi : s.getClient a = some i) (hj : s.getClient b = some j)
    (hne : i ≠ j) {c : Client} (hc : s.heap[i]? = some c) (hm : j ∉ c.client_following) (t : Timestamp) :
    Shows (s.link i j t) (n.follow a b) := by
  have hnew : ¬ (a = b ∨ (a, b) ∈ n.edges) := by
    rw [h.mem_edges hwf hi hj hc, not_or]
    refine ⟨?_, hm⟩
    rintro rfl
    exact hne (Option.some.inj (hi.symm.trans hj))
  have ha := hwf.username?_eq_some_iff.mpr hi
  have hb := hwf.username?_eq_some_iff.mpr hj
  have hnames (refs : List Nat) : (s.link i j t).names refs = s.names refs :=
    names_congr fun ref _ => congrFun (username?_link i j t) ref
  rw [Network.follow, if_neg hnew]
  constructor
  · exact (hnames s.client_db).trans h.users
  · intro k d hd
    rw [getElem?_link, Option.map_eq_some_iff] at hd
    obtain ⟨d, hd, rfl⟩ := hd
    have hk := hwf.index_eq_iff hi (hwf.username?_eq_some_iff.mp (username?_eq_some hd))
    rw [hnames, following_linkClient, username_linkClient, successors_concat]
    simp only [hk]
    split_ifs with hda
    · rw [names_concat hb, h.following k d hd]
    · exact h.following k d hd
  · intro k d hd
    rw [getElem?_link, Option.map_eq_some_iff] at hd
    obtain ⟨d, hd, rfl⟩ := hd
    have hk := hwf.index_eq_iff hj (hwf.username?_eq_some_iff.mp (username?_eq_some hd))
    rw [hnames, followers_linkClient k t d hne, username_linkClient, predecessors_concat]
    simp only [hk]
    split_ifs with hdb
    · rw [names_concat ha, h.followers k d hd]
    · exact h.followers k d hd
  · intro e he
    rcases List.mem_append.mp he with he | he
    · exact h.edges e he
    · rw [List.mem_singleton] at he
      rw [he]
      exact ⟨(h.mem_users hwf).mpr ⟨i, hi⟩, (h.mem_users hwf).mpr ⟨j, hj⟩⟩

theorem Shows.unlink (h : Shows s n) (hwf : WellFormed s) (hi : s.getClient a = some i) (hj : s.getClient b = some j)
    (hne : i ≠ j) : Shows (s.unlink i j) (n.unfollow a b) := by
  have hnames (refs : List Nat) : (s.unlink i j).names refs = s.names refs :=
    names_congr fun ref _ => congrFun (username?_unlink i j) ref
  constructor
  · exact (hnames s.client_db).trans h.users
  · intro k d hd
    rw [getElem?_unlink, Option.map_eq_some_iff] at hd
    obtain ⟨d, hd, rfl⟩ := hd
    have hk := hwf.index_eq_iff hi (hwf.username?_eq_some_iff.mp (username?_eq_some hd))
    rw [hnames, following_unlinkClient, username_unlinkClient, Network.unfollow, successors_erase]
    simp only [hk]
    split_ifs with hda
    · rw [hwf.names_erase hj, h.following k d hd]
    · exact h.following k d hd
  · intro k d hd
    rw [getElem?_unlink, Option.map_eq_some_iff] at hd
    obtain ⟨d, hd, rfl⟩ := hd
    have hk := hwf.index_eq_iff hj (hwf.username?_eq_some_iff.mp (username?_eq_some hd))
    rw [hnames, followers_unlinkClient k d hne, username_unlinkClient, Network.unfollow, predecessors_erase]
    simp only [hk]
    split_ifs with hdb
    · rw [hwf.names_erase hi, h.followers k d hd]
    · exact h.followers k d hd
  · exact fun e he => h.edges e (List.mem_of_mem_erase he)

/-! ## Steps -/

theorem Shows.handle (h : Shows s n) (hwf : WellFormed s) {method : Method} {request : Request} {status : SNSStatus}
    (ho : HandleOutcome s tz request method s' status) : Shows s' (n.request method request) := by
  -- nobody follows himself
  have hself {a : Str} {i : Nat} (hi : s.getClient a = some i) : (a, a) ∉ n.edges := by
    obtain ⟨c, hc, -⟩ := hwf.getClient_eq_some.mp hi
    rw [h.mem_edges hwf hi hi hc]
    exact hwf.irrefl i c hc
  cases ho with
  | @loginKnown i hi =>
      have hknown : n.login request.username = n := Network.login_of_mem ((h.mem_users hwf).mpr ⟨i, hi⟩)
      simp only [Network.request, hknown]
      exact h
  | loginNew hnew => exact (h.addClient hwf hnew).congr rfl rfl
  | @followSelf b i hk =>
      have hsame : request.username = b := hwf.getClient_inj hk.requester hk.target
      simp only [Network.request, hk.arguments, Network.follow, if_pos (Or.inl hsame)]
      exact h
  | @followAgain b i j c hk hne hc hm =>
      have hedge := (h.mem_edges hwf hk.requester hk.target hc).mpr hm
      simp only [Network.request, hk.arguments, Network.follow, if_pos (Or.inr hedge)]
      exact h
  | followNew hk hne hc hm htext =>
      simp only [Network.request, hk.arguments]
      exact (h.link hwf hk.requester hk.target hne hc hm request.timestamp).congr rfl rfl
  | @unfollowSelf b i hk =>
      have hsame : request.username = b := hwf.getClient_inj hk.requester hk.target
      have hnone := List.erase_of_not_mem (hself hk.requester)
      rw [hsame] at hnone
      simp only [Network.request, hk.arguments, Network.unfollow, hsame, hnone]
      exact h
  | unfollowNone hk hne hc hm =>
      have hedge := mt (h.mem_edges hwf hk.requester hk.target hc).mp hm
      simp only [Network.request, hk.arguments, Network.unfollow, List.erase_of_not_mem hedge]
      exact h
  | unfollow hk hne hc hm =>
      simp only [Network.request, hk.arguments]
      exact (h.unlink hwf hk.requester hk.target hne).congr rfl rfl
  | post hi hdata => exact h.congr rfl rfl

theorem Shows.step {c c' : Streams.State} {e : Streams.Event} (h : Shows c.server n) (hwf : WellFormed c.server)
    (ho : Streams.Outcome tz c e c') : Shows c'.server (n.event e) := by
  cases ho with
  | account hm ho => exact h.handle hwf ho
  | addPost hi ha hdata => exact h.congr rfl rfl
  | enter => exact h
  | joined hlive hi ha hnone hposts =>
      exact h.of_sameLists rfl (username?_joinOf ha) fun k d => sameLists_joinOf ha
  | posted hlive hi ha hsome hdata => exact h.congr rfl rfl
  | ignored hlive hi ha hsome => exact h
  | leave hlive => exact h

/-! ## Runs -/

theorem Shows.of_fresh (h : Fresh s) : Shows s {} := by
  have hnone (i : Nat) (c : Client) : s.heap[i]? ≠ some c := by
    rw [h.heap]
    nofun
  constructor
  · rw [h.client_db]
    rfl
  · exact fun i c hc => absurd hc (hnone i c)
  · exact fun i c hc => absurd hc (hnone i c)
  · nofun

theorem shows_of_run {c₀ c : Streams.State} {tr : List (Streams.State × Streams.Event)} (h₀ : Fresh c₀.server)
    (hrun : (Streams.machine tz).Run c₀ tr c) : WellFormed c.server ∧ Shows c.server (.ofRun tr) := by
  induction hrun with
  | nil => exact ⟨h₀.wellFormed, .of_fresh h₀⟩
  | snoc _ hstep ih =>
      have ho := Streams.step_outcome ih.1 hstep
      refine ⟨ho.wellFormed ih.1, ?_⟩
      rw [Network.ofRun, List.map_append, List.foldl_append]
      exact ih.2.step ih.1 ho

/-- The names behind pointers to clients. -/
theorem mapM_username {refs : List Nat} (h : Valid s refs) :
    refs.mapM (fun ref => do return (← s.client ref).username) = .ok (s.names refs) := by
  induction refs with
  | nil => rfl
  | cons ref refs ih =>
      obtain ⟨c, href⟩ : ∃ c, s.heap[ref]? = some c := ⟨_, List.getElem?_eq_getElem (h ref List.mem_cons_self)⟩
      have hrefs := ih fun k hk => h k (List.mem_cons_of_mem _ hk)
      have hnames : s.names (ref :: refs) = c.username :: s.names refs :=
        List.filterMap_cons_some (username?_eq_some href)
      rw [List.mapM_cons, client_eq href, hrefs, hnames]
      rfl

theorem Shows.list (h : Shows s n) (hwf : WellFormed s) (request : Request) :
    s.list request =
      if request.username ∈ n.users then .ok (n.list request.username) else .error .nullDereference := by
  rw [SNSServer.list]
  cases hu : s.getClient request.username with
  | none =>
      have hnot : request.username ∉ n.users := by
        rw [h.mem_users hwf, hu]
        simp
      rw [if_neg hnot]
      rfl
  | some i =>
      obtain ⟨d, hd, hname⟩ := hwf.getClient_eq_some.mp hu
      have hdb : Valid s s.client_db := by
        intro k hk
        rw [hwf.db, List.mem_range] at hk
        exact hk
      rw [if_pos ((h.mem_users hwf).mpr ⟨i, hu⟩), deref, ok_bind, client_eq hd, ok_bind]
      simp only [mapM_username hdb, mapM_username (hwf.followers i d hd), mapM_username (hwf.following i d hd), ok_bind,
        h.users, h.followers i d hd, h.following i d hd, hname]
      rfl

/-- After every run `List` returns exactly to users who have logged in. They get all users, their followers and whom
they follow, each in the order of the network. -/
theorem list_network {c₀ c : Streams.State} {tr : List (Streams.State × Streams.Event)} (h₀ : Fresh c₀.server)
    (hrun : (Streams.machine tz).Run c₀ tr c) (request : Request) :
    c.server.list request =
      if request.username ∈ (Network.ofRun tr).users then .ok ((Network.ofRun tr).list request.username)
      else .error .nullDereference := by
  obtain ⟨hwf, hshows⟩ := shows_of_run h₀ hrun
  exact hshows.list hwf request

/-- Two users who follow each other, one of them for the second time. -/
def listEvents : List Streams.Event := accountRequests.map fun e => .request e.1 e.2

theorem list_network_listEvents : ∃ c, listEvents.foldlM (Streams.State.step .utc) {} = .ok c ∧
    c.server.list { username := ['a'] } =
      .ok { all_users := [['a'], ['b']], followers := [['b']], following := [['b']] } ∧
    c.server.list { username := ['c'] } = .error .nullDereference := by
  obtain ⟨c, hc, hlist, hin, hnot⟩ : ∃ c, listEvents.foldlM (Streams.State.step .utc) {} = .ok c ∧
      (Network.ofRun (Machine.history (Streams.State.step .utc) {} listEvents)).list ['a'] =
        { all_users := [['a'], ['b']], followers := [['b']], following := [['b']] } ∧
      ['a'] ∈ (Network.ofRun (Machine.history (Streams.State.step .utc) {} listEvents)).users ∧
      ['c'] ∉ (Network.ofRun (Machine.history (Streams.State.step .utc) {} listEvents)).users :=
    ⟨_, rfl, by decide +kernel, by decide +kernel, by decide +kernel⟩
  have hrun : (Streams.machine .utc).Run {} (Machine.history (Streams.State.step .utc) {} listEvents) c :=
    Machine.run_of_foldlM hc
  refine ⟨c, hc, ?_, ?_⟩
  · rw [list_network ⟨rfl, rfl⟩ hrun, if_pos hin, hlist]
  · rw [list_network ⟨rfl, rfl⟩ hrun, if_neg hnot]

end DistributedSns.Server
