import DistributedSns.Lib.LastWrite
import DistributedSns.Server.Lemmas.Outcomes

/-!
# The social graph

What a server is for: it stores who is a user and who follows whom. Every account request writes at most one
fact of this graph, and a handler which returns has made exactly this write.
-/

namespace DistributedSns.Server

open Lib (update update_of_none update_of_some)
open SNSServer

/-! ## The abstract store -/

inductive Fact where
  | user (u : Str)
  | follows (a b : Str)
  deriving DecidableEq

abbrev Graph := Fact → Bool

/-- The write to the edge from the requester to the target; nobody follows himself. -/
def Request.edgeWrite (request : Request) (v : Bool) : Option (Fact × Bool) :=
  match request.arguments[0]? with
  | some b => if request.username = b then none else some (.follows request.username b, v)
  | none => none

/-- What a request asks for. -/
def write (e : Method × Request) : Option (Fact × Bool) :=
  match e.1 with
  | .LOGIN => some (.user e.2.username, true)
  | .FOLLOW => e.2.edgeWrite true
  | .UNFOLLOW => e.2.edgeWrite false
  | .ADD_POST => none

/-- The users whom a request names are users of the graph. -/
def namesUsers (g : Graph) (e : Method × Request) : Bool :=
  match e.1 with
  | .LOGIN => true
  | .FOLLOW | .UNFOLLOW => g (.user e.2.username) && e.2.arguments[0]?.any fun b => g (.user b)
  | .ADD_POST => g (.user e.2.message.username)

/-- The request asks for a follow which is not in the graph. -/
def addsEdge (g : Graph) (e : Method × Request) : Bool :=
  e.1 = .FOLLOW && (write e).any fun w => !g w.1

/-- What a handler presupposes: it finds the users whom the request names, and the texts it writes can be written. -/
structure Answerable (tz : TimeZone) (g : Graph) (e : Method × Request) : Prop where
  names : namesUsers g e = true
  follow : addsEdge g e = true → ∃ text, timestampToStr tz e.2.timestamp = .ok text
  post : e.1 = .ADD_POST → ∃ data, SNSServer.formatMessageOutput tz e.2.message = .ok data

/-- The requests come one after the other. -/
def AnswerableInTurn (tz : TimeZone) : Graph → List (Method × Request) → Prop
  | _, [] => True
  | g, e :: l => Answerable tz g e ∧ AnswerableInTurn tz (update write g e) l

/-- When the requests come one after the other, each of them finds the users whom it names. -/
def findUsers : Graph → List (Method × Request) → Bool
  | _, [] => true
  | g, e :: l => namesUsers g e && findUsers (update write g e) l

theorem write_from_server (method : Method) (request : Request) (b : Bool) :
    write (method, { request with from_server := b }) = write (method, request) := by
  cases method <;> rfl

/-! ## The graph of a server -/

namespace SNSServer

def hasUser (s : SNSServer) (u : Str) : Bool := (s.getClient u).isSome

/-- Is the second client in the following list of the first one? -/
def isFollowing (s : SNSServer) (client toFollow : Nat) : Bool :=
  match s.heap[client]? with
  | some c => c.client_following.contains toFollow
  | none => false

def follows (s : SNSServer) (a b : Str) : Bool :=
  match s.getClient a, s.getClient b with
  | some i, some j => s.isFollowing i j
  | _, _ => false

def graph (s : SNSServer) : Graph
  | .user u => s.hasUser u
  | .follows a b => s.follows a b

end SNSServer

/-! ## What the changes of the clients do to the graph -/

section

variable {s : SNSServer}

theorem getClient_congr {s' : SNSServer} (hdb : s'.client_db = s.client_db)
    (huser : ∀ i ∈ s.client_db, s'.username? i = s.username? i) (u : Str) : s'.getClient u = s.getClient u := by
  rw [getClient, getClient, hdb]
  apply List.find?_congr
  intro i hi
  rw [huser i hi]

theorem graph_congr {s' : SNSServer} (hheap : s'.heap = s.heap) (hdb : s'.client_db = s.client_db) :
    s'.graph = s.graph := by
  have hclient (u : Str) : s'.getClient u = s.getClient u :=
    getClient_congr hdb (fun i _ => congrFun (username?_congr hheap) i) u
  funext k
  cases k with
  | user u => rw [graph, graph, hasUser, hasUser, hclient]
  | follows a b => simp only [graph, follows, hclient, isFollowing, hheap]

theorem follows_eq_true {a b : Str} : s.follows a b = true ↔ ∃ i j c, s.getClient a = some i ∧
    s.getClient b = some j ∧ s.heap[i]? = some c ∧ j ∈ c.client_following := by
  rw [follows]
  cases hi : s.getClient a with
  | none => simp
  | some i =>
      cases hj : s.getClient b with
      | none => simp
      | some j =>
          simp only [isFollowing]
          cases hc : s.heap[i]? with
          | none => simp [hc]
          | some c => simp [hc]

theorem getClient_link (i j : Nat) (t : Timestamp) (u : Str) :
    (s.link i j t).getClient u = s.getClient u := by
  have hdb : (s.link i j t).client_db = s.client_db := rfl
  exact getClient_congr hdb (fun k _ => congrFun (username?_link i j t) k) u

theorem getClient_unlink (i j : Nat) (u : Str) : (s.unlink i j).getClient u = s.getClient u := by
  have hdb : (s.unlink i j).client_db = s.client_db := rfl
  exact getClient_congr hdb (fun k _ => congrFun (username?_unlink i j) k) u

theorem WellFormed.getClient_addClient (h : WellFormed s) {u : Str} (hnew : s.getClient u = none) (v : Str) :
    (s.addClient u).getClient v = if v = u then some s.heap.length else s.getClient v := by
  have hwf := h.addClient hnew
  split_ifs with hv
  · subst hv
    exact hwf.getClient_eq_some.mpr ⟨_, List.getElem?_concat_length, rfl⟩
  · cases hc : s.getClient v with
    | none =>
        rw [hwf.getClient_eq_none]
        intro i c hi
        rcases getElem?_addClient hi with hi | ⟨-, rfl⟩
        · exact h.getClient_eq_none.mp hc i c hi
        · exact Ne.symm hv
    | some i =>
        obtain ⟨c, hi, hu⟩ := h.getClient_eq_some.mp hc
        apply hwf.getClient_eq_some.mpr
        refine ⟨c, ?_, hu⟩
        rw [SNSServer.addClient, List.getElem?_append_left (lt_of_getElem? hi), hi]

theorem graph_addClient (h : WellFormed s) {u : Str} (hnew : s.getClient u = none) :
    (s.addClient u).graph = Function.update s.graph (.user u) true := by
  have hclient := h.getClient_addClient hnew
  funext k
  cases k with
  | user v =>
      by_cases hv : v = u
      · simp [graph, hasUser, hclient, hv]
      · simp [graph, hasUser, hclient, hv]
  | follows a b =>
      rw [Function.update_of_ne (by simp)]
      have hnot (i : Nat) (c : Client) (hc : s.heap[i]? = some c) : s.heap.length ∉ c.client_following :=
        fun hm => lt_irrefl _ (h.following i c hc _ hm)
      simp only [graph]
      rw [Bool.eq_iff_iff, follows_eq_true, follows_eq_true]
      constructor
      · rintro ⟨i, j, c, hi, hj, hc, hm⟩
        rcases getElem?_addClient hc with hc | ⟨-, rfl⟩
        · rw [hclient] at hi hj
          split_ifs at hi hj
          · cases hi; exact absurd (lt_of_getElem? hc) (lt_irrefl _)
          · cases hi; exact absurd (lt_of_getElem? hc) (lt_irrefl _)
          · cases hj; exact absurd hm (hnot i c hc)
          · exact ⟨i, j, c, hi, hj, hc, hm⟩
        · simp at hm
      · rintro ⟨i, j, c, hi, hj, hc, hm⟩
        refine ⟨i, j, c, ?_, ?_, ?_, hm⟩
        · rw [hclient, if_neg]
          · exact hi
          · rintro rfl
            rw [hnew] at hi
            cases hi
        · rw [hclient, if_neg]
          · exact hj
          · rintro rfl
            rw [hnew] at hj
            cases hj
        · rw [SNSServer.addClient, List.getElem?_append_left (lt_of_getElem? hc), hc]

/-- Two users are the same if and only if their clients are. -/
theorem WellFormed.getClient_inj (h : WellFormed s) {a b : Str} {i : Nat} (ha : s.getClient a = some i)
    (hb : s.getClient b = some i) : a = b := by
  obtain ⟨c, hc, rfl⟩ := h.getClient_eq_some.mp ha
  obtain ⟨d, hd, rfl⟩ := h.getClient_eq_some.mp hb
  rw [hc, Option.some.injEq] at hd
  rw [hd]

variable {i j : Nat} {a b : Str}

theorem graph_link (h : WellFormed s) (hi : s.getClient a = some i) (hj : s.getClient b = some j)
    (t : Timestamp) : (s.link i j t).graph = Function.update s.graph (.follows a b) true := by
  funext k
  cases k with
  | user v => simp [graph, hasUser, getClient_link]
  | follows a' b' =>
      obtain ⟨c, hc, -⟩ := h.getClient_eq_some.mp hi
      by_cases hk : a' = a ∧ b' = b
      · obtain ⟨rfl, rfl⟩ := hk
        rw [Function.update_self, graph, follows_eq_true]
        refine ⟨i, j, linkClient i j t i c, (getClient_link ..).trans hi, (getClient_link ..).trans hj, ?_, ?_⟩
        · rw [getElem?_link, hc, Option.map_some]
        · simp [following_linkClient]
      · rw [Function.update_of_ne (by simpa using hk), graph, graph, Bool.eq_iff_iff, follows_eq_true,
          follows_eq_true]
        simp only [getClient_link, getElem?_link, Option.map_eq_some_iff]
        constructor
        · rintro ⟨i', j', _, hi', hj', ⟨e, he, rfl⟩, hm⟩
          refine ⟨i', j', e, hi', hj', he, ?_⟩
          rw [following_linkClient] at hm
          split_ifs at hm with hii
          · subst hii
            rcases List.mem_append.mp hm with hm | hm
            · exact hm
            · rw [List.mem_singleton.mp hm] at hj'
              exact absurd ⟨h.getClient_inj hi' hi, h.getClient_inj hj' hj⟩ hk
          · exact hm
        · rintro ⟨i', j', e, hi', hj', he, hm⟩
          refine ⟨i', j', _, hi', hj', ⟨e, he, rfl⟩, ?_⟩
          rw [following_linkClient]
          split_ifs
          · exact List.mem_append_left _ hm
          · exact hm

theorem graph_unlink (h : WellFormed s) (hi : s.getClient a = some i) (hj : s.getClient b = some j) :
    (s.unlink i j).graph = Function.update s.graph (.follows a b) false := by
  funext k
  cases k with
  | user v => simp [graph, hasUser, getClient_unlink]
  | follows a' b' =>
      by_cases hk : a' = a ∧ b' = b
      · obtain ⟨rfl, rfl⟩ := hk
        rw [Function.update_self, graph, ← Bool.not_eq_true, follows_eq_true]
        simp only [getClient_unlink, getElem?_unlink, Option.map_eq_some_iff]
        rintro ⟨i', j', _, hi', hj', ⟨e, he, rfl⟩, hm⟩
        rw [hi, Option.some.injEq] at hi'
        rw [hj, Option.some.injEq] at hj'
        subst hi' hj'
        rw [following_unlinkClient, if_pos rfl] at hm
        exact ((h.nodup_following i e he).mem_erase_iff.mp hm).1 rfl
      · rw [Function.update_of_ne (by simpa using hk), graph, graph, Bool.eq_iff_iff, follows_eq_true,
          follows_eq_true]
        simp only [getClient_unlink, getElem?_unlink, Option.map_eq_some_iff]
        constructor
        · rintro ⟨i', j', _, hi', hj', ⟨e, he, rfl⟩, hm⟩
          refine ⟨i', j', e, hi', hj', he, ?_⟩
          rw [following_unlinkClient] at hm
          split_ifs at hm
          · exact List.mem_of_mem_erase hm
          · exact hm
        · rintro ⟨i', j', e, hi', hj', he, hm⟩
          refine ⟨i', j', _, hi', hj', ⟨e, he, rfl⟩, ?_⟩
          rw [following_unlinkClient]
          split_ifs with hii
          · subst hii
            apply (List.mem_erase_of_ne _).mpr hm
            rintro rfl
            exact hk ⟨h.getClient_inj hi' hi, h.getClient_inj hj' hj⟩
          · exact hm

end

/-! ## Users of the graph -/

theorem update_user_of_edge {g : Graph} {e : Method × Request} {v : Bool} (h : write e = e.2.edgeWrite v) (u : Str) :
    update write g e (.user u) = g (.user u) := by
  rw [update, Lib.writeTo, h, Request.edgeWrite]
  cases e.2.arguments[0]? with
  | none => rfl
  | some b => by_cases hb : e.2.username = b <;> simp [hb]

theorem update_user {g : Graph} {e : Method × Request} {u : Str} : update write g e (.user u) = true ↔
    g (.user u) = true ∨ e.1 = .LOGIN ∧ e.2.username = u := by
  obtain ⟨method, request⟩ := e
  cases method with
  | LOGIN => by_cases hu : request.username = u <;> simp [update, Lib.writeTo, write, hu]
  | FOLLOW => simp [update_user_of_edge (e := (.FOLLOW, request)) rfl]
  | UNFOLLOW => simp [update_user_of_edge (e := (.UNFOLLOW, request)) rfl]
  | ADD_POST => simp [Lib.update_of_none write (e := (.ADD_POST, request)) rfl]

/-- A user of the graph was one before the requests or has logged in since. -/
theorem foldl_update_user {g : Graph} {l : List (Method × Request)} {u : Str} :
    l.foldl (update write) g (.user u) = true ↔
      g (.user u) = true ∨ ∃ request, (SNSServer.Method.LOGIN, request) ∈ l ∧ request.username = u := by
  induction l using List.reverseRecOn with
  | nil => simp
  | append_singleton l e ih =>
      rw [List.foldl_concat, update_user, ih, or_assoc]
      apply or_congr_right
      constructor
      · rintro (⟨request, hmem, hu⟩ | ⟨hm, hu⟩)
        · exact ⟨request, by simp [hmem], hu⟩
        · exact ⟨e.2, by simp [← hm], hu⟩
      · rintro ⟨request, hmem, hu⟩
        rcases List.mem_append.mp hmem with hmem | hmem
        · exact .inl ⟨request, hmem, hu⟩
        · rw [List.mem_singleton] at hmem
          subst hmem
          exact .inr ⟨rfl, hu⟩

/-! ## Handlers refine writes -/

section

variable {s s' : SNSServer} {tz : TimeZone} {request : Request} {b : Str} {i j : Nat}

theorem argument_of_getElem? (hb : request.arguments[0]? = some b) : request.argument 0 = .ok b := by
  rw [Request.argument, hb]

theorem Known.username_eq_iff (h : WellFormed s) (hk : Known s request b i j) : request.username = b ↔ i = j := by
  constructor
  · rintro rfl
    exact Option.some.inj (hk.requester.symm.trans hk.target)
  · rintro rfl
    exact h.getClient_inj hk.requester hk.target

theorem edgeWrite_eq (h : WellFormed s) (hk : Known s request b i j) (v : Bool) :
    request.edgeWrite v = if i = j then none else some (.follows request.username b, v) := by
  rw [Request.edgeWrite, hk.arguments]
  simp only [hk.username_eq_iff h]

/-- Writing what a fact is already makes no difference. -/
theorem update_eq_self {f : Graph} {e : Method × Request} {k : Fact} {v : Bool} (hw : write e = some (k, v))
    (hk : f k = v) : update write f e = f := by
  rw [update_of_some write hw, ← hk, Function.update_eq_self]

theorem follows_of_known (hk : Known s request b i j) {c : Client}
    (hc : s.heap[i]? = some c) : s.follows request.username b = c.client_following.contains j := by
  simp only [follows, hk.requester, hk.target, isFollowing, hc]

theorem HandleOutcome.graph {method : Method} {status : SNSStatus} (h : WellFormed s)
    (ho : HandleOutcome s tz request method s' status) :
    s'.graph = update write s.graph (method, request) := by
  cases ho with
  | loginKnown hi =>
      rw [update_eq_self (k := .user request.username) (v := true) rfl]
      simp [SNSServer.graph, hasUser, hi]
  | loginNew hnew =>
      rw [update_of_some write (k := .user request.username) (v := true) rfl, ← graph_addClient h hnew]
      exact graph_congr rfl rfl
  | followSelf hk =>
      rw [update_of_none]
      simp [write, edgeWrite_eq h hk]
  | @followAgain b i j c hk hne hc hm =>
      rw [update_eq_self (k := .follows request.username b) (v := true)]
      · simp [write, edgeWrite_eq h hk, hne]
      · simpa [SNSServer.graph, follows_of_known hk hc] using hm
  | @followNew b text i j c hk hne hc hm htext =>
      rw [update_of_some write (k := .follows request.username b) (v := true),
        ← graph_link h hk.requester hk.target request.timestamp]
      · exact graph_congr rfl rfl
      · simp [write, edgeWrite_eq h hk, hne]
  | unfollowSelf hk =>
      rw [update_of_none]
      simp [write, edgeWrite_eq h hk]
  | @unfollowNone b i j c hk hne hc hm =>
      rw [update_eq_self (k := .follows request.username b) (v := false)]
      · simp [write, edgeWrite_eq h hk, hne]
      · simpa [SNSServer.graph, follows_of_known hk hc] using hm
  | @unfollow b i j c hk hne hc hm =>
      rw [update_of_some write (k := .follows request.username b) (v := false),
        ← graph_unlink h hk.requester hk.target]
      · exact graph_congr rfl rfl
      · simp [write, edgeWrite_eq h hk, hne]
  | post hi hdata =>
      rw [update_of_none write rfl]
      exact graph_congr rfl rfl

/-- A handler which returns has made the write its request asks for. -/
theorem graph_handle (h : WellFormed s) {method : Method} {reply : Reply}
    (hr : s.handle tz method request = .ok (s', reply)) :
    s'.graph = update write s.graph (method, request) :=
  (handle_outcome h hr).graph h

/-! ## When handlers return -/

theorem namesUsers_iff_known {method : Method} (hm : method = .FOLLOW ∨ method = .UNFOLLOW) :
    namesUsers s.graph (method, request) = true ↔ ∃ b i j, Known s request b i j := by
  have hnames : namesUsers s.graph (method, request) =
      (s.hasUser request.username && request.arguments[0]?.any fun b => s.hasUser b) := by
    rcases hm with rfl | rfl <;> rfl
  rw [hnames, Bool.and_eq_true, Option.any_eq_true]
  constructor
  · rintro ⟨hi, b, hb, hj⟩
    obtain ⟨i, hi⟩ := Option.isSome_iff_exists.mp hi
    obtain ⟨j, hj⟩ := Option.isSome_iff_exists.mp hj
    exact ⟨b, i, j, argument_of_getElem? hb, hi, hj⟩
  · rintro ⟨b, i, j, hk⟩
    refine ⟨?_, b, hk.arguments, ?_⟩
    · rw [hasUser, hk.requester]
      rfl
    · rw [hasUser, hk.target]
      rfl

/-- A handler which returns has found the users. -/
theorem namesUsers_of_handle {method : Method} {reply : Reply} (hr : s.handle tz method request = .ok (s', reply)) :
    namesUsers s.graph (method, request) = true := by
  cases method with
  | LOGIN => rfl
  | FOLLOW => exact (namesUsers_iff_known (.inl rfl)).mpr (follow_known hr)
  | UNFOLLOW => exact (namesUsers_iff_known (.inr rfl)).mpr (unfollow_known hr)
  | ADD_POST =>
      obtain ⟨s₁, hs₁, -⟩ := bind_eq_ok.mp hr
      obtain ⟨i, data, w, hi, -⟩ := addPostHelper_eq hs₁
      simp [namesUsers, SNSServer.graph, hasUser, hi]

/-- The texts which a handler may have to write can be written. -/
structure Writable (tz : TimeZone) (e : Method × Request) : Prop where
  follow : e.1 = .FOLLOW → ∃ text, timestampToStr tz e.2.timestamp = .ok text
  post : e.1 = .ADD_POST → ∃ data, formatMessageOutput tz e.2.message = .ok data

theorem addsEdge_of_known (h : WellFormed s) (hk : Known s request b i j) {c : Client} (hc : s.heap[i]? = some c) :
    addsEdge s.graph (.FOLLOW, request) = true ↔ i ≠ j ∧ j ∉ c.client_following := by
  have hgraph : s.graph (.follows request.username b) = c.client_following.contains j := follows_of_known hk hc
  simp only [addsEdge, write, edgeWrite_eq h hk]
  split_ifs with hij
  · simp [hij]
  · simp [hgraph, hij]

/-- A handler returns exactly if what it presupposes holds. -/
theorem WellFormed.handle_iff (h : WellFormed s) {method : Method} :
    (∃ s' reply, s.handle tz method request = .ok (s', reply)) ↔ Answerable tz s.graph (method, request) := by
  constructor
  · rintro ⟨s', reply, hr⟩
    refine ⟨namesUsers_of_handle hr, ?_, ?_⟩
    · intro hadds
      obtain rfl : method = .FOLLOW := by simpa [addsEdge] using (Bool.and_eq_true_iff.mp hadds).1
      obtain ⟨b, i, j, hk⟩ := follow_known hr
      obtain ⟨c, hc, -⟩ := h.getClient_eq_some.mp hk.requester
      obtain ⟨hij, hm⟩ := (addsEdge_of_known h hk hc).mp hadds
      rw [SNSServer.handle, h.follow_eq hk hc, if_neg hij, if_neg hm] at hr
      obtain ⟨text, htext, -⟩ := bind_eq_ok.mp hr
      exact ⟨text, htext⟩
    · rintro rfl
      obtain ⟨s₁, hs₁, -⟩ := bind_eq_ok.mp hr
      obtain ⟨i, data, w, -, hdata, -⟩ := addPostHelper_eq hs₁
      exact ⟨data, hdata⟩
  · intro ha
    cases method with
    | LOGIN => exact ⟨_, _, login_eq h request⟩
    | FOLLOW =>
        obtain ⟨b, i, j, hk⟩ := (namesUsers_iff_known (.inl rfl)).mp ha.names
        obtain ⟨c, hc, -⟩ := h.getClient_eq_some.mp hk.requester
        rw [SNSServer.handle, h.follow_eq hk hc]
        split_ifs with hij hm
        · exact ⟨_, _, rfl⟩
        · exact ⟨_, _, rfl⟩
        · obtain ⟨text, htext⟩ := ha.follow ((addsEdge_of_known h hk hc).mpr ⟨hij, hm⟩)
          rw [htext]
          exact ⟨_, _, rfl⟩
    | UNFOLLOW =>
        obtain ⟨b, i, j, hk⟩ := (namesUsers_iff_known (.inr rfl)).mp ha.names
        obtain ⟨c, hc, -⟩ := h.getClient_eq_some.mp hk.requester
        exact ⟨_, _, h.unfollow_eq hk hc⟩
    | ADD_POST =>
        obtain ⟨i, hi⟩ := Option.isSome_iff_exists.mp ha.names
        obtain ⟨data, hdata⟩ := ha.post rfl
        obtain ⟨s', hs'⟩ := addPostHelper_total h.followers hi hdata true
        refine ⟨s', {}, bind_eq_ok.mpr ⟨s', ?_, rfl⟩⟩
        rw [hi]
        exact hs'

theorem Answerable.of_writable {g : Graph} {e : Method × Request} (hw : Writable tz e) (hn : namesUsers g e = true) :
    Answerable tz g e := by
  refine ⟨hn, fun hadds => hw.follow ?_, hw.post⟩
  simpa [addsEdge] using (Bool.and_eq_true_iff.mp hadds).1

theorem WellFormed.handle_total (h : WellFormed s) {method : Method} (hw : Writable tz (method, request))
    (hn : namesUsers s.graph (method, request) = true) :
    ∃ s' reply, s.handle tz method request = .ok (s', reply) :=
  h.handle_iff.mpr (.of_writable hw hn)

/-! ## Requests in turn -/

theorem findUsers_append (g : Graph) (l l' : List (Method × Request)) :
    findUsers g (l ++ l') = (findUsers g l && findUsers (l.foldl (update write) g) l') := by
  induction l generalizing g with
  | nil => simp [findUsers]
  | cons e l ih => simp [findUsers, ih, Bool.and_assoc]

theorem findUsers_concat (g : Graph) (l : List (Method × Request)) (e : Method × Request) :
    findUsers g (l ++ [e]) = (findUsers g l && namesUsers (l.foldl (update write) g) e) := by
  rw [findUsers_append]
  simp [findUsers]

theorem answerableInTurn_append (g : Graph) (l l' : List (Method × Request)) :
    AnswerableInTurn tz g (l ++ l') ↔ AnswerableInTurn tz g l ∧ AnswerableInTurn tz (l.foldl (update write) g) l' := by
  induction l generalizing g with
  | nil => simp [AnswerableInTurn]
  | cons e l ih => simp [AnswerableInTurn, ih, and_assoc]

theorem answerableInTurn_concat (g : Graph) (l : List (Method × Request)) (e : Method × Request) :
    AnswerableInTurn tz g (l ++ [e]) ↔
      AnswerableInTurn tz g l ∧ Answerable tz (l.foldl (update write) g) e := by
  rw [answerableInTurn_append]
  simp [AnswerableInTurn]

end

end DistributedSns.Server
