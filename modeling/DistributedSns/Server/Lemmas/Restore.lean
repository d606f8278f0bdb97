import DistributedSns.Server.Lemmas.Lines
import DistributedSns.Server.Lemmas.Outcomes

/-!
# What a replay rebuilds

Replaying a server's userinfo file makes a server with the same clients. A handler which changes the clients
appends one line, and replaying this line makes the same change.
-/

namespace DistributedSns.Server

open SNSServer

/-! ## Restored servers -/

/-- The second time is what the text of the first one is read back as. -/
def ReadBack (tz : TimeZone) (t t' : Timestamp) : Prop :=
  timestampToStr tz t >>= strToTimestamp tz = .ok t'

theorem ReadBack.read {tz : TimeZone} {t t' : Timestamp} {text : Str} (h : ReadBack tz t t')
    (htext : timestampToStr tz t = .ok text) : strToTimestamp tz text = .ok t' := by
  rw [ReadBack, htext] at h
  exact h

/-- Client `d` has been rebuilt from the log lines of client `c`. -/
structure SameClient (tz : TimeZone) (c d : Client) : Prop where
  username : d.username = c.username
  connected : d.connected = c.connected
  following : d.client_following = c.client_following
  followers : d.client_followers = c.client_followers
  follow_time : List.Forall₂ (ReadBack tz) c.follow_time d.follow_time

structure Restored (tz : TimeZone) (s r : SNSServer) : Prop where
  client_db : r.client_db = s.client_db
  heap : List.Forall₂ (SameClient tz) s.heap r.heap

section

variable {tz : TimeZone} {s r : SNSServer}

theorem forall₂_getElem? {α β : Type} {R : α → β → Prop} {l : List α} {l' : List β} (h : List.Forall₂ R l l')
    (i : Nat) : Option.Rel R l[i]? l'[i]? := by
  induction h generalizing i with
  | nil => exact .none
  | cons hab _ ih =>
      cases i with
      | zero => exact .some hab
      | succ i => simpa using ih i

theorem forall₂_mapIdx {α β : Type} {R : α → β → Prop} {l : List α} {l' : List β} {f : Nat → α → α}
    {g : Nat → β → β} (h : List.Forall₂ R l l') (hfg : ∀ i a b, R a b → R (f i a) (g i b)) :
    List.Forall₂ R (l.mapIdx f) (l'.mapIdx g) := by
  induction h generalizing f g with
  | nil => exact .nil
  | cons hab _ ih =>
      rw [List.mapIdx_cons, List.mapIdx_cons]
      exact .cons (hfg 0 _ _ hab) (ih fun i => hfg (i + 1))

theorem Restored.getElem? (h : Restored tz s r) {i : Nat} {c : Client} (hc : s.heap[i]? = some c) :
    ∃ d, r.heap[i]? = some d ∧ SameClient tz c d := by
  have hrel := forall₂_getElem? h.heap i
  rw [hc] at hrel
  cases hd : r.heap[i]? with
  | none => rw [hd] at hrel; cases hrel
  | some d =>
      rw [hd] at hrel
      cases hrel with
      | some hcd => exact ⟨d, rfl, hcd⟩

theorem Restored.getElem?_none (h : Restored tz s r) {i : Nat} (hc : s.heap[i]? = none) : r.heap[i]? = none := by
  rwa [List.getElem?_eq_none_iff, ← h.heap.length_eq, ← List.getElem?_eq_none_iff]

theorem Restored.getClient (h : Restored tz s r) (u : Str) : r.getClient u = s.getClient u := by
  have huser (i : Nat) : r.username? i = s.username? i := by
    rw [username?, username?]
    cases hc : s.heap[i]? with
    | none => rw [h.getElem?_none hc]
    | some c =>
        obtain ⟨d, hd, hcd⟩ := h.getElem? hc
        rw [hd, Option.map_some, Option.map_some, hcd.username]
  rw [SNSServer.getClient, SNSServer.getClient, h.client_db]
  simp only [huser]

/-- Files, posts and streams do not matter. -/
theorem Restored.congr {s' r' : SNSServer} (h : Restored tz s r) (hs : s'.heap = s.heap)
    (hsdb : s'.client_db = s.client_db) (hr : r'.heap = r.heap) (hrdb : r'.client_db = r.client_db) :
    Restored tz s' r' := by
  constructor
  · rw [hsdb, hrdb, h.client_db]
  · rw [hs, hr]
    exact h.heap

theorem Restored.addClient (h : Restored tz s r) (u : Str) : Restored tz (s.addClient u) (r.addClient u) := by
  constructor
  · rw [SNSServer.addClient, SNSServer.addClient, h.client_db, h.heap.length_eq]
  · apply List.rel_append h.heap
    apply List.Forall₂.cons _ .nil
    exact {
      username := rfl
      connected := rfl
      following := rfl
      followers := rfl
      follow_time := .nil }

theorem SameClient.link {c d : Client} {t t' : Timestamp} (h : SameClient tz c d) (ht : ReadBack tz t t')
    {i j : Nat} (hne : i ≠ j) (k : Nat) : SameClient tz (linkClient i j t k c) (linkClient i j t' k d) := by
  constructor
  · simp [h.username]
  · simp [h.connected]
  · rw [following_linkClient, following_linkClient, h.following]
  · rw [followers_linkClient _ _ _ hne, followers_linkClient _ _ _ hne, h.followers]
  · rw [follow_time_linkClient, follow_time_linkClient]
    split_ifs
    · exact List.rel_append h.follow_time (.cons ht .nil)
    · exact h.follow_time

theorem SameClient.unlink {c d : Client} (h : SameClient tz c d) {i j : Nat} (hne : i ≠ j) (k : Nat) :
    SameClient tz (unlinkClient i j k c) (unlinkClient i j k d) := by
  constructor
  · simp [h.username]
  · simp [h.connected]
  · rw [following_unlinkClient, following_unlinkClient, h.following]
  · rw [followers_unlinkClient _ _ hne, followers_unlinkClient _ _ hne, h.followers]
  · rw [follow_time_unlinkClient, follow_time_unlinkClient, h.following]
    split_ifs
    · rw [List.eraseIdx_eq_take_drop_succ, List.eraseIdx_eq_take_drop_succ]
      exact List.rel_append (List.forall₂_take _ h.follow_time) (List.forall₂_drop _ h.follow_time)
    · exact h.follow_time

theorem Restored.link (h : Restored tz s r) {t t' : Timestamp} (ht : ReadBack tz t t') {i j : Nat}
    (hne : i ≠ j) : Restored tz (s.link i j t) (r.link i j t') := by
  constructor
  · exact h.client_db
  · exact forall₂_mapIdx h.heap fun k _ _ hcd => hcd.link ht hne k

theorem Restored.unlink (h : Restored tz s r) {i j : Nat} (hne : i ≠ j) :
    Restored tz (s.unlink i j) (r.unlink i j) := by
  constructor
  · exact h.client_db
  · exact forall₂_mapIdx h.heap fun k _ _ hcd => hcd.unlink hne k

end

/-! ## Replaying one line -/

/-- The server after a line has been processed. -/
def saveLine (save : Bool) (s : SNSServer) (line : Str) : SNSServer :=
  if save then s.writeUserinfo (line ++ ['\n']) else s

section

variable {save : Bool} {s : SNSServer} {line : Str}

@[simp] theorem heap_saveLine : (saveLine save s line).heap = s.heap := by
  cases save <;> rfl

@[simp] theorem client_db_saveLine : (saveLine save s line).client_db = s.client_db := by
  cases save <;> rfl

@[simp] theorem all_posts_saveLine : (saveLine save s line).all_posts = s.all_posts := by
  cases save <;> rfl

end

section

variable {r : SNSServer} (tz : TimeZone) (save : Bool)

theorem processLine_user {u : Str} (hu : Word u) (hnew : r.getClient u = none) :
    processLine tz save r (USER ++ [' '] ++ u) =
      .ok (saveLine save (r.addClient u) (USER ++ [' '] ++ u)) := by
  have hlogin : r.loginHelper u = .ok (r.addClient u) := by
    have hc : ({ r with heap := r.heap ++ [{ username := u }] } : SNSServer).client r.heap.length =
        .ok { username := u } := by
      rw [client_eq_ok_iff, List.getElem?_concat_length]
    rw [loginHelper, getClientOrNew, hnew]
    simp only [hc, ok_bind, setClient, SNSServer.addClient, pure, Except.pure]
    simp
  simp only [processLine, split_user hu, arg, List.getElem?_cons_zero, List.getElem?_cons_succ, ok_bind,
    ↓reduceIte, hlogin]
  cases save <;> rfl

variable (h : WellFormed r)
include h

theorem WellFormed.processLine_follow {a b text : Str} {i j : Nat} {t : Timestamp} (ha : Word a) (hb : Word b)
    (htext : Word text) (hi : r.getClient a = some i) (hj : r.getClient b = some j) (hne : i ≠ j)
    (ht : strToTimestamp tz text = .ok t) :
    processLine tz save r (FOLLOW ++ [' '] ++ a ++ [' '] ++ b ++ [' '] ++ text) =
      .ok (saveLine save (r.link i j t) (FOLLOW ++ [' '] ++ a ++ [' '] ++ b ++ [' '] ++ text)) := by
  obtain ⟨c, hc, -⟩ := h.getClient_eq_some.mp hi
  obtain ⟨d, hd, -⟩ := h.getClient_eq_some.mp hj
  have hfollow : r.followHelper tz a b text = .ok (r.link i j t) := by
    simp only [followHelper, hi, hj, ht, deref, ok_bind]
    exact pushFollow_eq hne hc hd t
  have hop : FOLLOW ≠ USER := by decide
  simp only [processLine, split_follow ha hb htext, arg, List.getElem?_cons_zero, List.getElem?_cons_succ,
    ok_bind, ↓reduceIte, hop, hfollow]
  cases save <;> rfl

theorem WellFormed.processLine_unfollow {a b : Str} {i j : Nat} {c : Client} (ha : Word a) (hb : Word b)
    (hi : r.getClient a = some i) (hj : r.getClient b = some j) (hne : i ≠ j) (hc : r.heap[i]? = some c)
    (hm : j ∈ c.client_following) :
    processLine tz save r (UNFOLLOW ++ [' '] ++ a ++ [' '] ++ b) =
      .ok (saveLine save (r.unlink i j) (UNFOLLOW ++ [' '] ++ a ++ [' '] ++ b)) := by
  obtain ⟨d, hd, -⟩ := h.getClient_eq_some.mp hj
  have hindex : r.indexOfFollowing c j = some (c.client_following.idxOf j) := by
    rw [indexOfFollowing, h.indexOf_eq (h.following i c hc) (lt_of_getElem? hd), idxOf?_eq, if_pos hm]
  have hindex2 : r.indexOfFollower d i = some (d.client_followers.idxOf i) := by
    rw [indexOfFollower, h.indexOf_eq (h.followers j d hd) (lt_of_getElem? hc), idxOf?_eq,
      if_pos ((h.mirror i j c d hc hd).mp hm)]
  have hunfollow : r.unfollowHelper a b = .ok (r.unlink i j) := by
    simp only [unfollowHelper, hi, hj, deref, ok_bind, client_eq hc, client_eq hd, hindex, hindex2]
    exact eraseFollow_eq h hne hc hd hm
  have hop : UNFOLLOW ≠ USER := by decide
  have hop2 : UNFOLLOW ≠ FOLLOW := by decide
  simp only [processLine, split_unfollow ha hb, arg, List.getElem?_cons_zero, List.getElem?_cons_succ,
    ok_bind, ↓reduceIte, hop, hop2, hunfollow]
  cases save <;> rfl

end

/-! ## Replaying a whole log -/

/-- The userinfo file of the server is made of lines from which a fresh server is rebuilt as this one. -/
structure Logged (tz : TimeZone) (s : SNSServer) : Prop where
  wellFormed : WellFormed s
  names : ∀ (i : Nat) (c : Client), s.heap[i]? = some c → Word c.username
  replay : ∃ lines : List Str, s.userinfo = unlines lines ∧ (∀ line ∈ lines, '\n' ∉ line) ∧
    ∀ (r₀ : SNSServer) (save : Bool), Fresh r₀ → ∃ r, lines.foldlM (processLine tz save) r₀ = .ok r ∧
      WellFormed r ∧ Restored tz s r ∧ r.all_posts = r₀.all_posts

section

variable {tz : TimeZone} {s s' : SNSServer}

theorem Logged.init (hs : Fresh s) (hinfo : s.userinfo = []) : Logged tz s := by
  constructor
  · exact hs.wellFormed
  · simp [hs.heap]
  · refine ⟨[], hinfo, by simp, fun r₀ save hr₀ => ⟨r₀, rfl, hr₀.wellFormed, ?_, rfl⟩⟩
    constructor
    · rw [hr₀.client_db, hs.client_db]
    · rw [hr₀.heap, hs.heap]
      exact .nil

/-- A change of the clients which appends the line that replays it. -/
theorem Logged.append (h : Logged tz s) (line : Str) (hline : '\n' ∉ line)
    (hinfo : s'.userinfo = s.userinfo ++ (line ++ ['\n'])) (hwf : WellFormed s')
    (hnames : ∀ (i : Nat) (c : Client), s'.heap[i]? = some c → Word c.username)
    (hreplay : ∀ (r : SNSServer) (save : Bool), WellFormed r → Restored tz s r →
      ∃ r', processLine tz save r line = .ok r' ∧ WellFormed r' ∧ Restored tz s' r' ∧
        r'.all_posts = r.all_posts) : Logged tz s' := by
  obtain ⟨lines, hlines, hnl, hall⟩ := h.replay
  constructor
  · exact hwf
  · exact hnames
  · refine ⟨lines ++ [line], ?_, ?_, ?_⟩
    · rw [hinfo, hlines, unlines_concat]
    · intro l hl
      rcases List.mem_append.mp hl with hl | hl
      · exact hnl l hl
      · rw [List.mem_singleton.mp hl]
        exact hline
    · intro r₀ save hr₀
      obtain ⟨r, hr, hrwf, hsr, hposts⟩ := hall r₀ save hr₀
      obtain ⟨r', hr', hrwf', hsr', hposts'⟩ := hreplay r save hrwf hsr
      refine ⟨r', ?_, hrwf', hsr', hposts'.trans hposts⟩
      rw [List.foldlM_append, hr, ok_bind, List.foldlM_cons, hr', ok_bind, List.foldlM_nil]
      rfl

/-- A change which a restored server does not show. -/
theorem Logged.of_restored (h : Logged tz s) (hwf : WellFormed s')
    (hnames : ∀ (i : Nat) (c : Client), s'.heap[i]? = some c → Word c.username) (hinfo : s'.userinfo = s.userinfo)
    (hrestored : ∀ r, Restored tz s r → Restored tz s' r) : Logged tz s' := by
  obtain ⟨lines, hlines, hnl, hall⟩ := h.replay
  refine ⟨hwf, hnames, lines, hinfo.trans hlines, hnl, fun r₀ save hr₀ => ?_⟩
  obtain ⟨r, hr, hrwf, hsr, hposts⟩ := hall r₀ save hr₀
  exact ⟨r, hr, hrwf, hrestored r hsr, hposts⟩

theorem Logged.congr (h : Logged tz s) (hheap : s'.heap = s.heap) (hdb : s'.client_db = s.client_db)
    (hinfo : s'.userinfo = s.userinfo) : Logged tz s' := by
  apply h.of_restored (h.wellFormed.congr hheap hdb) _ hinfo
  · intro r hsr
    exact hsr.congr hheap hdb rfl rfl
  · rw [hheap]
    exact h.names

theorem Logged.word (h : Logged tz s) {u : Str} {i : Nat} (hu : s.getClient u = some i) : Word u := by
  obtain ⟨c, hc, rfl⟩ := h.wellFormed.getClient_eq_some.mp hu
  exact h.names i c hc

/-- What the format of the file presupposes of a request: a new user's name is a word, and the text of the time
of a follow can be read. -/
structure Loggable (tz : TimeZone) (method : Method) (request : Request) : Prop where
  name : method = .LOGIN → Word request.username
  timestamp : method = .FOLLOW → ∃ t', ReadBack tz request.timestamp t'

section

variable {request : Request}

theorem Logged.login (h : Logged tz s) (hname : Word request.username)
    (hnew : s.getClient request.username = none) :
    Logged tz ((s.addClient request.username).writeUserinfo (userLine request.username)) := by
  have hwf := h.wellFormed.addClient hnew
  apply h.append (USER ++ [' '] ++ request.username)
  · exact newline_user hname
  · rfl
  · exact hwf.congr rfl rfl
  · exact forall_username_addClient h.names hname
  · intro r save hr hsr
    have hrnew : r.getClient request.username = none := (hsr.getClient _).trans hnew
    refine ⟨_, processLine_user tz save hname hrnew, ?_, ?_, by simp [SNSServer.addClient]⟩
    · exact (hr.addClient hrnew).congr (by simp) (by simp)
    · exact (hsr.addClient _).congr rfl rfl (by simp) (by simp)

theorem Logged.follow (h : Logged tz s) {b text : Str} {i j : Nat} {c : Client} (hk : Known s request b i j)
    (hne : i ≠ j) (hc : s.heap[i]? = some c) (hm : j ∉ c.client_following)
    (htext : timestampToStr tz request.timestamp = .ok text) (ht : ∃ t', ReadBack tz request.timestamp t') :
    Logged tz ((s.link i j request.timestamp).writeUserinfo (followLine request.username b text)) := by
  obtain ⟨d, hd, -⟩ := h.wellFormed.getClient_eq_some.mp hk.target
  have hwf := h.wellFormed.link (lt_of_getElem? hc) (lt_of_getElem? hd) hne hc hm request.timestamp
  have hwa := h.word hk.requester
  have hwb := h.word hk.target
  have hwt := Word.timestampToStr htext
  obtain ⟨t', ht'⟩ := ht
  have hread := ht'.read htext
  apply h.append (FOLLOW ++ [' '] ++ request.username ++ [' '] ++ b ++ [' '] ++ text)
  · exact newline_follow hwa hwb hwt
  · rfl
  · exact hwf.congr rfl rfl
  · exact forall_username (username?_link i j request.timestamp) h.names
  · intro r save hr hsr
    have hi := (hsr.getClient _).trans hk.requester
    have hj := (hsr.getClient _).trans hk.target
    obtain ⟨c', hc', hcc'⟩ := hsr.getElem? hc
    obtain ⟨d', hd', -⟩ := hsr.getElem? hd
    refine ⟨_, hr.processLine_follow tz save hwa hwb hwt hi hj hne hread, ?_, ?_, by simp [SNSServer.link]⟩
    · have hnot : j ∉ c'.client_following := hcc'.following ▸ hm
      exact (hr.link (lt_of_getElem? hc') (lt_of_getElem? hd') hne hc' hnot t').congr (by simp) (by simp)
    · exact (hsr.link ht' hne).congr rfl rfl (by simp) (by simp)

theorem Logged.unfollow (h : Logged tz s) {b : Str} {i j : Nat} {c : Client} (hk : Known s request b i j)
    (hne : i ≠ j) (hc : s.heap[i]? = some c) (hm : j ∈ c.client_following) :
    Logged tz ((s.unlink i j).writeUserinfo (unfollowLine request.username b)) := by
  have hwf := h.wellFormed.unlink (i := i) hne
  have hwa := h.word hk.requester
  have hwb := h.word hk.target
  apply h.append (UNFOLLOW ++ [' '] ++ request.username ++ [' '] ++ b)
  · exact newline_unfollow hwa hwb
  · rfl
  · exact hwf.congr rfl rfl
  · exact forall_username (username?_unlink i j) h.names
  · intro r save hr hsr
    have hi := (hsr.getClient _).trans hk.requester
    have hj := (hsr.getClient _).trans hk.target
    obtain ⟨c', hc', hcc'⟩ := hsr.getElem? hc
    have hm' : j ∈ c'.client_following := by rwa [hcc'.following]
    refine ⟨_, hr.processLine_unfollow tz save hwa hwb hi hj hne hc' hm', ?_, ?_, by simp [SNSServer.unlink]⟩
    · exact (hr.unlink hne).congr (by simp) (by simp)
    · exact (hsr.unlink hne).congr rfl rfl (by simp) (by simp)

theorem Logged.outcome (h : Logged tz s) {method : Method} {status : SNSStatus}
    (hl : Loggable tz method request) (ho : HandleOutcome s tz request method s' status) : Logged tz s' := by
  cases ho with
  | loginKnown hi => exact h
  | loginNew hnew => exact h.login (hl.name rfl) hnew
  | followSelf hk => exact h
  | followAgain hk hne hc hm => exact h
  | followNew hk hne hc hm htext => exact h.follow hk hne hc hm htext (hl.timestamp rfl)
  | unfollowSelf hk => exact h
  | unfollowNone hk hne hc hm => exact h
  | unfollow hk hne hc hm => exact h.unfollow hk hne hc hm
  | post hi hdata => exact h.congr rfl rfl rfl

end

/-- A fresh server rebuilds the server from its file. -/
theorem Logged.processUserInfoFromFile (h : Logged tz s) {r₀ : SNSServer} (hr₀ : Fresh r₀) (save : Bool) :
    ∃ r, r₀.processUserInfoFromFile tz s.userinfo save = .ok r ∧ WellFormed r ∧ Restored tz s r ∧
      r.all_posts = r₀.all_posts := by
  obtain ⟨lines, hlines, hnl, hall⟩ := h.replay
  rw [SNSServer.processUserInfoFromFile, hlines, getlines_unlines hnl]
  exact hall r₀ save hr₀

/-- Reading the file line by line gives its text. -/
theorem Logged.readLines (h : Logged tz s) : readLines s.userinfo = s.userinfo := by
  obtain ⟨lines, hlines, hnl, -⟩ := h.replay
  rw [Server.readLines, hlines, getlines_unlines hnl]
  rfl

end

end DistributedSns.Server
