import DistributedSns.FSWrapper.Lemmas.Local
import DistributedSns.Server.Lemmas.Files
import DistributedSns.Server.Lemmas.Restore

/-!
# A server rebuilt from both files

`initializeData` with the reply to `GetLog`: the userinfo file restores the clients, and after that every paragraph of
the posts file restores a post.
-/

namespace DistributedSns.Server

open FSWrapper (FSLocal pieces pieces_nil splitString splitString_eq substr)
open SNSServer

/-! ## Reading the posts file -/

theorem readLines_concat (s : Str) : readLines (s ++ ['\n']) = s ++ ['\n'] := by
  have hread := readLoop_eq_readLines List.not_mem_nil (s ++ ['\n'])
  have hlast := FSLocal.lastNewline_append s []
  rw [FSLocal.readLoop_eq List.not_mem_nil, List.nil_append, hlast] at hread
  exact hread.symm.trans (List.append_nil _)

theorem readLines_paragraphs (ps : List (List Str)) : readLines (paragraphs ps) = paragraphs ps := by
  rcases List.eq_nil_or_concat ps with hnil | ⟨ps', p, hp⟩
  · subst hnil
    rfl
  · rw [hp, List.concat_eq_append, paragraphs_concat, ← List.append_assoc, readLines_concat]

/-- Reading the posts file line by line gives its text. -/
theorem Filed.readLines_posts {tz : TimeZone} {s : SNSServer} (h : Filed tz s) : readLines s.posts = s.posts := by
  obtain ⟨ps, hps, -⟩ := h.posts
  rw [hps, readLines_paragraphs]

/-! ## Restored posts -/

/-- The time has a text, the text is read back, and what is read has a text again. -/
def Readable (tz : TimeZone) (t : Timestamp) : Prop :=
  ∃ t', ReadBack tz t t' ∧ ∃ text, timestampToStr tz t' = .ok text

/-- The second post has been rebuilt from the paragraph of the first one. -/
structure SamePost (tz : TimeZone) (p q : Post) : Prop where
  username : q.username = p.username
  data : q.data = p.data
  timestamp : ReadBack tz p.timestamp q.timestamp

section

variable {tz : TimeZone} {save : Bool} {s r : SNSServer}

/-- `processPost` of a token which has been split into its lines. -/
def processParts (tz : TimeZone) (save : Bool) (s : SNSServer) (postParts : List Str) : Except Fault SNSServer := do
  if postParts.length > 0 then
    let timestamp ← strToTimestamp tz (← substr (← arg postParts 0) 2)
    let username ← substr (← arg postParts 1) 2
    let client := s.getClient username
    let content ← substr (← arg postParts 2) 2
    s.addPostHelper tz { timestamp, username, msg := content } client save
  else return s

theorem processPost_eq (token : Str) : processPost tz save s token = processParts tz save s (pieces ['\n'] token) := by
  rw [processPost, splitString_eq _ (by simp), ok_bind]
  rfl

/-- The tokens of the file are its paragraphs. -/
theorem updatePostsFromFile_paragraphs {ps : List (List Str)} (h : ∀ p ∈ ps, Paragraph p) :
    r.updatePostsFromFile tz (paragraphs ps) save = ps.foldlM (processParts tz save) r := by
  have htokens : r.updatePostsFromFile tz (paragraphs ps) save =
      ((pieces ['\n', '\n'] (paragraphs ps)).map (pieces ['\n'])).foldlM (processParts tz save) r := by
    rw [updatePostsFromFile, splitString_eq _ (by simp), ok_bind, List.foldlM_map]
    congr 1
    funext s token
    exact processPost_eq token
  rw [htokens]
  cases ps with
  | nil => rw [paragraphs, List.flatMap_nil, pieces_nil, List.map_nil]
  | cons p ps =>
      rw [pieces_paragraphs h, List.foldlM_append]
      cases (p :: ps).foldlM (processParts tz save) r <;> rfl

/-- One paragraph is read as one post, and written as the paragraph of this post. -/
theorem processParts_post (hf : FollowersValid r) {post : Post} {p : List Str} (hp : PostEntry tz post p)
    (ht : Readable tz post.timestamp) (hu : r.hasUser post.username = true) (save : Bool) :
    ∃ r' q p', processParts tz save r p = .ok r' ∧ r'.heap = r.heap ∧ r'.client_db = r.client_db ∧
      r'.all_posts = r.all_posts ++ [q] ∧ SamePost tz post q ∧ PostEntry tz q p' ∧
      r'.posts = if save then r.posts ++ (unlines p' ++ ['\n']) else r.posts := by
  obtain ⟨hname, hcontent⟩ := hp.newline
  obtain ⟨time, htime, rfl⟩ := hp.lines
  obtain ⟨t', hback, text, htext⟩ := ht
  obtain ⟨i, hi⟩ := hasUser_iff.mp hu
  obtain ⟨data, hdata⟩ : ∃ data, formatMessageOutput tz
      { username := post.username, msg := post.data, timestamp := t' } = .ok data := by
    rw [formatMessageOutput, htext]
    exact ⟨_, rfl⟩
  obtain ⟨r', hr'⟩ := addPostHelper_total hf hi hdata save
  have hparts : processParts tz save r (postParagraph time post) = .ok r' := by
    rw [← hr', ← hi]
    simp only [processParts, postParagraph, arg, substr, List.length_cons, List.getElem?_cons_zero,
      List.getElem?_cons_succ, ok_bind, List.cons_append, List.nil_append, List.drop_succ_cons, List.drop_zero]
    simp [hback.read htime]
  obtain ⟨j, data', w, -, hdata', rfl⟩ := addPostHelper_eq hr'
  obtain ⟨p', rfl, hentry⟩ := formatMessageOutput_entry hdata' hname hcontent
  exact ⟨_, _, p', hparts, rfl, rfl, rfl, ⟨rfl, rfl, hback⟩, hentry, rfl⟩

theorem FollowersValid.congr (hf : FollowersValid s) (hheap : r.heap = s.heap) : FollowersValid r := by
  simp only [FollowersValid, Valid, hheap]
  exact hf

theorem processParts_posts (hf : FollowersValid r) {posts : List Post} {ps : List (List Str)}
    (hps : List.Forall₂ (PostEntry tz) posts ps) (ht : ∀ post ∈ posts, Readable tz post.timestamp)
    (hu : ∀ post ∈ posts, r.hasUser post.username = true) (save : Bool) :
    ∃ r' qs ps', ps.foldlM (processParts tz save) r = .ok r' ∧ r'.heap = r.heap ∧ r'.client_db = r.client_db ∧
      r'.all_posts = r.all_posts ++ qs ∧ List.Forall₂ (SamePost tz) posts qs ∧
      List.Forall₂ (PostEntry tz) qs ps' ∧ r'.posts = if save then r.posts ++ paragraphs ps' else r.posts := by
  induction hps generalizing r with
  | nil => exact ⟨r, [], [], rfl, rfl, rfl, by simp, .nil, .nil, by simp [paragraphs]⟩
  | @cons post p posts ps hp _ ih =>
      obtain ⟨r₁, q, p', hr₁, hheap, hdb, hposts, hq, hentry, hfile⟩ :=
        processParts_post hf hp (ht post List.mem_cons_self) (hu post List.mem_cons_self) save
      have husers (u : Str) : r₁.hasUser u = r.hasUser u := congrFun (graph_congr hheap hdb) (.user u)
      obtain ⟨r', qs, ps', hr', hheap', hdb', hposts', hqs, hentries, hfile'⟩ := ih (hf.congr hheap)
        (fun post hpost => ht post (List.mem_cons_of_mem _ hpost))
        (fun post hpost => (husers _).trans (hu post (List.mem_cons_of_mem _ hpost)))
      refine ⟨r', q :: qs, p' :: ps', ?_, hheap'.trans hheap, hdb'.trans hdb, ?_, .cons hq hqs,
        .cons hentry hentries, ?_⟩
      · rw [List.foldlM_cons, hr₁, ok_bind, hr']
      · rw [hposts', hposts]
        simp
      · rw [hfile', hfile]
        cases save <;> simp [paragraphs]

end

/-! ## Restored servers -/

section

variable {tz : TimeZone} {s s' r : SNSServer}

theorem Restored.graph (h : Restored tz s r) : r.graph = s.graph := by
  have hfollowing (i j : Nat) : r.isFollowing i j = s.isFollowing i j := by
    rw [isFollowing, isFollowing]
    cases hc : s.heap[i]? with
    | none => rw [h.getElem?_none hc]
    | some c =>
        obtain ⟨d, hd, hcd⟩ := h.getElem? hc
        rw [hd]
        simp only [hcd.following]
  funext k
  cases k with
  | user u => rw [SNSServer.graph, SNSServer.graph, hasUser, hasUser, h.getClient]
  | follows a b => simp only [SNSServer.graph, SNSServer.follows, h.getClient, hfollowing]

theorem forall₂_set {α β : Type} {R : α → β → Prop} {l : List α} {l' : List β} (h : List.Forall₂ R l l') {i : Nat}
    {a : α} (ha : ∀ b, l'[i]? = some b → R a b) : List.Forall₂ R (l.set i a) l' := by
  induction h generalizing i with
  | nil => exact .nil
  | cons hab hrest ih =>
      cases i with
      | zero => exact .cons (ha _ rfl) hrest
      | succ i => exact .cons hab (ih ha)

/-- The log does not tell who has joined the timeline. -/
theorem Logged.join (h : Logged tz s) {stream : StreamId} {i : Nat} {c : Client} {posts : List Post}
    (hc : s.heap[i]? = some c) : Logged tz (s.joinOf stream i c posts) := by
  apply h.of_restored (h.wellFormed.joinOf hc)
  · exact forall_username (username?_joinOf hc) h.names
  · rfl
  · intro r hsr
    refine ⟨hsr.client_db, forall₂_set hsr.heap ?_⟩
    intro d hd
    obtain ⟨d', hd', hcd⟩ := hsr.getElem? hc
    rw [hd, Option.some.injEq] at hd'
    subst hd'
    exact ⟨hcd.username, hcd.connected, hcd.following, hcd.followers, hcd.follow_time⟩

end

/-! ## Servers whose files hold their state -/

/-- The files have the clients and the posts, and the times of the posts can be read in them. -/
structure Stored (tz : TimeZone) (s : SNSServer) : Prop where
  logged : Logged tz s
  filed : Filed tz s
  readable : ∀ post ∈ s.all_posts, Readable tz post.timestamp

section

variable {tz : TimeZone} {s s' : SNSServer}

theorem Stored.empty (hs : Fresh s) (hinfo : s.userinfo = []) (hposts : s.posts = []) (hall : s.all_posts = []) :
    Stored tz s := ⟨.init hs hinfo, .empty hs hinfo hposts hall, by simp [hall]⟩

theorem Stored.wellFormed (h : Stored tz s) : WellFormed s := h.logged.wellFormed

/-- What the formats of the files presuppose of a request: a new user's name is a word, the content of a post has no
newline, and times can be read back. -/
structure Storable (tz : TimeZone) (method : Method) (request : Request) : Prop where
  name : method = .LOGIN → Word request.username
  follow : method = .FOLLOW → ∃ t', ReadBack tz request.timestamp t'
  content : method = .ADD_POST → '\n' ∉ request.message.msg
  post : method = .ADD_POST → Readable tz request.message.timestamp

variable {request : Request} {method : Method} {status : SNSStatus}

theorem Storable.writable (h : Storable tz method request) : Writable tz (method, request) := by
  constructor
  · intro hm
    obtain ⟨t', ht'⟩ := h.follow hm
    obtain ⟨text, htext, -⟩ := bind_eq_ok.mp ht'
    exact ⟨text, htext⟩
  · intro hm
    obtain ⟨t', ht', -⟩ := h.post hm
    obtain ⟨text, htext, -⟩ := bind_eq_ok.mp ht'
    rw [formatMessageOutput, htext]
    exact ⟨_, rfl⟩

theorem Stored.account (h : Stored tz s) (hs : Storable tz method request) (hm : method ≠ .ADD_POST)
    (ho : HandleOutcome s tz request method s' status) : Stored tz s' := by
  refine ⟨h.logged.outcome ⟨hs.name, hs.follow⟩ ho, h.filed.account hs.name hm ho, ?_⟩
  rw [(ho.quiet hm).2]
  exact h.readable

theorem Stored.post (h : Stored tz s) {message : Message} (hs : Storable tz .ADD_POST { message }) {i : Nat}
    {a : Client} {data : Str} (hi : s.getClient message.username = some i)
    (hdata : formatMessageOutput tz message = .ok data) : Stored tz (s.postOf message a data) := by
  refine ⟨h.logged.congr rfl rfl rfl, h.filed.post hi (hs.content rfl) hdata, ?_⟩
  intro post hpost
  rcases List.mem_append.mp hpost with hold | hnew
  · exact h.readable post hold
  · rw [List.mem_singleton.mp hnew]
    exact hs.post rfl

theorem Stored.join (h : Stored tz s) {stream : StreamId} {i : Nat} {c : Client} {posts : List Post}
    (hc : s.heap[i]? = some c) : Stored tz (s.joinOf stream i c posts) :=
  ⟨h.logged.join hc, h.filed.join hc, h.readable⟩

/-- A fresh server rebuilds the server from its reply to `GetLog`. -/
theorem Stored.initializeData (h : Stored tz s) {r₀ : SNSServer} (hr₀ : Fresh r₀) (hposts₀ : r₀.all_posts = []) :
    ∃ r, r₀.initializeData tz s.getLog.1 s.getLog.2 = .ok r ∧ WellFormed r ∧ r.graph = s.graph ∧
      List.Forall₂ (SamePost tz) s.all_posts r.all_posts := by
  have hfresh : Fresh ({ r₀ with userinfo := [], posts := [] } : SNSServer) := ⟨hr₀.heap, hr₀.client_db⟩
  obtain ⟨r₁, hr₁, hwf, hsr, hposts⟩ := h.logged.processUserInfoFromFile hfresh true
  obtain ⟨ps, hps, hentries⟩ := h.filed.posts
  have husers (u : Str) : r₁.hasUser u = s.hasUser u := congrFun hsr.graph (.user u)
  obtain ⟨r, qs, -, hr, hheap, hdb, hall, hqs, -⟩ := processParts_posts hwf.followers hentries h.readable
    (fun post hpost => (husers _).trans (h.filed.authors post hpost)) true
  have hparagraphs := paragraphs_of_entries hentries
  refine ⟨r, ?_, hwf.congr hheap hdb, (graph_congr hheap hdb).trans hsr.graph, ?_⟩
  · rw [SNSServer.initializeData, getLog, h.logged.readLines, h.filed.readLines_posts, hr₁, ok_bind, hps,
      updatePostsFromFile_paragraphs hparagraphs, hr]
  · rw [hall, hposts]
    simpa [hposts₀] using hqs

end

end DistributedSns.Server
