import DistributedSns.Server.Lemmas.Posts
import DistributedSns.Server.Lemmas.Streams

/-!
# What the two files say

As long as names are words and contents hold no newline, the user lines of the userinfo file introduce the users
of the server, and the posts file has a paragraph for each of its posts.
-/

namespace DistributedSns.Server

open FSWrapper (pieces pieces_nil splitString splitString_eq substr)
open SNSServer

/-! ## Users and authors in a text -/

def Introduces (line u : Str) : Prop := ∃ rest, split line ' ' = USER :: u :: rest

/-- The text has a user line for the user. -/
def Introduced (userinfo u : Str) : Prop := ∃ line ∈ getlines '\n' userinfo, Introduces line u

/-- The author whom `updatePostsFromFile` reads in a token. -/
def tokenAuthor (token : Str) : Except Fault Str := do
  let postParts ← splitString token ['\n']
  substr (← arg postParts 1) 2

/-- The text has a post of the author. -/
def AuthorIn (posts u : Str) : Prop :=
  ∃ tokens, splitString posts ['\n', '\n'] = .ok tokens ∧ ∃ token ∈ tokens, tokenAuthor token = .ok u

theorem introduces_userLine {u : Str} (hu : Word u) {v : Str} : Introduces (USER ++ [' '] ++ u) v ↔ v = u := by
  rw [Introduces, split_user hu]
  constructor
  · rintro ⟨rest, h⟩
    simp only [List.cons.injEq] at h
    exact h.2.1.symm
  · rintro rfl
    exact ⟨[], rfl⟩

theorem not_introduces_follow {a b text : Str} (ha : Word a) (hb : Word b) (ht : Word text) (u : Str) :
    ¬ Introduces (FOLLOW ++ [' '] ++ a ++ [' '] ++ b ++ [' '] ++ text) u := by
  rintro ⟨rest, h⟩
  rw [split_follow ha hb ht] at h
  exact absurd (List.cons.inj h).1 (by decide)

theorem not_introduces_unfollow {a b : Str} (ha : Word a) (hb : Word b) (u : Str) :
    ¬ Introduces (UNFOLLOW ++ [' '] ++ a ++ [' '] ++ b) u := by
  rintro ⟨rest, h⟩
  rw [split_unfollow ha hb] at h
  exact absurd (List.cons.inj h).1 (by decide)

/-! ## Posts as paragraphs -/

def postParagraph (time : Str) (post : Post) : List Str :=
  [['T', ' '] ++ time, ['U', ' '] ++ post.username, ['W', ' '] ++ post.data]

structure PostEntry (tz : TimeZone) (post : Post) (p : List Str) : Prop where
  paragraph : Paragraph p
  lines : ∃ time, timestampToStr tz post.timestamp = .ok time ∧ p = postParagraph time post

section

variable {tz : TimeZone}

theorem formatMessageOutput_entry {message : Message} {data : Str} (hdata : formatMessageOutput tz message = .ok data)
    (hname : '\n' ∉ message.username) (hmsg : '\n' ∉ message.msg) :
    ∃ p, data = unlines p ++ ['\n'] ∧ PostEntry tz (.ofMessage message) p := by
  obtain ⟨time, htime, hdata⟩ := bind_eq_ok.mp hdata
  cases hdata
  have hword := Word.timestampToStr htime
  refine ⟨postParagraph time (.ofMessage message), ?_, ?_, time, htime, rfl⟩
  · simp [postParagraph, unlines, Post.ofMessage]
  · constructor
    · simp [postParagraph]
    · simp [postParagraph, Post.ofMessage, hword.newline, hname, hmsg]

theorem forall₂_exists {α β : Type} {R : α → β → Prop} {l : List α} {l' : List β} (h : List.Forall₂ R l l') :
    (∀ a ∈ l, ∃ b ∈ l', R a b) ∧ ∀ b ∈ l', ∃ a ∈ l, R a b := by
  induction h with
  | nil => simp
  | cons hab _ ih =>
      constructor
      · intro a ha
        rcases List.mem_cons.mp ha with rfl | ha
        · exact ⟨_, List.mem_cons_self, hab⟩
        · obtain ⟨b, hb, hab⟩ := ih.1 a ha
          exact ⟨b, List.mem_cons_of_mem _ hb, hab⟩
      · intro b hb
        rcases List.mem_cons.mp hb with rfl | hb
        · exact ⟨_, List.mem_cons_self, hab⟩
        · obtain ⟨a, ha, hab⟩ := ih.2 b hb
          exact ⟨a, List.mem_cons_of_mem _ ha, hab⟩

/-- The author is read from the second line. -/
def partsAuthor (postParts : List Str) : Except Fault Str := do substr (← arg postParts 1) 2

theorem authorIn_iff {text u : Str} : AuthorIn text u ↔
    ∃ parts ∈ (pieces ['\n', '\n'] text).map (pieces ['\n']), partsAuthor parts = .ok u := by
  have htoken (token : Str) : tokenAuthor token = partsAuthor (pieces ['\n'] token) := by
    rw [tokenAuthor, splitString_eq _ (by simp), ok_bind]
    rfl
  rw [AuthorIn, splitString_eq _ (by simp)]
  constructor
  · rintro ⟨tokens, htokens, token, hmem, hauthor⟩
    cases htokens
    exact ⟨_, List.mem_map_of_mem hmem, by rwa [← htoken]⟩
  · rintro ⟨parts, hparts, hauthor⟩
    obtain ⟨token, hmem, rfl⟩ := List.mem_map.mp hparts
    exact ⟨_, rfl, token, hmem, by rwa [htoken]⟩

theorem PostEntry.author {post : Post} {p : List Str} (h : PostEntry tz post p) :
    partsAuthor p = .ok post.username := by
  obtain ⟨time, -, rfl⟩ := h.lines
  rfl

theorem PostEntry.newline {post : Post} {p : List Str} (h : PostEntry tz post p) :
    '\n' ∉ post.username ∧ '\n' ∉ post.data := by
  obtain ⟨time, -, rfl⟩ := h.lines
  have hlines := h.paragraph.lines
  simp only [postParagraph, List.forall_mem_cons] at hlines
  obtain ⟨-, ⟨-, hname⟩, ⟨-, hdata⟩, -⟩ := hlines
  constructor
  · exact fun hm => hname (List.mem_append_right _ hm)
  · exact fun hm => hdata (List.mem_append_right _ hm)

theorem paragraphs_of_entries {posts : List Post} {ps : List (List Str)}
    (h : List.Forall₂ (PostEntry tz) posts ps) : ∀ p ∈ ps, Paragraph p := by
  intro p hp
  obtain ⟨post, -, hentry⟩ := (forall₂_exists h).2 p hp
  exact hentry.paragraph

theorem authorIn_paragraphs {posts : List Post} {ps : List (List Str)} (h : List.Forall₂ (PostEntry tz) posts ps)
    (u : Str) : AuthorIn (paragraphs ps) u ↔ ∃ post ∈ posts, post.username = u := by
  obtain ⟨hleft, hright⟩ := forall₂_exists h
  have hps := paragraphs_of_entries h
  have hparts : (∃ parts ∈ (pieces ['\n', '\n'] (paragraphs ps)).map (pieces ['\n']), partsAuthor parts = .ok u) ↔
      ∃ p ∈ ps, partsAuthor p = .ok u := by
    cases ps with
    | nil => simp [paragraphs]
    | cons p ps =>
        rw [pieces_paragraphs hps]
        constructor
        · rintro ⟨parts, hparts, hu⟩
          rcases List.mem_append.mp hparts with hold | hlast
          · exact ⟨parts, hold, hu⟩
          · rw [List.mem_singleton.mp hlast] at hu
            cases hu
        · rintro ⟨parts, hparts, hu⟩
          exact ⟨parts, List.mem_append_left _ hparts, hu⟩
  rw [authorIn_iff, hparts]
  constructor
  · rintro ⟨p, hp, hu⟩
    obtain ⟨post, hpost, hentry⟩ := hright p hp
    rw [hentry.author, Except.ok.injEq] at hu
    exact ⟨post, hpost, hu⟩
  · rintro ⟨post, hpost, rfl⟩
    obtain ⟨p, hp, hentry⟩ := hleft post hpost
    exact ⟨p, hp, hentry.author⟩

end

/-! ## The files of a server -/

/-- The users of the userinfo file are those of the server, and the posts file has the server's posts. -/
structure Filed (tz : TimeZone) (s : SNSServer) : Prop where
  wellFormed : WellFormed s
  names : ∀ (i : Nat) (c : Client), s.heap[i]? = some c → Word c.username
  userinfo : ∃ lines : List Str, s.userinfo = unlines lines ∧ (∀ line ∈ lines, '\n' ∉ line) ∧
    ∀ u, (∃ line ∈ lines, Introduces line u) ↔ s.hasUser u = true
  posts : ∃ ps, s.posts = paragraphs ps ∧ List.Forall₂ (PostEntry tz) s.all_posts ps
  authors : ∀ post ∈ s.all_posts, s.hasUser post.username = true

section

variable {tz : TimeZone} {s s' : SNSServer}

theorem Filed.empty {s : SNSServer} (hs : Fresh s) (hinfo : s.userinfo = []) (hposts : s.posts = [])
    (hall : s.all_posts = []) : Filed tz s := by
  constructor
  · exact hs.wellFormed
  · simp [hs.heap]
  · refine ⟨[], hinfo, by simp, fun u => ?_⟩
    simp [SNSServer.hasUser, SNSServer.getClient, hs.client_db]
  · refine ⟨[], hposts, ?_⟩
    rw [hall]
    exact .nil
  · simp [hall]

theorem hasUser_iff {u : Str} : s.hasUser u = true ↔ ∃ i, s.getClient u = some i := Option.isSome_iff_exists

theorem Filed.word (h : Filed tz s) {u : Str} {i : Nat} (hu : s.getClient u = some i) : Word u := by
  obtain ⟨c, hc, rfl⟩ := h.wellFormed.getClient_eq_some.mp hu
  exact h.names i c hc

/-- A change which appends a line to the userinfo file. -/
theorem Filed.append_line (h : Filed tz s) {line : Str} (hline : '\n' ∉ line) (hwf : WellFormed s')
    (hnames : ∀ (i : Nat) (c : Client), s'.heap[i]? = some c → Word c.username)
    (hinfo : s'.userinfo = s.userinfo ++ (line ++ ['\n']))
    (husers : ∀ u, s'.hasUser u = true ↔ s.hasUser u = true ∨ Introduces line u)
    (hposts : s'.posts = s.posts) (hall : s'.all_posts = s.all_posts) : Filed tz s' := by
  obtain ⟨lines, hlines, hnl, hintro⟩ := h.userinfo
  constructor
  · exact hwf
  · exact hnames
  · refine ⟨lines ++ [line], ?_, ?_, fun u => ?_⟩
    · rw [hinfo, hlines, unlines_concat]
    · intro l hl
      rcases List.mem_append.mp hl with hl | hl
      · exact hnl l hl
      · rwa [List.mem_singleton.mp hl]
    · rw [husers, ← hintro]
      simp only [List.mem_append, List.mem_singleton, or_and_right, exists_or, exists_eq_left]
  · rw [hposts, hall]
    exact h.posts
  · intro post hpost
    rw [hall] at hpost
    exact (husers _).mpr (Or.inl (h.authors post hpost))

variable {request : Request} {method : Method} {status : SNSStatus}

theorem Filed.login (h : Filed tz s) (hname : Word request.username)
    (hnew : s.getClient request.username = none) :
    Filed tz ((s.addClient request.username).writeUserinfo (userLine request.username)) := by
  have hwf := h.wellFormed.addClient hnew
  apply h.append_line (newline_user hname)
  · exact hwf.congr rfl rfl
  · exact forall_username_addClient h.names hname
  · rfl
  · intro u
    have hclient : ((s.addClient request.username).writeUserinfo (userLine request.username)).getClient u =
        if u = request.username then some s.heap.length else s.getClient u :=
      h.wellFormed.getClient_addClient hnew u
    rw [introduces_userLine hname, SNSServer.hasUser, SNSServer.hasUser, hclient]
    split_ifs with hu
    · simp [hu]
    · simp [hu]
  · rfl
  · rfl

theorem Filed.follow (h : Filed tz s) {b text : Str} {i j : Nat} {c : Client} (hk : Known s request b i j)
    (hne : i ≠ j) (hc : s.heap[i]? = some c) (hm : j ∉ c.client_following)
    (htext : timestampToStr tz request.timestamp = .ok text) :
    Filed tz ((s.link i j request.timestamp).writeUserinfo (followLine request.username b text)) := by
  obtain ⟨d, hd, -⟩ := h.wellFormed.getClient_eq_some.mp hk.target
  have hwf := h.wellFormed.link (lt_of_getElem? hc) (lt_of_getElem? hd) hne hc hm request.timestamp
  have ha := h.word hk.requester
  have hb := h.word hk.target
  have ht := Word.timestampToStr htext
  apply h.append_line (newline_follow ha hb ht)
  · exact hwf.congr rfl rfl
  · exact forall_username (username?_link i j request.timestamp) h.names
  · rfl
  · intro u
    have hclient : ((s.link i j request.timestamp).writeUserinfo (followLine request.username b text)).getClient u =
        s.getClient u := getClient_link i j request.timestamp u
    rw [SNSServer.hasUser, SNSServer.hasUser, hclient]
    simp only [not_introduces_follow ha hb ht u, or_false]
  · rfl
  · rfl

theorem Filed.unfollow (h : Filed tz s) {b : Str} {i j : Nat} (hk : Known s request b i j) (hne : i ≠ j) :
    Filed tz ((s.unlink i j).writeUserinfo (unfollowLine request.username b)) := by
  have hwf := h.wellFormed.unlink (i := i) hne
  have ha := h.word hk.requester
  have hb := h.word hk.target
  apply h.append_line (newline_unfollow ha hb)
  · exact hwf.congr rfl rfl
  · exact forall_username (username?_unlink i j) h.names
  · rfl
  · intro u
    have hclient : ((s.unlink i j).writeUserinfo (unfollowLine request.username b)).getClient u =
        s.getClient u := getClient_unlink i j u
    rw [SNSServer.hasUser, SNSServer.hasUser, hclient]
    simp only [not_introduces_unfollow ha hb u, or_false]
  · rfl
  · rfl

theorem Filed.account (h : Filed tz s) (hname : method = .LOGIN → Word request.username)
    (hpost : method ≠ .ADD_POST) (ho : HandleOutcome s tz request method s' status) : Filed tz s' := by
  cases ho with
  | loginNew hnew => exact h.login (hname rfl) hnew
  | followNew hk hne hc hm htext => exact h.follow hk hne hc hm htext
  | unfollow hk hne hc hm => exact h.unfollow hk hne
  | post hi hdata => exact absurd rfl hpost
  | _ => exact h

theorem Filed.post (h : Filed tz s) {message : Message} {i : Nat} {a : Client} {data : Str}
    (hi : s.getClient message.username = some i) (hmsg : '\n' ∉ message.msg)
    (hdata : formatMessageOutput tz message = .ok data) : Filed tz (s.postOf message a data) := by
  obtain ⟨ps, hps, hentries⟩ := h.posts
  obtain ⟨p, rfl, hentry⟩ := formatMessageOutput_entry hdata (h.word hi).newline hmsg
  constructor
  · exact h.wellFormed.congr rfl rfl
  · exact h.names
  · exact h.userinfo
  · refine ⟨ps ++ [p], ?_, List.rel_append hentries (.cons hentry .nil)⟩
    rw [paragraphs_concat, ← hps]
    rfl
  · intro post hpost
    rcases List.mem_append.mp hpost with hold | hnew
    · exact h.authors post hold
    · rw [List.mem_singleton.mp hnew]
      exact hasUser_iff.mpr ⟨i, hi⟩

theorem Filed.join (h : Filed tz s) {stream : StreamId} {i : Nat} {c : Client} {posts : List Post}
    (hc : s.heap[i]? = some c) : Filed tz (s.joinOf stream i c posts) := by
  have hclient := @getClient_joinOf s i c stream posts hc
  have husers (u : Str) : (s.joinOf stream i c posts).hasUser u = s.hasUser u := by
    rw [SNSServer.hasUser, SNSServer.hasUser, hclient]
  constructor
  · exact h.wellFormed.joinOf hc
  · exact forall_username (username?_joinOf hc) h.names
  · simp only [husers]
    exact h.userinfo
  · exact h.posts
  · simp only [husers]
    exact h.authors

end

end DistributedSns.Server
