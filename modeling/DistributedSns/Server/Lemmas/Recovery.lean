import DistributedSns.Server.BacklogTheorems
import DistributedSns.Server.FileTheorems
import DistributedSns.Server.NetworkTheorems

/-!
# Servers rebuilt from their own files

When all times are read back as they were, a server rebuilt from its files is the server which wrote them, but for the
streams of its clients.
-/

namespace DistributedSns.Server

open SNSServer

variable {tz : TimeZone} {s s' r : SNSServer}

/-! ## Exact servers -/

/-- The files hold the state, and every time in it is read back as it is. -/
structure Exact (tz : TimeZone) (s : SNSServer) : Prop extends Stored tz s where
  follow_time : ∀ (i : Nat) (c : Client), s.heap[i]? = some c → ∀ t ∈ c.follow_time, ReadBack tz t t
  timestamp : ∀ post ∈ s.all_posts, ReadBack tz post.timestamp post.timestamp

theorem Exact.empty (hs : Fresh s) (hinfo : s.userinfo = []) (hposts : s.posts = []) (hall : s.all_posts = []) :
    Exact tz s := by
  constructor
  · exact .empty hs hinfo hposts hall
  · simp [hs.heap]
  · simp [hall]

/-- What the formats of the files presuppose of an event, and a time which is read back as it is. -/
def Durable (tz : TimeZone) : Streams.Event → Prop
  | .request .LOGIN request => Word request.username
  | .request .FOLLOW request => ReadBack tz request.timestamp request.timestamp
  | .request .ADD_POST request =>
    '\n' ∉ request.message.msg ∧ ReadBack tz request.message.timestamp request.message.timestamp
  | .message _ message => '\n' ∉ message.msg ∧ ReadBack tz message.timestamp message.timestamp
  | _ => True

theorem ReadBack.readable {t : Timestamp} (h : ReadBack tz t t) : Readable tz t := by
  obtain ⟨text, htext, -⟩ := bind_eq_ok.mp h
  exact ⟨t, h, text, htext⟩

theorem Durable.storable {method : Method} {request : Request} (h : Durable tz (.request method request)) :
    Storable tz method request := by
  constructor
  · rintro rfl
    exact h
  · rintro rfl
    exact ⟨_, h⟩
  · rintro rfl
    exact h.1
  · rintro rfl
    exact h.2.readable

theorem Exact.follow_time_link (h : Exact tz s) {t : Timestamp} (ht : ReadBack tz t t) {i j k : Nat} {c : Client}
    (hc : (s.link i j t).heap[k]? = some c) : ∀ t' ∈ c.follow_time, ReadBack tz t' t' := by
  rw [getElem?_link, Option.map_eq_some_iff] at hc
  obtain ⟨c, hc, rfl⟩ := hc
  intro t' ht'
  rw [follow_time_linkClient] at ht'
  split_ifs at ht'
  · rcases List.mem_append.mp ht' with ht' | ht'
    · exact h.follow_time k c hc t' ht'
    · rwa [List.mem_singleton.mp ht']
  · exact h.follow_time k c hc t' ht'

theorem Exact.follow_time_unlink (h : Exact tz s) {i j k : Nat} {c : Client}
    (hc : (s.unlink i j).heap[k]? = some c) : ∀ t ∈ c.follow_time, ReadBack tz t t := by
  rw [getElem?_unlink, Option.map_eq_some_iff] at hc
  obtain ⟨c, hc, rfl⟩ := hc
  intro t ht
  rw [follow_time_unlinkClient] at ht
  split_ifs at ht
  · exact h.follow_time k c hc t (List.mem_of_mem_eraseIdx ht)
  · exact h.follow_time k c hc t ht

theorem Exact.account (h : Exact tz s) {method : Method} {request : Request} {status : SNSStatus}
    (hd : Durable tz (.request method request)) (hm : method ≠ .ADD_POST)
    (ho : HandleOutcome s tz request method s' status) : Exact tz s' := by
  refine ⟨h.toStored.account hd.storable hm ho, ?_, ?_⟩
  · cases ho with
    | loginNew hnew =>
        intro i c hc
        rcases getElem?_addClient hc with hc | ⟨-, rfl⟩
        · exact h.follow_time i c hc
        · nofun
    | followNew hk hne hc hm htext => exact fun i c hc => h.follow_time_link hd hc
    | unfollow hk hne hc hm => exact fun i c hc => h.follow_time_unlink hc
    | post hi hdata => exact absurd rfl hm
    | _ => exact h.follow_time
  · rw [(ho.quiet hm).2]
    exact h.timestamp

theorem Exact.post (h : Exact tz s) {message : Message} (hmsg : '\n' ∉ message.msg)
    (ht : ReadBack tz message.timestamp message.timestamp) {i : Nat} {a : Client} {data : Str}
    (hi : s.getClient message.username = some i) (hdata : formatMessageOutput tz message = .ok data) :
    Exact tz (s.postOf message a data) := by
  have hd : Durable tz (.request .ADD_POST { message }) := ⟨hmsg, ht⟩
  refine ⟨h.toStored.post hd.storable hi hdata, h.follow_time, ?_⟩
  intro post hpost
  rcases List.mem_append.mp hpost with hold | hnew
  · exact h.timestamp post hold
  · rw [List.mem_singleton.mp hnew]
    exact ht

theorem Exact.join (h : Exact tz s) {stream : StreamId} {i : Nat} {a : Client} {posts : List Post}
    (ha : s.heap[i]? = some a) : Exact tz (s.joinOf stream i a posts) := by
  refine ⟨h.toStored.join ha, ?_, h.timestamp⟩
  intro k d hd
  obtain ⟨c, hc, hsame⟩ := sameLists_joinOf ha hd
  rw [hsame.follow_time]
  exact h.follow_time k c hc

theorem Exact.step {c c' : Streams.State} {e : Streams.Event} (h : Exact tz c.server) (hd : Durable tz e)
    (ho : Streams.Outcome tz c e c') : Exact tz c'.server := by
  cases ho with
  | account hm ho => exact h.account hd hm ho
  | addPost hi ha hdata => exact h.post hd.1 hd.2 hi hdata
  | enter => exact h
  | joined hlive hi ha hnone hposts => exact h.join ha
  | posted hlive hi ha hsome hdata => exact h.post hd.1 hd.2 hi hdata
  | ignored hlive hi ha hsome => exact h
  | leave hlive => exact h

/-! ## Recovered servers -/

/-- Nothing but streams is lost. -/
structure Recovered (s r : SNSServer) : Prop where
  client_db : r.client_db = s.client_db
  heap : List.Forall₂ SameLists s.heap r.heap
  all_posts : r.all_posts = s.all_posts
  userinfo : r.userinfo = s.userinfo
  posts : r.posts = s.posts

section

variable (h : Recovered s r)
include h

theorem Recovered.getElem? {i : Nat} {d : Client} (hd : r.heap[i]? = some d) :
    ∃ c, s.heap[i]? = some c ∧ SameLists c d := by
  have hrel := forall₂_getElem? h.heap i
  rw [hd] at hrel
  cases hc : s.heap[i]? with
  | none => rw [hc] at hrel; cases hrel
  | some c =>
      rw [hc] at hrel
      cases hrel with
      | some hcd => exact ⟨c, rfl, hcd⟩

theorem Recovered.username? : r.username? = s.username? := by
  funext i
  rw [SNSServer.username?, SNSServer.username?]
  have hrel := forall₂_getElem? h.heap i
  generalize s.heap[i]? = c at hrel ⊢
  generalize r.heap[i]? = d at hrel ⊢
  cases hrel with
  | none => rfl
  | some hcd => rw [Option.map_some, Option.map_some, hcd.username]

theorem Recovered.hasUser (u : Str) : r.hasUser u = s.hasUser u := by
  rw [SNSServer.hasUser, SNSServer.hasUser, getClient_congr h.client_db fun k _ => congrFun h.username? k]

theorem Recovered.wellFormed (hs : WellFormed s) : WellFormed r :=
  hs.of_sameLists h.client_db h.heap.length_eq.symm fun _ _ => h.getElem?

theorem Recovered.names (hs : ∀ (i : Nat) (c : Client), s.heap[i]? = some c → Word c.username) (i : Nat)
    (d : Client) (hd : r.heap[i]? = some d) : Word d.username := by
  obtain ⟨c, hc, hcd⟩ := h.getElem? hd
  rw [hcd.username]
  exact hs i c hc

theorem Recovered.logged (hs : Logged tz s) : Logged tz r := by
  apply hs.of_restored (h.wellFormed hs.wellFormed) (h.names hs.names) h.userinfo
  intro x hx
  refine ⟨hx.client_db.trans h.client_db.symm, List.forall₂_iff_get.mpr ⟨?_, ?_⟩⟩
  · rw [← h.heap.length_eq, hx.heap.length_eq]
  · intro i hr hxi
    obtain ⟨c, hc, hcd⟩ := h.getElem? (List.getElem?_eq_getElem hr)
    obtain ⟨d, hd, hcx⟩ := hx.getElem? hc
    rw [List.getElem?_eq_getElem hxi, Option.some.injEq] at hd
    subst hd
    constructor
    · exact hcx.username.trans hcd.username.symm
    · exact hcx.connected.trans hcd.connected.symm
    · exact hcx.following.trans hcd.following.symm
    · exact hcx.followers.trans hcd.followers.symm
    · exact hcd.follow_time.symm ▸ hcx.follow_time

theorem Recovered.filed (hs : Filed tz s) : Filed tz r := by
  constructor
  · exact h.wellFormed hs.wellFormed
  · exact h.names hs.names
  · simp only [h.userinfo, h.hasUser]
    exact hs.userinfo
  · rw [h.posts, h.all_posts]
    exact hs.posts
  · simp only [h.all_posts, h.hasUser]
    exact hs.authors

theorem Recovered.exact (hs : Exact tz s) : Exact tz r := by
  refine ⟨⟨h.logged hs.logged, h.filed hs.filed, ?_⟩, ?_, ?_⟩
  · rw [h.all_posts]
    exact hs.readable
  · intro i d hd
    obtain ⟨c, hc, hcd⟩ := h.getElem? hd
    rw [hcd.follow_time]
    exact hs.follow_time i c hc
  · rw [h.all_posts]
    exact hs.timestamp

theorem Recovered.shows {n : Network} (hs : Shows s n) : Shows r n :=
  hs.of_sameLists h.client_db h.username? fun _ _ => h.getElem?

end

/-! ## Reading the local files -/

/-- What is read from the local files is not written to them again. -/
structure SameFiles (s s' : SNSServer) : Prop where
  serverInfo : s'.serverInfo = s.serverInfo
  userinfo : s'.userinfo = s.userinfo
  posts : s'.posts = s.posts

theorem SameFiles.refl (s : SNSServer) : SameFiles s s := ⟨rfl, rfl, rfl⟩

theorem SameFiles.trans {s'' : SNSServer} (h : SameFiles s s') (h' : SameFiles s' s'') : SameFiles s s'' :=
  ⟨h'.serverInfo.trans h.serverInfo, h'.userinfo.trans h.userinfo, h'.posts.trans h.posts⟩

theorem pushFollow_sameFiles {i j : Nat} {t : Timestamp} (hr : s.pushFollow i j t = .ok s') : SameFiles s s' := by
  obtain ⟨c, -, hr⟩ := bind_eq_ok.mp hr
  obtain ⟨d, -, hr⟩ := bind_eq_ok.mp hr
  cases hr
  exact ⟨rfl, rfl, rfl⟩

theorem eraseFollow_sameFiles {i j : Nat} {k l : Option Nat} (hr : s.eraseFollow i j k l = .ok s') :
    SameFiles s s' := by
  obtain ⟨c, -, hr⟩ := bind_eq_ok.mp hr
  obtain ⟨following, -, hr⟩ := bind_eq_ok.mp hr
  obtain ⟨times, -, hr⟩ := bind_eq_ok.mp hr
  obtain ⟨d, -, hr⟩ := bind_eq_ok.mp hr
  obtain ⟨followers, -, hr⟩ := bind_eq_ok.mp hr
  cases hr
  exact ⟨rfl, rfl, rfl⟩

theorem loginHelper_sameFiles {u : Str} (hr : s.loginHelper u = .ok s') : SameFiles s s' := by
  rw [loginHelper] at hr
  cases hu : s.getClient u with
  | some i =>
      simp only [getClientOrNew, hu] at hr
      obtain ⟨c, -, hr⟩ := bind_eq_ok.mp hr
      cases hr
      exact ⟨rfl, rfl, rfl⟩
  | none =>
      simp only [getClientOrNew, hu] at hr
      obtain ⟨c, -, hr⟩ := bind_eq_ok.mp hr
      cases hr
      exact ⟨rfl, rfl, rfl⟩

theorem processLine_sameFiles {line : Str} (hr : processLine tz false s line = .ok s') : SameFiles s s' := by
  obtain ⟨op, -, hr⟩ := bind_eq_ok.mp hr
  by_cases huser : op = USER
  · simp only [huser, ↓reduceIte] at hr
    obtain ⟨a, -, hr⟩ := bind_eq_ok.mp hr
    obtain ⟨s₁, hs₁, hr⟩ := bind_eq_ok.mp hr
    cases hr
    exact loginHelper_sameFiles hs₁
  by_cases hfollow : op = FOLLOW
  · simp only [hfollow, ↓reduceIte] at hr
    obtain ⟨a, -, hr⟩ := bind_eq_ok.mp hr
    obtain ⟨b, -, hr⟩ := bind_eq_ok.mp hr
    obtain ⟨text, -, hr⟩ := bind_eq_ok.mp hr
    obtain ⟨s₁, hs₁, hr⟩ := bind_eq_ok.mp hr
    cases hr
    obtain ⟨t, -, hs₁⟩ := bind_eq_ok.mp hs₁
    obtain ⟨i, -, hs₁⟩ := bind_eq_ok.mp hs₁
    obtain ⟨j, -, hs₁⟩ := bind_eq_ok.mp hs₁
    exact pushFollow_sameFiles hs₁
  by_cases hunfollow : op = UNFOLLOW
  · simp only [hunfollow, ↓reduceIte] at hr
    obtain ⟨a, -, hr⟩ := bind_eq_ok.mp hr
    obtain ⟨b, -, hr⟩ := bind_eq_ok.mp hr
    obtain ⟨s₁, hs₁, hr⟩ := bind_eq_ok.mp hr
    cases hr
    obtain ⟨i, -, hs₁⟩ := bind_eq_ok.mp hs₁
    obtain ⟨j, -, hs₁⟩ := bind_eq_ok.mp hs₁
    obtain ⟨c, -, hs₁⟩ := bind_eq_ok.mp hs₁
    obtain ⟨d, -, hs₁⟩ := bind_eq_ok.mp hs₁
    exact eraseFollow_sameFiles hs₁
  · simp only [huser, hfollow, hunfollow, ↓reduceIte] at hr
    cases hr
    exact .refl s

theorem processParts_sameFiles {parts : List Str} (hr : processParts tz false s parts = .ok s') : SameFiles s s' := by
  rw [processParts] at hr
  split_ifs at hr
  · obtain ⟨text, -, hr⟩ := bind_eq_ok.mp hr
    obtain ⟨text', -, hr⟩ := bind_eq_ok.mp hr
    obtain ⟨timestamp, -, hr⟩ := bind_eq_ok.mp hr
    obtain ⟨name, -, hr⟩ := bind_eq_ok.mp hr
    obtain ⟨username, -, hr⟩ := bind_eq_ok.mp hr
    obtain ⟨text, -, hr⟩ := bind_eq_ok.mp hr
    obtain ⟨content, -, hr⟩ := bind_eq_ok.mp hr
    obtain ⟨i, data, w, -, -, rfl⟩ := addPostHelper_eq hr
    exact ⟨rfl, rfl, rfl⟩
  · cases hr
    exact .refl s

theorem foldlM_sameFiles {α : Type} {f : SNSServer → α → Except Fault SNSServer}
    (hf : ∀ (s : SNSServer) (a : α) (s' : SNSServer), f s a = .ok s' → SameFiles s s') {l : List α}
    (hr : l.foldlM f s = .ok s') : SameFiles s s' := by
  induction l generalizing s with
  | nil =>
      cases hr
      exact .refl _
  | cons a l ih =>
      rw [List.foldlM_cons] at hr
      obtain ⟨s₁, hs₁, hr⟩ := bind_eq_ok.mp hr
      exact (hf s a s₁ hs₁).trans (ih hr)

/-- Times which are read back as they are do not change. -/
theorem sameTimes {l l' : List Timestamp} (h : List.Forall₂ (ReadBack tz) l l') (hl : ∀ t ∈ l, ReadBack tz t t) :
    l' = l := by
  induction h with
  | nil => rfl
  | @cons t t' l l' ht _ ih =>
      obtain ⟨hself, hl⟩ := List.forall_mem_cons.mp hl
      rw [ih hl, Except.ok.inj (ht.symm.trans hself)]

theorem Exact.sameLists (h : Exact tz s) (hr : Restored tz s r) : List.Forall₂ SameLists s.heap r.heap := by
  refine List.forall₂_iff_get.mpr ⟨hr.heap.length_eq, fun i hs hi => ?_⟩
  obtain ⟨d, hd, hcd⟩ := hr.getElem? (List.getElem?_eq_getElem hs)
  rw [List.getElem?_eq_getElem hi, Option.some.injEq] at hd
  subst hd
  exact {
    username := hcd.username
    connected := hcd.connected
    following := hcd.following
    followers := hcd.followers
    follow_time := sameTimes hcd.follow_time (h.follow_time i _ (List.getElem?_eq_getElem hs)) }

/-- A fresh server which reads the files of a server is this server again. -/
theorem Exact.recover (h : Exact tz s) {r₀ : SNSServer} (hr₀ : Fresh r₀) (hall : r₀.all_posts = [])
    (hinfo : r₀.userinfo = s.userinfo) (hposts : r₀.posts = s.posts) :
    ∃ r₁ r, r₀.processUserInfoFromFile tz (readLines s.userinfo) false = .ok r₁ ∧
      r₁.updatePostsFromFile tz (readLines s.posts) false = .ok r ∧ Recovered s r ∧
      r.serverInfo = r₀.serverInfo := by
  obtain ⟨r₁, hr₁, hwf, hsr, hall₁⟩ := h.logged.processUserInfoFromFile hr₀ false
  obtain ⟨ps, hps, hentries⟩ := h.filed.posts
  have husers (u : Str) : r₁.hasUser u = s.hasUser u := congrFun hsr.graph (.user u)
  obtain ⟨r, qs, -, hr, hheap, hdb, hall', hqs, -, hposts'⟩ := processParts_posts hwf.followers hentries h.readable
    (fun post hpost => (husers _).trans (h.filed.authors post hpost)) false
  have hparagraphs := paragraphs_of_entries hentries
  have hfiles₁ : SameFiles r₀ r₁ := foldlM_sameFiles (fun _ _ _ => processLine_sameFiles) hr₁
  have hfiles := hfiles₁.trans (foldlM_sameFiles (fun _ _ _ => processParts_sameFiles) hr)
  have hsame : List.Forall₂ Eq s.all_posts qs := by
    have hself := (List.forall₂_and_left _ _).mpr ⟨h.timestamp, hqs⟩
    exact hself.imp fun p q hpq => (hpq.2.eq hpq.1).symm
  obtain rfl : s.all_posts = qs := List.forall₂_eq_eq_eq ▸ hsame
  refine ⟨r₁, r, ?_, ?_, ?_, hfiles.serverInfo⟩
  · rw [h.logged.readLines, hr₁]
  · rw [h.filed.readLines_posts, hps, updatePostsFromFile_paragraphs hparagraphs, hr]
  · constructor
    · rw [hdb, hsr.client_db]
    · rw [hheap]
      exact h.sameLists hsr
    · rw [hall', hall₁, hall, List.nil_append]
    · rw [hfiles.userinfo, hinfo]
    · rw [hfiles.posts, hposts]

end DistributedSns.Server
