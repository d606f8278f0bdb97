import DistributedSns.Server.Lemmas.Initialize
import DistributedSns.Server.Startup
import DistributedSns.Server.Theorems

/-!
# Reading the files back

The posts file is read back as the posts which were written to it, whatever names and contents on one line look like.
A line of the userinfo file is read back only if the names in it have no separators, which no handler checks.
-/

namespace DistributedSns.Server

open FSWrapper (FSLocal)
open SNSServer

variable {tz : TimeZone} {s r : SNSServer}

/-! ## The posts file -/

/-- The texts of the posts, one after the other. -/
def formatPosts (tz : TimeZone) (posts : List Post) : Except Fault Str := do
  let texts ← posts.mapM fun post => formatMessageOutput tz (Post.toMessage post)
  return texts.flatten

/-- The post is on lines of its own, its author has logged in, and its time is read back from its text. -/
structure Readback (tz : TimeZone) (r : SNSServer) (post : Post) : Prop where
  username : '\n' ∉ post.username
  data : '\n' ∉ post.data
  author : r.hasUser post.username = true
  nanos : post.timestamp.nanos = 0
  seconds : timestampToStr tz post.timestamp >>= strToSeconds tz = .ok post.timestamp.seconds

theorem readBack_self_iff {t : Timestamp} : ReadBack tz t t ↔
    t.nanos = 0 ∧ timestampToStr tz t >>= strToSeconds tz = .ok t.seconds := by
  obtain ⟨seconds, nanos⟩ := t
  simp only [ReadBack, bind_eq_ok, strToTimestamp]
  constructor
  · rintro ⟨text, htext, seconds', hseconds, ht⟩
    cases ht
    exact ⟨rfl, text, htext, hseconds⟩
  · rintro ⟨rfl, text, htext, hseconds⟩
    exact ⟨text, htext, seconds, hseconds, rfl⟩

theorem Readback.readable {post : Post} (h : Readback tz r post) :
    ReadBack tz post.timestamp post.timestamp ∧ Readable tz post.timestamp := by
  have hback := readBack_self_iff.mpr ⟨h.nanos, h.seconds⟩
  obtain ⟨text, htext, -⟩ := bind_eq_ok.mp hback
  exact ⟨hback, _, hback, text, htext⟩

/-- What is written is a paragraph for each post. -/
theorem formatPosts_entries {posts : List Post} (h : ∀ post ∈ posts, Readback tz r post) :
    ∃ ps, formatPosts tz posts = .ok (paragraphs ps) ∧ List.Forall₂ (PostEntry tz) posts ps := by
  induction posts with
  | nil => exact ⟨[], rfl, .nil⟩
  | cons post posts ih =>
      have hpost := h post List.mem_cons_self
      obtain ⟨ps, hps, hentries⟩ := ih fun q hq => h q (List.mem_cons_of_mem _ hq)
      obtain ⟨texts, htexts, hps⟩ := bind_eq_ok.mp hps
      obtain ⟨time, htime, -⟩ := bind_eq_ok.mp hpost.readable.1
      obtain ⟨data, hdata⟩ : ∃ data, formatMessageOutput tz (Post.toMessage post) = .ok data := by
        rw [formatMessageOutput, Post.toMessage, htime]
        exact ⟨_, rfl⟩
      obtain ⟨p, rfl, hentry⟩ := formatMessageOutput_entry hdata hpost.username hpost.data
      refine ⟨p :: ps, ?_, .cons hentry hentries⟩
      have hflat : texts.flatten = paragraphs ps := Except.ok.inj hps
      rw [formatPosts, List.mapM_cons, hdata, ok_bind, htexts, paragraphs, List.flatMap_cons, ← paragraphs, ← hflat]
      rfl

/-- Posts which are rebuilt from their own times are the same. -/
theorem SamePost.eq {p q : Post} (h : SamePost tz p q) (hback : ReadBack tz p.timestamp p.timestamp) : q = p := by
  have htime := Except.ok.inj (h.timestamp.symm.trans hback)
  obtain ⟨username, data, timestamp⟩ := q
  obtain ⟨rfl, rfl, -⟩ := h
  cases htime
  rfl

theorem postEntry_unique : Relator.RightUnique (PostEntry tz) := by
  intro post p p' h h'
  obtain ⟨time, htime, rfl⟩ := h.lines
  obtain ⟨time', htime', rfl⟩ := h'.lines
  rw [htime, Except.ok.injEq] at htime'
  rw [htime']

/-- The text of posts, read by `FSLocal::read` and processed, gives these posts again, and the same text if it is
written to the file. -/
theorem posts_round_trip (hf : FollowersValid r) {posts : List Post} (h : ∀ post ∈ posts, Readback tz r post) :
    ∃ text, formatPosts tz posts = .ok text ∧
      ∀ (fs : FSLocal) (file data : Str) (offset : Int),
        fs.disk.status (fs.getFullPath file) = some (.file text) → ∀ save,
          ∃ r', r.updatePostsFromFile tz (fs.read file data offset).2 save = .ok r' ∧
            r'.all_posts = r.all_posts ++ posts ∧ r'.posts = if save then r.posts ++ text else r.posts := by
  obtain ⟨ps, htext, hentries⟩ := formatPosts_entries h
  refine ⟨paragraphs ps, htext, ?_⟩
  intro fs file data offset hfile save
  obtain ⟨r', qs, ps', hr', -, -, hall, hqs, hentries', hposts⟩ := processParts_posts hf hentries
    (fun post hpost => (h post hpost).readable.2) (fun post hpost => (h post hpost).author) save
  have hread : (fs.read file data offset).2 = paragraphs ps := by
    rw [FSLocal.read, hfile]
    exact (readLoop_eq_readLines List.not_mem_nil _).trans (readLines_paragraphs ps)
  have hsame : List.Forall₂ Eq posts qs := by
    have hself := (List.forall₂_and_left _ _).mpr ⟨fun post hpost => (h post hpost).readable.1, hqs⟩
    exact hself.imp fun p q hpq => (hpq.2.eq hpq.1).symm
  obtain rfl : posts = qs := List.forall₂_eq_eq_eq ▸ hsame
  obtain rfl : ps = ps' := postEntry_unique.forall₂ hentries hentries'
  refine ⟨r', ?_, hall, hposts⟩
  rw [hread, updatePostsFromFile_paragraphs (paragraphs_of_entries hentries), hr']

/-- The second author has an empty name, and the contents look like the lines of a post. -/
def oddPosts : List Post :=
  [{ username := ['a'], data := "U b".toList, timestamp := { seconds := 86400 } },
    { username := [], data := [], timestamp := { seconds := 90061 } },
    { username := ['a'], data := "W  T 1970-1-1T0:0:0".toList, timestamp := {} }]

/-- A disk with one file. -/
def diskWith (text : Str) : FSLocal where
  baseDir := []
  disk := Function.update Lib.PathMap.empty [POSTS] (some (.file text))

theorem posts_round_trip_oddPosts : ∃ (r : SNSServer) (text : Str),
    [loginCall ['a'], loginCall []].foldlM (handleRequest .utc) {} = .ok r ∧
      formatPosts .utc oddPosts = .ok text ∧
      ∃ r', r.updatePostsFromFile .utc ((diskWith text).read POSTS [] 0).2 true = .ok r' ∧
        r'.all_posts = oddPosts ∧ r'.posts = text := by
  obtain ⟨r, hr, hall, hposts, hauthors⟩ : ∃ r : SNSServer,
      [loginCall ['a'], loginCall []].foldlM (handleRequest .utc) {} = .ok r ∧ r.all_posts = [] ∧ r.posts = [] ∧
        ∀ post ∈ oddPosts, r.hasUser post.username = true :=
    ⟨_, rfl, rfl, rfl, by decide +kernel⟩
  have hreach : (serverMachine .utc).Reachable r := Lib.Machine.reachable_of_foldlM ⟨⟨rfl, rfl⟩, rfl⟩ hr
  have hodd : ∀ post ∈ oddPosts, '\n' ∉ post.username ∧ '\n' ∉ post.data ∧ post.timestamp.nanos = 0 ∧
      timestampToStr .utc post.timestamp >>= strToSeconds .utc = .ok post.timestamp.seconds := by
    decide +kernel
  have hback : ∀ post ∈ oddPosts, Readback .utc r post := by
    intro post hpost
    obtain ⟨hname, hdata, hnanos, hseconds⟩ := hodd post hpost
    exact ⟨hname, hdata, hauthors post hpost, hnanos, hseconds⟩
  obtain ⟨text, htext, hread⟩ := posts_round_trip (wellFormed_of_reachable hreach).followers hback
  obtain ⟨r', hr', hall', hposts'⟩ := hread (diskWith text) POSTS [] 0 rfl true
  refine ⟨r, text, hr, htext, r', hr', ?_, ?_⟩
  · rw [hall', hall, List.nil_append]
  · rw [hposts', hposts]
    rfl

/-! ## The userinfo file -/

/-- The words of the line which a request writes. -/
def logWords (tz : TimeZone) (method : Method) (request : Request) : Except Fault (List Str) :=
  match method with
  | .LOGIN => .ok [USER, request.username]
  | .FOLLOW => do
    let timeStr ← timestampToStr tz request.timestamp
    return [FOLLOW, request.username, ← request.argument 0, timeStr]
  | .UNFOLLOW => do return [UNFOLLOW, request.username, ← request.argument 0]
  | .ADD_POST => .ok []

/-- What has been added to the file is read back as the words which were written. -/
def LineReadBack (tz : TimeZone) (method : Method) (request : Request) (s s' : SNSServer) : Prop :=
  ∃ words, logWords tz method request = .ok words ∧ ReadsAs (s'.userinfo.drop s.userinfo.length) words

/-- The names have no separators in them, and a name at the end of the line is not empty. -/
def Unambiguous (method : Method) (request : Request) : Prop :=
  match method with
  | .LOGIN => Word request.username
  | .FOLLOW => ∀ u ∈ request.username :: request.arguments.take 1, ' ' ∉ u ∧ '\n' ∉ u
  | .UNFOLLOW => (∀ u ∈ request.username :: request.arguments.take 1, ' ' ∉ u ∧ '\n' ∉ u) ∧
    request.arguments[0]? ≠ some []
  | .ADD_POST => True

section

variable {method : Method} {request : Request} {reply : Reply} {s' : SNSServer}

theorem lineReadBack_iff {word : Str} {words : List Str} (hwords : logWords tz method request = .ok (word :: words))
    (hinfo : s'.userinfo = s.userinfo ++ ([' '].intercalate (word :: words) ++ ['\n'])) :
    LineReadBack tz method request s s' ↔
      (∀ w ∈ word :: words, ' ' ∉ w ∧ '\n' ∉ w) ∧ (word :: words).getLast? ≠ some [] := by
  rw [LineReadBack, hwords, hinfo, List.drop_left, ← readsAs_iff]
  simp

theorem take_arguments {b : Str} (hb : request.arguments[0]? = some b) : request.arguments.take 1 = [b] := by
  rw [List.take_one, List.head?_eq_getElem?, hb]
  rfl

/-- A line which a handler has written is read back if and only if the names can be told apart in it. -/
theorem line_read_back_iff (h : WellFormed s) (hm : method ≠ .ADD_POST)
    (hr : s.handle tz method request = .ok (s', reply)) (hwritten : s'.userinfo ≠ s.userinfo) :
    LineReadBack tz method request s s' ↔ Unambiguous method request := by
  have ho := handle_outcome h hr
  generalize reply.status = status at ho
  cases ho with
  | loginNew hnew =>
      have hwords : logWords tz .LOGIN request = .ok [USER, request.username] := rfl
      rw [lineReadBack_iff hwords, Unambiguous, word_iff]
      · have hop : ' ' ∉ USER ∧ '\n' ∉ USER := by decide
        simp [hop, and_comm]
      · simp [writeUserinfo, addClient, userLine]
  | @followNew b text i j c hk hne hc hm htext =>
      have hwords : logWords tz .FOLLOW request = .ok [FOLLOW, request.username, b, text] := by
        rw [logWords, htext, ok_bind, hk.argument]
        rfl
      rw [lineReadBack_iff hwords, Unambiguous, take_arguments hk.arguments]
      · have hop : ' ' ∉ FOLLOW ∧ '\n' ∉ FOLLOW := by decide
        have ht := Word.timestampToStr htext
        simp [hop, ht.space, ht.newline, ht.ne_nil]
      · simp [writeUserinfo, link, followLine]
  | @unfollow b i j c hk hne hc hm =>
      have hwords : logWords tz .UNFOLLOW request = .ok [UNFOLLOW, request.username, b] := by
        rw [logWords, hk.argument]
        rfl
      rw [lineReadBack_iff hwords, Unambiguous, take_arguments hk.arguments, hk.arguments]
      · have hop : ' ' ∉ UNFOLLOW ∧ '\n' ∉ UNFOLLOW := by decide
        simp [hop]
      · simp [writeUserinfo, unlink, unfollowLine]
  | post hi hdata => exact absurd rfl hm
  | _ => exact absurd rfl hwritten

end

theorem line_read_back_ann : ∃ (s' : SNSServer) (reply : Reply),
    ({} : SNSServer).handle .utc .LOGIN { username := "ann".toList } = .ok (s', reply) ∧
      LineReadBack .utc .LOGIN { username := "ann".toList } {} s' := by
  obtain ⟨s', reply, hr, hne⟩ : ∃ (s' : SNSServer) (reply : Reply),
      ({} : SNSServer).handle .utc .LOGIN { username := "ann".toList } = .ok (s', reply) ∧ s'.userinfo ≠ [] :=
    ⟨_, _, rfl, by decide⟩
  have hann : Word "ann".toList := by constructor <;> decide
  exact ⟨s', reply, hr, (line_read_back_iff (.empty rfl rfl) (by decide) hr hne).mpr hann⟩

/-- The name of this user is read as two words. -/
theorem login_two_words : ∃ (s' : SNSServer) (reply : Reply),
    ({} : SNSServer).handle .utc .LOGIN { username := "a b".toList } = .ok (s', reply) ∧ reply.status = .SUCCESS ∧
      s'.userinfo ≠ [] ∧ ReadsAs s'.userinfo [USER, ['a'], ['b']] ∧
      ¬ LineReadBack .utc .LOGIN { username := "a b".toList } {} s' := by
  refine ⟨_, _, rfl, rfl, by decide, by decide, ?_⟩
  rintro ⟨words, hwords, hread⟩
  cases hwords
  revert hread
  decide

end DistributedSns.Server
