import DistributedSns.Server.Lemmas.Initialize
import DistributedSns.Server.StreamTheorems

/-!
# What `GetLog` returns

`GetLog` reads the userinfo file first and the posts file afterwards. A user who logs in and posts in between is in the
posts only, and the receiver's replay follows a null pointer.
-/

namespace DistributedSns.Server

open FSWrapper (splitString splitString_eq substr)
open SNSServer

variable {tz : TimeZone}

/-! ## Users during a replay -/

/-- The users and their names stay. -/
structure KeepsUsers (s s' : SNSServer) : Prop where
  names : ∀ (ref : Nat) (u : Str), s.username? ref = some u → s'.username? ref = some u
  db : ∀ ref ∈ s.client_db, ref ∈ s'.client_db

section

variable {s s' s'' : SNSServer} {u : Str}

theorem hasUser_iff_mem : s.hasUser u = true ↔ ∃ ref ∈ s.client_db, s.username? ref = some u := by
  rw [SNSServer.hasUser, SNSServer.getClient, List.find?_isSome]
  simp

theorem KeepsUsers.refl (s : SNSServer) : KeepsUsers s s := ⟨fun _ _ h => h, fun _ h => h⟩

theorem KeepsUsers.trans (h : KeepsUsers s s') (h' : KeepsUsers s' s'') : KeepsUsers s s'' :=
  ⟨fun ref u hu => h'.names ref u (h.names ref u hu), fun ref href => h'.db ref (h.db ref href)⟩

theorem KeepsUsers.hasUser (h : KeepsUsers s s') (hu : s.hasUser u = true) : s'.hasUser u = true := by
  obtain ⟨ref, href, hname⟩ := hasUser_iff_mem.mp hu
  exact hasUser_iff_mem.mpr ⟨ref, h.db ref href, h.names ref u hname⟩

theorem KeepsUsers.setClient {ref : Nat} {c d : Client} (hc : s.client ref = .ok c)
    (hname : d.username = c.username) : KeepsUsers s (s.setClient ref d) := by
  refine ⟨fun k u hu => ?_, fun _ h => h⟩
  rw [client_eq_ok_iff] at hc
  rw [username?, SNSServer.setClient, List.getElem?_set]
  split_ifs with hk hlt
  · subst hk
    rw [username?, hc] at hu
    rw [Option.map_some, hname]
    exact hu
  · subst hk
    exact absurd (lt_of_getElem? hc) hlt
  · exact hu

theorem pushFollow_keepsUsers {i j : Nat} {t : Timestamp} (hr : s.pushFollow i j t = .ok s') : KeepsUsers s s' := by
  obtain ⟨c, hc, hr⟩ := bind_eq_ok.mp hr
  obtain ⟨d, hd, hr⟩ := bind_eq_ok.mp hr
  cases hr
  refine (KeepsUsers.setClient hc ?_).trans (.setClient hd ?_) <;> rfl

theorem eraseFollow_keepsUsers {i j : Nat} {k l : Option Nat} (hr : s.eraseFollow i j k l = .ok s') :
    KeepsUsers s s' := by
  obtain ⟨c, hc, hr⟩ := bind_eq_ok.mp hr
  obtain ⟨following, -, hr⟩ := bind_eq_ok.mp hr
  obtain ⟨times, -, hr⟩ := bind_eq_ok.mp hr
  obtain ⟨d, hd, hr⟩ := bind_eq_ok.mp hr
  obtain ⟨followers, -, hr⟩ := bind_eq_ok.mp hr
  cases hr
  refine (KeepsUsers.setClient hc ?_).trans (.setClient hd ?_) <;> rfl

theorem getClientOrNew_keepsUsers {ref : Nat} (hr : s.getClientOrNew u = (s', ref)) :
    KeepsUsers s s' ∧ s'.username? ref = some u := by
  rw [getClientOrNew] at hr
  cases hu : s.getClient u with
  | some i =>
      rw [hu] at hr
      cases hr
      exact ⟨.refl s, by simpa using List.find?_some hu⟩
  | none =>
      rw [hu] at hr
      cases hr
      refine ⟨⟨fun k v hv => ?_, fun _ h => h⟩, by simp [username?]⟩
      obtain ⟨c, hc, rfl⟩ := Option.map_eq_some_iff.mp hv
      rw [username?, List.getElem?_append_left (lt_of_getElem? hc), hc]
      rfl

theorem loginHelper_keepsUsers (hr : s.loginHelper u = .ok s') : KeepsUsers s s' ∧ s'.hasUser u = true := by
  rw [loginHelper] at hr
  obtain ⟨hkeeps, hname⟩ := getClientOrNew_keepsUsers (s := s) (u := u) rfl
  obtain ⟨c, hc, hr⟩ := bind_eq_ok.mp hr
  cases hr
  have hset := KeepsUsers.setClient (d := { c with connected := true }) hc rfl
  constructor
  · refine ⟨fun ref v hv => hset.names ref v (hkeeps.names ref v hv), fun ref href => ?_⟩
    exact List.mem_append_left _ (hset.db ref (hkeeps.db ref href))
  · exact hasUser_iff_mem.mpr ⟨_, List.mem_append_right _ List.mem_cons_self, hset.names _ u hname⟩

/-- A line of the replayed file keeps the users and adds the one it introduces. -/
theorem processLine_keepsUsers {save : Bool} {line : Str} (hr : processLine tz save s line = .ok s') :
    KeepsUsers s s' ∧ ∀ u, Introduces line u → s'.hasUser u = true := by
  have hsave (s₁ : SNSServer) : KeepsUsers s₁ (if save then s₁.writeUserinfo (line ++ ['\n']) else s₁) := by
    cases save
    · exact .refl s₁
    · exact ⟨fun _ _ h => h, fun _ h => h⟩
  obtain ⟨op, hop, hr⟩ := bind_eq_ok.mp hr
  have hother (hne : op ≠ USER) : ∀ u, Introduces line u → s'.hasUser u = true := by
    rintro u ⟨rest, hsplit⟩
    rw [hsplit] at hop
    cases hop
    exact absurd rfl hne
  by_cases huser : op = USER
  · simp only [huser, ↓reduceIte] at hr
    obtain ⟨a, ha, hr⟩ := bind_eq_ok.mp hr
    obtain ⟨s₁, hs₁, hr⟩ := bind_eq_ok.mp hr
    cases hr
    obtain ⟨hkeeps, hnew⟩ := loginHelper_keepsUsers hs₁
    refine ⟨hkeeps.trans (hsave s₁), ?_⟩
    rintro u ⟨rest, hsplit⟩
    rw [hsplit] at ha
    cases ha
    exact (hsave s₁).hasUser hnew
  refine ⟨?_, hother huser⟩
  by_cases hfollow : op = FOLLOW
  · simp only [hfollow, ↓reduceIte] at hr
    obtain ⟨a, -, hr⟩ := bind_eq_ok.mp hr
    obtain ⟨b, -, hr⟩ := bind_eq_ok.mp hr
    obtain ⟨text, -, hr⟩ := bind_eq_ok.mp hr
    obtain ⟨s₁, hs₁, hr⟩ := bind_eq_ok.mp hr
    cases hr
    obtain ⟨t, -, hs₁⟩ := bind_eq_ok.mp hs₁
    obtain ⟨i, -, hs₁⟩ := bind_eq_ok.mp hs₁
    obtain ⟨j, -, hs₁⟩ := bind_eq_ok.mp hs₁
    exact (pushFollow_keepsUsers hs₁).trans (hsave s₁)
  by_cases hunfollow : op = UNFOLLOW
  · simp only [hunfollow, ↓reduceIte] at hr
    obtain ⟨a, -, hr⟩ := bind_eq_ok.mp hr
    obtain ⟨b, -, hr⟩ := bind_eq_ok.mp hr
    obtain ⟨s₁, hs₁, hr⟩ := bind_eq_ok.mp hr
    cases hr
    obtain ⟨i, -, hs₁⟩ := bind_eq_ok.mp hs₁
    obtain ⟨j, -, hs₁⟩ := bind_eq_ok.mp hs₁
    obtain ⟨c, -, hs₁⟩ := bind_eq_ok.mp hs₁
    obtain ⟨d, -, hs₁⟩ := bind_eq_ok.mp hs₁
    exact (eraseFollow_keepsUsers hs₁).trans (hsave s₁)
  · simp only [huser, hfollow, hunfollow, ↓reduceIte] at hr
    cases hr
    exact hsave s

theorem foldlM_keepsUsers {f : SNSServer → Str → Except Fault SNSServer}
    (hf : ∀ (s : SNSServer) (a : Str) (s' : SNSServer), f s a = .ok s' → KeepsUsers s s') {l : List Str}
    (hr : l.foldlM f s = .ok s') : KeepsUsers s s' := by
  induction l generalizing s with
  | nil =>
      cases hr
      exact .refl _
  | cons a l ih =>
      rw [List.foldlM_cons] at hr
      obtain ⟨s₁, hs₁, hr⟩ := bind_eq_ok.mp hr
      exact (hf s a s₁ hs₁).trans (ih hr)

/-- A replay of the userinfo file which returns has logged in every user the file introduces. -/
theorem processUserInfoFromFile_hasUser {save : Bool} {filedata : Str}
    (hr : s.processUserInfoFromFile tz filedata save = .ok s') (hu : Introduced filedata u) :
    s'.hasUser u = true := by
  obtain ⟨line, hline, hintro⟩ := hu
  obtain ⟨before, after, hlines⟩ := List.append_of_mem hline
  rw [processUserInfoFromFile, hlines, List.foldlM_append] at hr
  obtain ⟨s₁, -, hr⟩ := bind_eq_ok.mp hr
  rw [List.foldlM_cons] at hr
  obtain ⟨s₂, hs₂, hr⟩ := bind_eq_ok.mp hr
  have hkeeps := foldlM_keepsUsers (fun _ _ _ h => (processLine_keepsUsers h).1) hr
  exact hkeeps.hasUser ((processLine_keepsUsers hs₂).2 u hintro)

theorem processPost_keepsUsers {save : Bool} {token : Str} (hr : processPost tz save s token = .ok s') :
    KeepsUsers s s' := by
  obtain ⟨parts, -, hr⟩ := bind_eq_ok.mp hr
  by_cases hparts : parts.length > 0
  · simp only [hparts, ↓reduceIte] at hr
    obtain ⟨text, -, hr⟩ := bind_eq_ok.mp hr
    obtain ⟨text', -, hr⟩ := bind_eq_ok.mp hr
    obtain ⟨timestamp, -, hr⟩ := bind_eq_ok.mp hr
    obtain ⟨name, -, hr⟩ := bind_eq_ok.mp hr
    obtain ⟨username, -, hr⟩ := bind_eq_ok.mp hr
    obtain ⟨text, -, hr⟩ := bind_eq_ok.mp hr
    obtain ⟨content, -, hr⟩ := bind_eq_ok.mp hr
    obtain ⟨i, data, w, -, -, rfl⟩ := addPostHelper_eq hr
    exact ⟨fun _ _ h => h, fun _ h => h⟩
  · simp only [hparts, ↓reduceIte] at hr
    cases hr
    exact .refl s

end

/-! ## Consistent texts -/

/-- The replay of the posts comes to a post whose author the server does not know. -/
def MissingAuthor (tz : TimeZone) (s : SNSServer) (posts : Str) : Prop :=
  ∃ before token after s' u, splitString posts ['\n', '\n'] = .ok (before ++ token :: after) ∧
    before.foldlM (processPost tz true) s = .ok s' ∧ tokenAuthor token = .ok u ∧ s'.getClient u = none

/-- Every author in the posts has a user line, so no receiver's replay calls `addPostHelper` without the author. -/
structure Consistent (tz : TimeZone) (userinfo posts : Str) : Prop where
  introduced : ∀ u, AuthorIn posts u → Introduced userinfo u
  replay : ∀ r₀ r : SNSServer, r₀.processUserInfoFromFile tz userinfo true = .ok r → ¬ MissingAuthor tz r posts

theorem Consistent.of_introduced {userinfo posts : Str} (h : ∀ u, AuthorIn posts u → Introduced userinfo u) :
    Consistent tz userinfo posts := by
  refine ⟨h, ?_⟩
  rintro r₀ r hr ⟨before, token, after, s', u, htokens, hbefore, hauthor, hnone⟩
  have hintro := h u ⟨_, htokens, token, by simp, hauthor⟩
  have hkeeps := foldlM_keepsUsers (fun _ _ _ h => processPost_keepsUsers h) hbefore
  have hknown := hkeeps.hasUser (processUserInfoFromFile_hasUser hr hintro)
  rw [SNSServer.hasUser, hnone] at hknown
  cases hknown

/-! ## Two reads -/

section

variable {s : SNSServer}

theorem Filed.introduced (h : Filed tz s) (u : Str) :
    Introduced (readLines s.userinfo) u ↔ s.hasUser u = true := by
  obtain ⟨lines, hlines, hnl, hintro⟩ := h.userinfo
  have htext : readLines s.userinfo = unlines lines := by
    rw [readLines, hlines, getlines_unlines hnl]
    rfl
  rw [htext, Introduced, getlines_unlines hnl, hintro]

theorem Filed.authorIn (h : Filed tz s) (u : Str) :
    AuthorIn (readLines s.posts) u ↔ ∃ post ∈ s.all_posts, post.username = u := by
  obtain ⟨ps, hps, hentries⟩ := h.posts
  rw [h.readLines_posts, hps, authorIn_paragraphs hentries]

end

namespace Streams

open Lib (Machine)

/-- `GetLog` which reads the userinfo file in one state and the posts file in another. -/
def getLogReply (c c' : State) : Str × Str := ((getLog c.server).1, (getLog c'.server).2)

/-- What the formats of the files presuppose of an event: a new user's name is a word, and the content of a post
has no newline. -/
def Clean : Event → Prop
  | .request .LOGIN request => Word request.username
  | .request .ADD_POST request => '\n' ∉ request.message.msg
  | .message _ message => '\n' ∉ message.msg
  | _ => True

/-- A server without users, posts and lines in its files. -/
structure Blank (c : State) : Prop where
  start : c.Start
  fresh : Fresh c.server
  userinfo : c.server.userinfo = []
  posts : c.server.posts = []
  all_posts : c.server.all_posts = []

variable {s c c' : State} {e : Event} {tr tr' : List (State × Event)}

theorem filed_step (h : Filed tz c.server) (hclean : Clean e) (ho : Outcome tz c e c') : Filed tz c'.server := by
  cases ho with
  | account hm ho =>
      apply h.account _ hm ho
      rintro rfl
      exact hclean
  | addPost hi ha hdata => exact h.post hi hclean hdata
  | enter => exact h
  | joined hlive hi ha hnone hposts => exact h.join ha
  | posted hlive hi ha hsome hdata => exact h.post hi hclean hdata
  | ignored hlive hi ha hsome => exact h
  | leave hlive => exact h

theorem filed_of_run (h : Filed tz s.server) (hrun : (machine tz).Run s tr c) (hclean : ∀ x ∈ tr, Clean x.2) :
    Filed tz c.server := by
  apply hrun.invariant_of (C := fun _ e => Clean e) hclean h
  intro c e c' hc he hstep
  exact filed_step hc he (step_outcome hc.wellFormed hstep)

theorem Outcome.all_posts (ho : Outcome tz c e c') : c.server.all_posts <+: c'.server.all_posts := by
  cases ho with
  | account hm ho => rw [(ho.quiet hm).2]
  | addPost hi ha hdata => exact List.prefix_append _ _
  | posted hlive hi ha hsome hdata => exact List.prefix_append _ _
  | _ => exact List.prefix_rfl

theorem all_posts_of_run (h : WellFormed s.server) (hrun : (machine tz).Run s tr c) :
    c.server.all_posts = s.server.all_posts ++ newPosts s c := by
  have hprefix : s.server.all_posts <+: c.server.all_posts := by
    induction hrun with
    | nil => exact List.prefix_rfl
    | snoc hrun hstep ih => exact ih.trans (step_outcome (wellFormed_of_run h hrun) hstep).all_posts
  exact (List.prefix_iff_eq_append.mp hprefix).symm

/-- The two texts agree exactly if every author of a post which is stored between the reads has logged in before
the first read. -/
theorem getLog_consistent (hs : Blank s) (hrun : (machine tz).Run s tr c) (hrun' : (machine tz).Run c tr' c')
    (hclean : ∀ x ∈ tr ++ tr', Clean x.2) : Consistent tz (getLogReply c c').1 (getLogReply c c').2 ↔
      ∀ post ∈ newPosts c c', c.server.hasUser post.username = true := by
  have hfiled := filed_of_run (.empty hs.fresh hs.userinfo hs.posts hs.all_posts) hrun
    fun x hx => hclean x (List.mem_append_left _ hx)
  have hfiled' := filed_of_run hfiled hrun' fun x hx => hclean x (List.mem_append_right _ hx)
  have hall := all_posts_of_run hfiled.wellFormed hrun'
  constructor
  · intro hcons post hpost
    apply (hfiled.introduced _).mp
    apply hcons.introduced
    refine (hfiled'.authorIn _).mpr ⟨post, ?_, rfl⟩
    rw [hall]
    exact List.mem_append_right _ hpost
  · intro hnew
    apply Consistent.of_introduced
    intro u hu
    obtain ⟨post, hpost, rfl⟩ := (hfiled'.authorIn u).mp hu
    rw [hall] at hpost
    apply (hfiled.introduced _).mpr
    rcases List.mem_append.mp hpost with hold | hnew'
    · exact hfiled.authors post hold
    · exact hnew post hnew'

/-! ## A login and a post between the two reads -/

theorem blank_empty : Blank {} := ⟨startEmpty, ⟨rfl, rfl⟩, rfl, rfl, rfl⟩

def beforeReads : List Event := [loginOf ann, loginOf bob]

def betweenReads : List Event := [.request .ADD_POST { message := postMessage ann 1 }]

theorem clean_reads : ∀ e ∈ beforeReads ++ betweenReads, Clean e := by
  have hann : Word ann := by constructor <;> decide
  have hbob : Word bob := by constructor <;> decide
  have hpost : '\n' ∉ (postMessage ann 1).msg := by decide
  simp only [beforeReads, betweenReads, List.cons_append, List.nil_append, List.forall_mem_cons]
  exact ⟨hann, hbob, hpost, by simp⟩

theorem getLog_consistent_ann : ∃ c c', beforeReads.foldlM (State.step .utc) {} = .ok c ∧
    betweenReads.foldlM (State.step .utc) c = .ok c' ∧ newPosts c c' = [.ofMessage (postMessage ann 1)] ∧
    Consistent .utc (getLogReply c c').1 (getLogReply c c').2 := by
  have hrun : ∃ c, beforeReads.foldlM (State.step .utc) {} = .ok c ∧
      ∃ c', betweenReads.foldlM (State.step .utc) c = .ok c' ∧
        newPosts c c' = [.ofMessage (postMessage ann 1)] ∧ c.server.hasUser ann = true ∧
        (Machine.history (State.step .utc) {} beforeReads).map (·.2) = beforeReads ∧
        (Machine.history (State.step .utc) c betweenReads).map (·.2) = betweenReads :=
    ⟨_, rfl, _, rfl, by decide +kernel, by decide +kernel, rfl, rfl⟩
  obtain ⟨c, hc, c', hc', hnew, hknown, hevents, hevents'⟩ := hrun
  have hclean : ∀ x ∈ Machine.history (State.step .utc) {} beforeReads ++
      Machine.history (State.step .utc) c betweenReads, Clean x.2 := by
    intro x hx
    apply clean_reads
    rw [← hevents, ← hevents', ← List.map_append]
    exact List.mem_map_of_mem hx
  refine ⟨c, c', hc, hc', hnew, ?_⟩
  apply (getLog_consistent blank_empty (Machine.run_of_foldlM hc) (Machine.run_of_foldlM hc') hclean).mpr
  intro post hpost
  rw [hnew, List.mem_singleton] at hpost
  subst hpost
  exact hknown

/-- Ann logs in and posts after the userinfo file has been read. -/
theorem post_without_user : ∃ c', (machine .utc).Run {} (Machine.history (State.step .utc) {}
      [loginOf ann, .request .ADD_POST { message := postMessage ann 1 }]) c' ∧
    ¬ Consistent .utc (getLogReply {} c').1 (getLogReply {} c').2 ∧
    ({} : SNSServer).initializeData .utc (getLogReply {} c').1 (getLogReply {} c').2 =
      .error .nullDereference := by
  have hrun : ∃ c', [loginOf ann, .request .ADD_POST { message := postMessage ann 1 }].foldlM
        (State.step .utc) {} = .ok c' ∧
      ({} : SNSServer).initializeData .utc (getLogReply {} c').1 (getLogReply {} c').2 =
        .error .nullDereference ∧
      ∃ token rest, splitString (getLogReply {} c').2 ['\n', '\n'] = .ok (token :: rest) ∧
        tokenAuthor token = .ok ann :=
    ⟨_, rfl, by rfl, _, _, rfl, by rfl⟩
  obtain ⟨c', hc', hreplay, token, rest, htokens, hauthor⟩ := hrun
  refine ⟨c', Machine.run_of_foldlM hc', ?_, hreplay⟩
  intro hcons
  obtain ⟨line, hline, -⟩ := hcons.introduced ann ⟨_, htokens, token, List.mem_cons_self, hauthor⟩
  exact absurd hline List.not_mem_nil

end Streams

end DistributedSns.Server
