import DistributedSns.FSWrapper.InterchangeTheorems
import DistributedSns.Server.Startup

/-!
# A sync which fails

The files of a server are cleared before another server is asked for their new contents.
-/

namespace DistributedSns.Server

open FSWrapper (FSLocal PlainFile PlainName components components_append components_base components_nil
  components_of_slashFree)
open FSWrapper.FSLocal (View)
open Lib (PathMap)
open Lib.PathMap (text)
open SNSServer

variable {tz : TimeZone} {s : SNSServer} {fs fs' : FSLocal} {m : PathMap Str Char}

/-! ## Paths -/

theorem plainName_topLevelDir : PlainName TOP_LEVEL_DIR := by
  constructor <;> decide

theorem plainName_localDir (s : SNSServer) : PlainName s.localDir := by
  constructor
  · simp [localDir]
  · simp [localDir, not_mem_str]
  · simp [localDir, not_mem_str]
  · simp [localDir]
  · simp [localDir]

section

variable {name : Str}

theorem components_local (hname : PlainName name) : components (s.localPath ++ name) = [s.localDir, name] := by
  rw [localPath, components_base (plainName_localDir s), components_of_slashFree hname.slash hname.ne_nil]

theorem plain_local (hname : PlainName name) : PlainFile (s.localPath ++ name) := by
  refine ⟨⟨?_, ?_⟩, ?_⟩
  · simp [components_local hname]
  · rw [components_local hname]
    simp [plainName_localDir s, hname]
  · rw [List.getLast?_append_of_ne_nil _ hname.ne_nil]
    exact fun hlast => hname.slash (List.mem_of_getLast? hlast)

end

theorem plainName_userinfo : PlainName USER_INFO := by
  constructor <;> decide

theorem plainName_posts : PlainName POSTS := by
  constructor <;> decide

theorem userinfo_ne_posts (s : SNSServer) : components s.userinfoPath ≠ components s.postsPath := by
  intro he
  have hinfo : components s.userinfoPath = [s.localDir, USER_INFO] := components_local plainName_userinfo
  have hposts : components s.postsPath = [s.localDir, POSTS] := components_local plainName_posts
  rw [hinfo, hposts] at he
  exact absurd (List.cons.inj (List.cons.inj he).2).1 (by decide)

/-- The folder of the server, with the slash at its end. -/
theorem components_localPath (s : SNSServer) :
    components (TOP_LEVEL_DIR ++ ['/'] ++ s.localPath) = [TOP_LEVEL_DIR, s.localDir] := by
  have hdir := plainName_localDir s
  rw [components_base plainName_topLevelDir, localPath, components_append, components_nil, List.append_nil,
    components_of_slashFree hdir.slash hdir.ne_nil]

/-! ## The local files -/

/-- The local files hold what they held before. -/
structure KeepsFiles (s : SNSServer) (fs fs' : FSLocal) : Prop where
  userinfo : fs'.content s.userinfoPath = fs.content s.userinfoPath
  posts : fs'.content s.postsPath = fs.content s.postsPath

section

variable {syncAddress : Str} {r : Option SNSServer}

theorem view_createLocalPath (h : View fs TOP_LEVEL_DIR m) {code : Int}
    (hr : fs.create s.localPath true true = .ok (fs', code)) :
    ∃ m', View fs' TOP_LEVEL_DIR m' ∧ ∀ q, text (m' q) = text (m q) := by
  apply h.text_create plainName_topLevelDir ?_ (components_localPath s) ?_ hr
  · simp [localPath]
  · simpa using plainName_localDir s

/-- Without another server the files are read only. -/
theorem keepsFiles_of_local (h : View fs TOP_LEVEL_DIR m) {logReply : Option (Str × Str)}
    (hr : Startup.initializeData tz s fs [] logReply = .ok (fs', r)) : KeepsFiles s fs fs' := by
  have hinfo : PlainFile s.userinfoPath := plain_local plainName_userinfo
  have hposts : PlainFile s.postsPath := plain_local plainName_posts
  obtain ⟨⟨fs₁, code₁⟩, hr₁, hr⟩ := bind_eq_ok.mp hr
  obtain ⟨m₁, h₁, htext⟩ := view_createLocalPath h hr₁
  simp only [↓reduceIte] at hr
  obtain ⟨s₁, -, hr⟩ := bind_eq_ok.mp hr
  obtain ⟨s₂, -, hr⟩ := bind_eq_ok.mp hr
  cases hr
  constructor
  · rw [h₁.content plainName_topLevelDir hinfo, h.content plainName_topLevelDir hinfo, htext]
  · rw [h₁.content plainName_topLevelDir hposts, h.content plainName_topLevelDir hposts, htext]

/-- The process exits after both files have been cleared. -/
theorem content_of_failedSync (h : View fs TOP_LEVEL_DIR m) (hsync : syncAddress ≠ [])
    (hr : Startup.initializeData tz s fs syncAddress none = .ok (fs', r)) :
    r = none ∧ fs'.content s.userinfoPath = [] ∧ fs'.content s.postsPath = [] := by
  have hinfo : PlainFile s.userinfoPath := plain_local plainName_userinfo
  have hposts : PlainFile s.postsPath := plain_local plainName_posts
  have hne := userinfo_ne_posts s
  obtain ⟨⟨fs₁, code₁⟩, hr₁, hr⟩ := bind_eq_ok.mp hr
  simp only [hsync, ↓reduceIte] at hr
  obtain ⟨⟨fs₂, code₂⟩, hr₂, hr⟩ := bind_eq_ok.mp hr
  obtain ⟨⟨fs₃, code₃⟩, hr₃, hr⟩ := bind_eq_ok.mp hr
  cases hr
  obtain ⟨m₁, h₁, -⟩ := view_createLocalPath h hr₁
  obtain ⟨m₂, h₂, hclear, -⟩ := h₁.text_clear plainName_topLevelDir hinfo hr₂
  obtain ⟨m₃, h₃, hclear', hkept⟩ := h₂.text_clear plainName_topLevelDir hposts hr₃
  refine ⟨rfl, ?_, ?_⟩
  · rw [h₃.content plainName_topLevelDir hinfo, hkept _ hne, hclear]
  · rw [h₃.content plainName_topLevelDir hposts, hclear']

/-- After a failed sync the files hold what they held before if and only if they held nothing. -/
theorem keepsFiles_iff (h : View fs TOP_LEVEL_DIR m) (hsync : syncAddress ≠ [])
    (hr : Startup.initializeData tz s fs syncAddress none = .ok (fs', r)) :
    KeepsFiles s fs fs' ↔ fs.content s.userinfoPath = [] ∧ fs.content s.postsPath = [] := by
  obtain ⟨-, hinfo, hposts⟩ := content_of_failedSync h hsync hr
  constructor
  · intro hkeeps
    exact ⟨hkeeps.userinfo.symm.trans hinfo, hkeeps.posts.symm.trans hposts⟩
  · rintro ⟨hinfo', hposts'⟩
    exact ⟨hinfo.trans hinfo'.symm, hposts.trans hposts'.symm⟩

end

/-! ## A slave which cannot reach its master -/

def emptyDisk : FSLocal := .init TOP_LEVEL_DIR PathMap.empty

theorem keepsFiles_emptyDisk : ∃ fs', Startup.initializeData .utc {} emptyDisk ['x'] none = .ok (fs', none) ∧
    KeepsFiles {} emptyDisk fs' := by
  obtain ⟨fs', hr, hinfo, hposts⟩ : ∃ fs', Startup.initializeData .utc {} emptyDisk ['x'] none = .ok (fs', none) ∧
      emptyDisk.content ({} : SNSServer).userinfoPath = [] ∧ emptyDisk.content ({} : SNSServer).postsPath = [] :=
    ⟨_, rfl, by decide +kernel, by decide +kernel⟩
  have hview : View emptyDisk TOP_LEVEL_DIR PathMap.empty := View.init plainName_topLevelDir
  exact ⟨fs', hr, (keepsFiles_iff hview (by decide) hr).mpr ⟨hinfo, hposts⟩⟩

/-- The files have a user and a post, and neither of them afterwards. -/
theorem failed_sync_clears : ∃ fs₁ fs₂ fs',
    emptyDisk.write ({} : SNSServer).userinfoPath (userLine ['a']) true false = .ok (fs₁, 1) ∧
      fs₁.write ({} : SNSServer).postsPath "T 1970-1-1T0:0:0\nU a\nW b\n\n".toList true false = .ok (fs₂, 1) ∧
      Startup.initializeData .utc {} fs₂ ['x'] none = .ok (fs', none) ∧
      fs₂.content ({} : SNSServer).userinfoPath = userLine ['a'] ∧
      fs'.content ({} : SNSServer).userinfoPath = [] ∧ fs'.content ({} : SNSServer).postsPath = [] :=
  ⟨_, _, _, rfl, rfl, rfl, by decide +kernel, by decide +kernel, by decide +kernel⟩

end DistributedSns.Server
