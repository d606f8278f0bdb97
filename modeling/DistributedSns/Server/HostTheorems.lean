import DistributedSns.Server.Host
import DistributedSns.Server.Lemmas.Recovery
import DistributedSns.Server.StartupTheorems

/-!
# Processes which end lose nothing

A server which has been stopped and started any number of times answers as one which has never stopped, and what other
servers on the same disk do in the meantime does not matter.
-/

namespace DistributedSns.Server.Host

open Coordinator (ServerInfo)
open FSWrapper (Disk FSLocal PlainName components components_of_slashFree)
open FSWrapper.FSLocal (View)
open Lib (PathMap Machine)
open Lib.PathMap (text isFolder)
open SNSServer

variable {tz : TimeZone} {m m' : PathMap Str Char} {l l' : FSLocal} {id id' : ServerId} {s s' : SNSServer}

/-! ## Folders -/

/-- The folder with the files of a server. -/
def dir (id : ServerId) : Str := ['c'] ++ str id.clusterid ++ ['s'] ++ str id.serverid

theorem dir_inj (h : dir id = dir id') : id = id' := by
  have hs (n : Int) : 's' ∉ str n := not_mem_str (by decide) (by decide) n
  obtain ⟨clusterid, serverid⟩ := id
  obtain ⟨clusterid', serverid'⟩ := id'
  simp only [dir, List.append_assoc, List.singleton_append] at h
  obtain ⟨hcluster, -, hserver⟩ := (List.append_cons_inj_of_notMem (hs _) (hs _)).mp (List.cons.inj h).2
  rw [str_inj hcluster, str_inj hserver]

theorem localDir_eq (h : ids s.serverInfo = id) : s.localDir = dir id := by
  subst h
  rfl

/-- No file stands where a server makes its folder, and no folder where it makes its files. -/
structure Clean (m : PathMap Str Char) (dir : Str) : Prop where
  noFile : ∀ data, m [dir] ≠ some (.file data)
  userinfo : isFolder (m [dir, USER_INFO]) = false
  posts : isFolder (m [dir, POSTS]) = false

theorem Clean.congr (h : Clean m (dir id)) (hsame : ∀ q, m' (dir id :: q) = m (dir id :: q)) : Clean m' (dir id) := by
  constructor
  · rw [hsame]
    exact h.noFile
  · rw [hsame]
    exact h.userinfo
  · rw [hsame]
    exact h.posts

/-! ## Writing -/

/-- The data are appended to the text of a file, and nothing else changes. -/
structure Appends (m m' : PathMap Str Char) (p : List Str) (data : Str) : Prop where
  other : ∀ q, q ≠ p → m' q = m q
  text : text (m' p) = text (m p) ++ data
  file : isFolder (m' p) = isFolder (m p)

theorem write_ok (h : View l TOP_LEVEL_DIR m) {name : Str} (hname : PlainName name)
    (hdir : isFolder (m [s.localDir]) = true) (hentry : isFolder (m [s.localDir, name]) = false) (data : Str) :
    ∃ l' m', write l (s.localPath ++ name) data = .ok l' ∧ View l' TOP_LEVEL_DIR m' ∧
      Appends m m' [s.localDir, name] data := by
  have hpath := plain_local (s := s) hname
  have hcomponents : components (s.localPath ++ name) = [s.localDir, name] := components_local hname
  have hopen := h.holds.openOut plainName_topLevelDir hpath false
  rw [hcomponents] at hopen
  simp only [List.dropLast_cons_cons, List.dropLast_singleton, hdir, ↓reduceIte] at hopen
  have hput := h.holds.put (p := [s.localDir, name]) (List.cons_ne_nil _ _) hdir hentry
  have hwrite {old : Str} (hold : text (m [s.localDir, name]) = old)
      (hopen : l.disk.openOut (TOP_LEVEL_DIR ++ ['/'] ++ (s.localPath ++ name)) false =
        some (Function.update l.disk [TOP_LEVEL_DIR, s.localDir, name] (some (.file old)),
          [TOP_LEVEL_DIR, s.localDir, name])) :
      ∃ l' m', write l (s.localPath ++ name) data = .ok l' ∧ View l' TOP_LEVEL_DIR m' ∧
        Appends m m' [s.localDir, name] data := by
    refine ⟨{ l with disk := Function.update l.disk [TOP_LEVEL_DIR, s.localDir, name] (some (.file (old ++ data))) },
      Function.update m [s.localDir, name] (some (.file (old ++ data))), ?_, h.withDisk (hput _), ?_⟩
    · rw [write, h.write_eq]
      simp only [FSLocal.createParent_eq, Bool.false_eq_true, ↓reduceIte, ok_bind, hopen, Disk.append_update]
      rfl
    · constructor
      · exact fun q hq => Function.update_of_ne hq _ _
      · rw [Function.update_self, hold]
        rfl
      · rw [Function.update_self, hentry]
        rfl
  cases hm : m [s.localDir, name] with
  | none =>
      rw [hm] at hopen
      exact hwrite (by rw [hm]; rfl) hopen
  | some e =>
      rw [hm] at hopen hentry
      cases e with
      | folder => cases hentry
      | file old => exact hwrite (by rw [hm]; rfl) hopen

theorem writeAdded_ok (h : View l TOP_LEVEL_DIR m) {name : Str} (hname : PlainName name)
    (hdir : isFolder (m [s.localDir]) = true) (hentry : isFolder (m [s.localDir, name]) = false)
    (before after : Str) :
    ∃ l' m', writeAdded l (s.localPath ++ name) before after = .ok l' ∧ View l' TOP_LEVEL_DIR m' ∧
      Appends m m' [s.localDir, name] (after.drop before.length) := by
  rw [writeAdded]
  split_ifs with hnil
  · rw [hnil]
    exact ⟨l, m, rfl, h, fun _ _ => rfl, (List.append_nil _).symm, rfl⟩
  · exact write_ok h hname hdir hentry _

/-- A server whose files hold its texts, after a handler has added to them. -/
structure Added (s s' : SNSServer) : Prop where
  serverInfo : s'.serverInfo = s.serverInfo
  userinfo : s.userinfo <+: s'.userinfo
  posts : s.posts <+: s'.posts

theorem save_ok (h : View l TOP_LEVEL_DIR m) (hids : ids s.serverInfo = id) (hclean : Clean m (dir id))
    (hdir : isFolder (m [dir id]) = true) (hadded : Added s s') (hinfo : text (m [dir id, USER_INFO]) = s.userinfo)
    (hposts : text (m [dir id, POSTS]) = s.posts) :
    ∃ l' m', save l s s' = .ok l' ∧ View l' TOP_LEVEL_DIR m' ∧ Clean m' (dir id) ∧ isFolder (m' [dir id]) = true ∧
      text (m' [dir id, USER_INFO]) = s'.userinfo ∧ text (m' [dir id, POSTS]) = s'.posts ∧
      ∀ id', id' ≠ id → ∀ q, m' (dir id' :: q) = m (dir id' :: q) := by
  have hlocal : s'.localDir = dir id := localDir_eq (by rw [hadded.serverInfo, hids])
  rw [← hlocal] at hclean hdir hinfo hposts
  have hne : [s'.localDir, USER_INFO] ≠ [s'.localDir, POSTS] :=
    fun he => absurd (List.cons.inj (List.cons.inj he).2).1 (by decide)
  obtain ⟨l₁, m₁, hr₁, h₁, ha₁⟩ := writeAdded_ok h plainName_userinfo hdir hclean.userinfo s.userinfo s'.userinfo
  have hdir₁ : isFolder (m₁ [s'.localDir]) = true := by rwa [ha₁.other _ (by simp)]
  have hposts₁ : m₁ [s'.localDir, POSTS] = m [s'.localDir, POSTS] := ha₁.other _ hne.symm
  have hentry₁ : isFolder (m₁ [s'.localDir, POSTS]) = false := by
    rw [hposts₁]
    exact hclean.posts
  obtain ⟨l₂, m₂, hr₂, h₂, ha₂⟩ := writeAdded_ok h₁ plainName_posts hdir₁ hentry₁ s.posts s'.posts
  refine ⟨l₂, m₂, bind_eq_ok.mpr ⟨l₁, hr₁, hr₂⟩, h₂, ?_⟩
  rw [← hlocal]
  refine ⟨⟨?_, ?_, ?_⟩, ?_, ?_, ?_, ?_⟩
  · rw [ha₂.other _ (by simp), ha₁.other _ (by simp)]
    exact hclean.noFile
  · rw [ha₂.other _ hne, ha₁.file]
    exact hclean.userinfo
  · rw [ha₂.file]
    exact hentry₁
  · rwa [ha₂.other _ (by simp)]
  · rw [ha₂.other _ hne, ha₁.text, hinfo]
    exact (List.prefix_iff_eq_append.mp hadded.userinfo)
  · rw [ha₂.text, hposts₁, hposts]
    exact (List.prefix_iff_eq_append.mp hadded.posts)
  · intro id' hid q
    have hother : dir id' ≠ s'.localDir := fun he => hid (dir_inj (he.trans hlocal))
    rw [ha₂.other _ (by simp [hother]), ha₁.other _ (by simp [hother])]

/-! ## Starting -/

/-- The folder of all servers is there already. -/
theorem init_again (h : View l TOP_LEVEL_DIR m) : FSLocal.init TOP_LEVEL_DIR l.disk = l := by
  have hbase := plainName_topLevelDir
  have hcomponents : components TOP_LEVEL_DIR = [TOP_LEVEL_DIR] := components_of_slashFree hbase.slash hbase.ne_nil
  have hcreate : l.disk.createDirectory TOP_LEVEL_DIR = .ok (l.disk, false) := by
    have hfolder := h.holds.below []
    rw [PathMap.isFolder_eq_true.mp h.holds.folder] at hfolder
    rw [Disk.createDirectory, hcomponents, Disk.resolve, if_pos h.holds.root, if_neg hbase.dot, if_neg hbase.dotdot]
    simp only [List.nil_append, Disk.resolve, hfolder]
  rw [FSLocal.init, if_pos hbase.ne_nil, hcreate, ← h.baseDir]

theorem create_ok (h : View l TOP_LEVEL_DIR m) (hclean : Clean m s.localDir) :
    ∃ l' code, l.create s.localPath true true = .ok (l', code) ∧
      View l' TOP_LEVEL_DIR (m.makeFolders [s.localDir]) := by
  have hne : s.localPath ≠ [] := by simp [localPath]
  have hnames : ∀ name ∈ [s.localDir], PlainName name := by simpa using plainName_localDir s
  have hfile : ∀ r data, r <+: [s.localDir] → m r ≠ some (.file data) := by
    intro r data hr
    rw [List.prefix_cons_iff] at hr
    rcases hr with rfl | ⟨r, rfl, hr⟩
    · rw [PathMap.isFolder_eq_true.mp h.holds.folder]
      intro heq
      cases heq
    · rw [List.prefix_nil.mp hr]
      exact hclean.noFile data
  obtain ⟨disk, hdisk, hholds⟩ :=
    h.holds.createDirectories plainName_topLevelDir (components_localPath s) hnames hfile
  refine ⟨{ l with disk }, FSLocal.boolToInt (m [s.localDir]).isNone, ?_, h.withDisk hholds⟩
  simp only [FSLocal.create_eq, if_neg hne, h.fullPath, Bool.and_self, ↓reduceIte]
  exact bind_eq_ok.mpr ⟨_, hdisk, rfl⟩

theorem read_eq (l : FSLocal) (file : Str) : (l.read file [] 0).2 = readLines (l.content file) := by
  rw [FSLocal.read, FSLocal.content]
  cases l.disk.status (l.getFullPath file) with
  | none => rfl
  | some e =>
      cases e with
      | folder => rfl
      | file text => exact readLoop_eq_readLines List.not_mem_nil text

/-- What a server keeps on the disk is all it needs to become the same server again. -/
theorem start_ok (h : View l TOP_LEVEL_DIR m) {serverInfo : ServerInfo} (master : Bool)
    (hclean : Clean m (dir (ids serverInfo))) (hs : Exact tz s)
    (hinfo : text (m [dir (ids serverInfo), USER_INFO]) = s.userinfo)
    (hposts : text (m [dir (ids serverInfo), POSTS]) = s.posts) :
    ∃ l' r, Startup.initializeData tz { serverInfo, master } (.init TOP_LEVEL_DIR l.disk) [] none =
        .ok (l', some r) ∧
      View l' TOP_LEVEL_DIR (m.makeFolders [dir (ids serverInfo)]) ∧ Recovered s r ∧ r.serverInfo = serverInfo := by
  obtain ⟨l', code, hcreate, h'⟩ := create_ok (s := { serverInfo, master }) h hclean
  have hcontent {name : Str} (hname : PlainName name) :
      l'.content (({ serverInfo, master } : SNSServer).localPath ++ name) = text (m [dir (ids serverInfo), name]) := by
    rw [h'.content plainName_topLevelDir (plain_local hname), PathMap.text_makeFolders, components_local hname]
    rfl
  have hcontent_info : l'.content ({ serverInfo, master } : SNSServer).userinfoPath = s.userinfo :=
    (hcontent plainName_userinfo).trans hinfo
  have hcontent_posts : l'.content ({ serverInfo, master } : SNSServer).postsPath = s.posts :=
    (hcontent plainName_posts).trans hposts
  -- the same paths, once the texts have been set
  have hread_info : l'.content
      ({ serverInfo, master, userinfo := s.userinfo, posts := s.posts } : SNSServer).userinfoPath = s.userinfo :=
    hcontent_info
  have hread_posts : l'.content
      ({ serverInfo, master, userinfo := s.userinfo, posts := s.posts } : SNSServer).postsPath = s.posts :=
    hcontent_posts
  have hfresh : Fresh ({ serverInfo, master, userinfo := s.userinfo, posts := s.posts } : SNSServer) := ⟨rfl, rfl⟩
  obtain ⟨r₁, r, hr₁, hr, hrecovered, hserver⟩ := hs.recover hfresh rfl rfl rfl
  refine ⟨l', r, ?_, h', hrecovered, hserver⟩
  rw [Startup.initializeData, init_again h, hcreate, ok_bind]
  simp only [↓reduceIte, read_eq, hcontent_info, hcontent_posts, hread_info, hread_posts]
  exact bind_eq_ok.mpr ⟨r₁, hr₁, bind_eq_ok.mpr ⟨r, hr, rfl⟩⟩

/-! ## Handlers -/

theorem Added.refl (s : SNSServer) : Added s s := ⟨rfl, List.prefix_rfl, List.prefix_rfl⟩

theorem added_account {method : Method} {request : Request} {status : SNSStatus}
    (ho : HandleOutcome s tz request method s' status) : Added s s' := by
  cases ho with
  | loginNew hnew => exact ⟨rfl, List.prefix_append _ _, List.prefix_rfl⟩
  | followNew hk hne hc hm htext => exact ⟨rfl, List.prefix_append _ _, List.prefix_rfl⟩
  | unfollow hk hne hc hm => exact ⟨rfl, List.prefix_append _ _, List.prefix_rfl⟩
  | post hi hdata => exact ⟨rfl, List.prefix_rfl, List.prefix_append _ _⟩
  | _ => exact .refl s

theorem added_step {c c' : Streams.State} {e : Streams.Event} (ho : Streams.Outcome tz c e c') :
    Added c.server c'.server := by
  cases ho with
  | account hm ho => exact added_account ho
  | addPost hi ha hdata => exact ⟨rfl, List.prefix_rfl, List.prefix_append _ _⟩
  | posted hlive hi ha hsome hdata => exact ⟨rfl, List.prefix_rfl, List.prefix_append _ _⟩
  | _ => exact ⟨rfl, List.prefix_rfl, List.prefix_rfl⟩

/-! ## Runs -/

/-- The account requests which the processes with these ids have handled. -/
def requestsOf (id : ServerId) (tr : List (State × Event)) : List (Method × Request) :=
  tr.filterMap fun x => match x.2 with
    | .handle id' (.request method request) => if id' = id then some (method, request) else none
    | _ => none

/-- The network which these requests make. -/
def networkOf (id : ServerId) (tr : List (State × Event)) : Network :=
  (requestsOf id tr).foldl (fun n x => n.request x.1 x.2) {}

/-- What this step makes a post of the process with these ids. -/
def storedIn (id : ServerId) (h : State) : Event → Option Message
  | .handle id' e => if id' = id then (h.processes id).bind fun c => Streams.storedIn c e else none
  | _ => none

/-- The posts which the processes with these ids have stored. -/
def storedBy (id : ServerId) (tr : List (State × Event)) : List Post :=
  tr.filterMap fun x => (storedIn id x.1 x.2).map Post.ofMessage

/-- The files of the server, which shows this network and has these posts. -/
structure Kept (tz : TimeZone) (m : PathMap Str Char) (id : ServerId) (n : Network) (posts : List Post)
    (s : SNSServer) : Prop where
  exact : Exact tz s
  shows : Shows s n
  all_posts : s.all_posts = posts
  userinfo : text (m [dir id, USER_INFO]) = s.userinfo
  text_posts : text (m [dir id, POSTS]) = s.posts

/-- Every server is kept on the disk, whether its process runs or not. -/
structure Inv (tz : TimeZone) (h : State) (m : PathMap Str Char) (tr : List (State × Event)) : Prop where
  view : View h.filesys TOP_LEVEL_DIR m
  clean : ∀ id, Clean m (dir id)
  kept : ∀ id, ∃ s, Kept tz m id (networkOf id tr) (storedBy id tr) s
  running : ∀ id c, h.processes id = some c → Kept tz m id (networkOf id tr) (storedBy id tr) c.server ∧
    ids c.server.serverInfo = id ∧ isFolder (m [dir id]) = true

variable {h h' : State} {e : Event} {tr : List (State × Event)}

theorem Kept.congr {n : Network} {posts : List Post} (hk : Kept tz m id n posts s)
    (hsame : ∀ name, text (m' [dir id, name]) = text (m [dir id, name])) : Kept tz m' id n posts s :=
  ⟨hk.exact, hk.shows, hk.all_posts, (hsame _).trans hk.userinfo, (hsame _).trans hk.text_posts⟩

theorem Kept.recovered {n : Network} {posts : List Post} {r : SNSServer} (hk : Kept tz m id n posts s)
    (hr : Recovered s r) : Kept tz m id n posts r :=
  ⟨hr.exact hk.exact, hr.shows hk.shows, hr.all_posts.trans hk.all_posts, hk.userinfo.trans hr.userinfo.symm,
    hk.text_posts.trans hr.posts.symm⟩

theorem inv_empty : Inv tz {} PathMap.empty [] := by
  have hnil (a : Str) (q : List Str) : (PathMap.empty : PathMap Str Char) (a :: q) = none := rfl
  constructor
  · exact View.init plainName_topLevelDir
  · intro id
    constructor
    · rw [hnil]
      nofun
    · rfl
    · rfl
  · exact fun id => ⟨{}, .empty ⟨rfl, rfl⟩ rfl rfl rfl, .of_fresh ⟨rfl, rfl⟩, rfl, rfl, rfl⟩
  · nofun

theorem networkOf_handle (e : Streams.Event) :
    networkOf id (tr ++ [(h, .handle id e)]) = (networkOf id tr).event e := by
  cases e with
  | request method request => simp [networkOf, requestsOf, Network.event]
  | _ => simp [networkOf, requestsOf, Network.event]

theorem storedBy_handle {c : Streams.State} (hc : h.processes id = some c) (e : Streams.Event) :
    storedBy id (tr ++ [(h, .handle id e)]) =
      storedBy id tr ++ ((Streams.storedIn c e).map Post.ofMessage).toList := by
  have hstored : storedIn id h (.handle id e) = Streams.storedIn c e := by
    rw [storedIn, if_pos rfl, hc, Option.bind_some]
  rw [storedBy, List.filterMap_append, ← storedBy]
  cases hnew : Streams.storedIn c e <;> simp [hstored, hnew]

/-- What is not handled by a process with these ids. -/
theorem unchanged_of_other (he : ∀ e', e ≠ .handle id e') : networkOf id (tr ++ [(h, e)]) = networkOf id tr ∧
    storedBy id (tr ++ [(h, e)]) = storedBy id tr := by
  cases e with
  | handle id' e' =>
      have hne : id' ≠ id := by
        rintro rfl
        exact he e' rfl
      cases e' <;> simp [networkOf, requestsOf, storedBy, storedIn, hne]
  | _ => simp [networkOf, requestsOf, storedBy, storedIn]

/-- The formats of the files presuppose something of what is handled. -/
def DurableEvent (tz : TimeZone) : Event → Prop
  | .handle _ e => Durable tz e
  | _ => True

theorem Inv.start (hinv : Inv tz h m tr) {serverInfo : ServerInfo} {master : Bool}
    (hs : h.step tz (.start serverInfo master) = .ok h') :
    ∃ m', Inv tz h' m' (tr ++ [(h, .start serverInfo master)]) := by
  obtain ⟨s, hk⟩ := hinv.kept (ids serverInfo)
  obtain ⟨l', r, hr, hview, hrecovered, hserver⟩ :=
    start_ok hinv.view master (hinv.clean _) hk.exact hk.userinfo hk.text_posts
  have hsame (id : ServerId) := @unchanged_of_other id h (.start serverInfo master) tr nofun
  have htext (id : ServerId) (name : Str) :
      text (m.makeFolders [dir (ids serverInfo)] [dir id, name]) = text (m [dir id, name]) :=
    PathMap.text_makeFolders _ _
  have hbelow (id : ServerId) (name : Str) :
      m.makeFolders [dir (ids serverInfo)] [dir id, name] = m [dir id, name] := by
    apply PathMap.makeFolders_of_not_above
    intro hle
    simpa using hle.length_le
  have hfolder : isFolder (m.makeFolders [dir (ids serverInfo)] [dir (ids serverInfo)]) = true :=
    PathMap.isFolder_makeFolders (hinv.clean _).noFile
  have hother {id : ServerId} (hne : id ≠ ids serverInfo) :
      m.makeFolders [dir (ids serverInfo)] [dir id] = m [dir id] := by
    apply PathMap.makeFolders_of_not_above
    intro hle
    rw [List.cons_prefix_cons] at hle
    exact hne (dir_inj hle.1)
  rw [State.step] at hs
  split_ifs at hs
  obtain ⟨x, hx, hs⟩ := bind_eq_ok.mp hs
  obtain rfl : (l', some r) = x := Except.ok.inj (hr.symm.trans hx)
  cases hs
  refine ⟨m.makeFolders [dir (ids serverInfo)], hview, ?_, ?_, ?_⟩
  · intro id
    refine ⟨?_, (congrArg isFolder (hbelow id _)).trans (hinv.clean id).userinfo,
      (congrArg isFolder (hbelow id _)).trans (hinv.clean id).posts⟩
    by_cases hid : id = ids serverInfo
    · subst hid
      rw [PathMap.isFolder_eq_true.mp hfolder]
      nofun
    · rw [hother hid]
      exact (hinv.clean id).noFile
  · intro id
    obtain ⟨s', hk'⟩ := hinv.kept id
    rw [(hsame id).1, (hsame id).2]
    exact ⟨s', hk'.congr (htext id)⟩
  · intro id c hc
    replace hc : Function.update h.processes (ids serverInfo) (some { server := r }) id = some c := hc
    rw [(hsame id).1, (hsame id).2]
    by_cases hid : id = ids serverInfo
    · subst hid
      rw [Function.update_self, Option.some.injEq] at hc
      subst hc
      exact ⟨(hk.recovered hrecovered).congr (htext _), congrArg ids hserver, hfolder⟩
    · rw [Function.update_of_ne hid] at hc
      obtain ⟨hk', hids, hdir⟩ := hinv.running id c hc
      refine ⟨hk'.congr (htext id), hids, ?_⟩
      rw [hother hid]
      exact hdir

theorem Inv.handle (hinv : Inv tz h m tr) {e : Streams.Event} (hd : Durable tz e)
    (hs : h.step tz (.handle id e) = .ok h') : ∃ m', Inv tz h' m' (tr ++ [(h, .handle id e)]) := by
  rw [State.step] at hs
  cases hc : h.processes id with
  | none =>
      rw [hc] at hs
      cases hs
  | some c =>
      rw [hc] at hs
      obtain ⟨c', hstep, hs⟩ := bind_eq_ok.mp hs
      obtain ⟨l', hsave, hs⟩ := bind_eq_ok.mp hs
      cases hs
      obtain ⟨hk, hids, hdir⟩ := hinv.running id c hc
      have hwf := hk.exact.wellFormed
      have ho := Streams.step_outcome hwf hstep
      have hadded := added_step ho
      obtain ⟨l'', m', hsave', hview, hclean, hdir', hinfo, hposts, hother⟩ :=
        save_ok hinv.view hids (hinv.clean id) hdir hadded hk.userinfo hk.text_posts
      obtain rfl : l' = l'' := Except.ok.inj (hsave.symm.trans hsave')
      have hkept : Kept tz m' id (networkOf id (tr ++ [(h, .handle id e)])) (storedBy id (tr ++ [(h, .handle id e)]))
          c'.server := by
        rw [networkOf_handle, storedBy_handle hc]
        refine ⟨hk.exact.step hd ho, hk.shows.step hwf ho, ?_, hinfo, hposts⟩
        rw [Streams.all_posts_step hwf hstep, hk.all_posts]
      have hsame {id' : ServerId} (hne : id' ≠ id) := @unchanged_of_other id' h (.handle id e) tr (by
        rintro e' he
        cases he
        exact hne rfl)
      refine ⟨m', hview, ?_, ?_, ?_⟩
      · intro id'
        by_cases hid : id' = id
        · exact hid ▸ hclean
        · exact (hinv.clean id').congr (hother id' hid)
      · intro id'
        by_cases hid : id' = id
        · subst hid
          exact ⟨c'.server, hkept⟩
        · obtain ⟨s, hk'⟩ := hinv.kept id'
          rw [(hsame hid).1, (hsame hid).2]
          exact ⟨s, hk'.congr fun name => congrArg text (hother id' hid _)⟩
      · intro id' d hd'
        replace hd' : Function.update h.processes id (some c') id' = some d := hd'
        by_cases hid : id' = id
        · subst hid
          rw [Function.update_self, Option.some.injEq] at hd'
          subst hd'
          exact ⟨hkept, (congrArg ids hadded.serverInfo).trans hids, hdir'⟩
        · rw [Function.update_of_ne hid] at hd'
          obtain ⟨hk', hids', hfolder⟩ := hinv.running id' d hd'
          rw [(hsame hid).1, (hsame hid).2, hother id' hid]
          exact ⟨hk'.congr fun name => congrArg text (hother id' hid _), hids', hfolder⟩

theorem Inv.stop (hinv : Inv tz h m tr) (hs : h.step tz (.stop id) = .ok h') :
    Inv tz h' m (tr ++ [(h, .stop id)]) := by
  cases hs
  have hsame (id' : ServerId) := @unchanged_of_other id' h (.stop id) tr nofun
  refine ⟨hinv.view, hinv.clean, ?_, ?_⟩
  · intro id'
    rw [(hsame id').1, (hsame id').2]
    exact hinv.kept id'
  · intro id' c hc
    replace hc : Function.update h.processes id none id' = some c := hc
    rw [(hsame id').1, (hsame id').2]
    by_cases hid : id' = id
    · subst hid
      rw [Function.update_self] at hc
      cases hc
    · rw [Function.update_of_ne hid] at hc
      exact hinv.running id' c hc

theorem Inv.step (hinv : Inv tz h m tr) (hd : DurableEvent tz e) (hs : h.step tz e = .ok h') :
    ∃ m', Inv tz h' m' (tr ++ [(h, e)]) := by
  cases e with
  | start serverInfo master => exact hinv.start hs
  | handle id e => exact hinv.handle hd hs
  | stop id => exact ⟨m, hinv.stop hs⟩

theorem inv_of_run (hrun : (machine tz).Run {} tr h) (hd : ∀ x ∈ tr, DurableEvent tz x.2) : ∃ m, Inv tz h m tr := by
  induction hrun with
  | nil => exact ⟨_, inv_empty⟩
  | snoc _ hstep ih =>
      obtain ⟨m, hinv⟩ := ih fun x hx => hd x (List.mem_append_left _ hx)
      exact hinv.step (hd _ (List.mem_append_right _ List.mem_cons_self)) hstep

/-- The server answers `List` as the requests ask for which the processes with these ids have ever handled, and it has
every post which they have stored. -/
structure KeepsAll (id : ServerId) (tr : List (State × Event)) (s : SNSServer) : Prop where
  list (request : Request) : s.list request =
    if request.username ∈ (networkOf id tr).users then .ok ((networkOf id tr).list request.username)
    else .error .nullDereference
  all_posts : s.all_posts = storedBy id tr

theorem Kept.keepsAll (hk : Kept tz m id (networkOf id tr) (storedBy id tr) s) : KeepsAll id tr s :=
  ⟨hk.shows.list hk.exact.wellFormed, hk.all_posts⟩

/-- Whenever processes end and are started again, and whatever other servers do on the same disk: a running process has
all that the processes with its ids have handled, and one which does not run can be started and has it then. -/
theorem stopped_loses_nothing (hrun : (machine tz).Run {} tr h) (hd : ∀ x ∈ tr, DurableEvent tz x.2) :
    (∀ id c, h.processes id = some c → KeepsAll id tr c.server) ∧
    ∀ serverInfo master, h.processes (ids serverInfo) = none →
      ∃ h' c, h.step tz (.start serverInfo master) = .ok h' ∧ h'.processes (ids serverInfo) = some c ∧
        KeepsAll (ids serverInfo) tr c.server := by
  obtain ⟨m, hinv⟩ := inv_of_run hrun hd
  refine ⟨fun id c hc => (hinv.running id c hc).1.keepsAll, ?_⟩
  intro serverInfo master hnone
  obtain ⟨s, hk⟩ := hinv.kept (ids serverInfo)
  obtain ⟨l', r, hr, -, hrecovered, -⟩ :=
    start_ok hinv.view master (hinv.clean _) hk.exact hk.userinfo hk.text_posts
  refine ⟨{ filesys := l', processes := Function.update h.processes (ids serverInfo) (some { server := r }) },
    { server := r }, ?_, Function.update_self .., (hk.recovered hrecovered).keepsAll⟩
  rw [State.step, if_neg (by simp [hnone])]
  exact bind_eq_ok.mpr ⟨_, hr, rfl⟩

def firstServer : ServerInfo := { clusterid := 1, serverid := 1 }

def secondServer : ServerInfo := { clusterid := 1, serverid := 11 }

/-- The first server stops after a user has logged in and followed another one. -/
def stopEvents : List Event :=
  [.start firstServer true, .handle (ids firstServer) (Streams.loginOf ['a']),
    .start secondServer false, .handle (ids secondServer) (Streams.loginOf ['c']),
    .handle (ids firstServer) (Streams.loginOf ['b']), .handle (ids firstServer) (Streams.followOf ['a'] ['b'] 1),
    .stop (ids firstServer), .handle (ids secondServer) (Streams.loginOf ['a'])]

theorem stopped_loses_nothing_stopEvents : ∃ h h' c, stopEvents.foldlM (State.step .utc) {} = .ok h ∧
    h.step .utc (.start firstServer false) = .ok h' ∧ h'.processes (ids firstServer) = some c ∧
    c.server.list { username := ['a'] } = .ok { all_users := [['a'], ['b']], following := [['b']] } := by
  obtain ⟨h, hh, hnone, huser, hlist⟩ : ∃ h, stopEvents.foldlM (State.step .utc) {} = .ok h ∧
      h.processes (ids firstServer) = none ∧
      ['a'] ∈ (networkOf (ids firstServer) (Machine.history (State.step .utc) {} stopEvents)).users ∧
      (networkOf (ids firstServer) (Machine.history (State.step .utc) {} stopEvents)).list ['a'] =
        { all_users := [['a'], ['b']], following := [['b']] } :=
    ⟨_, rfl, by decide +kernel, by decide +kernel, by decide +kernel⟩
  have hdurable : ∀ e ∈ stopEvents, DurableEvent .utc e := by
    have hword (a : Char) (ha : a ≠ ' ' ∧ a ≠ '\n') : Word [a] := by
      constructor <;> simp [ha.1.symm, ha.2.symm]
    simp only [stopEvents, List.forall_mem_cons, DurableEvent]
    exact ⟨trivial, hword 'a' (by decide), trivial, hword 'c' (by decide), hword 'b' (by decide), rfl, trivial,
      hword 'a' (by decide), nofun⟩
  obtain ⟨-, hstart⟩ := stopped_loses_nothing (Machine.run_of_foldlM hh) fun x hx =>
    hdurable x.2 (Machine.mem_of_history hx)
  obtain ⟨h', c, hstep, hc, hkeeps⟩ := hstart firstServer false hnone
  refine ⟨h, h', c, hh, hstep, hc, ?_⟩
  rw [hkeeps.list, if_pos huser, hlist]

end DistributedSns.Server.Host
