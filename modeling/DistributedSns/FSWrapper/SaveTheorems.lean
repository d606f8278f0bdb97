import DistributedSns.FSWrapper.Save
import DistributedSns.FSWrapper.InterchangeTheorems
import DistributedSns.FSWrapper.RenderTheorems

/-!
# A saved tree

Saving either does nothing at all or makes one folder with everything in the tree, which `FSLocal` can then work on.
-/

namespace DistributedSns.FSWrapper

open Lib FSTreeNode
open Lib.PathMap (isFolder isFolder_eq_true)

/-! ## Folders of the disk -/

namespace Disk

theorem resolve_append (disk : Disk) (location a b : List Str) :
    disk.resolve location (a ++ b) = (disk.resolve location a).bind (disk.resolve · b) := by
  induction a generalizing location with
  | nil => rfl
  | cons name a ih =>
      simp only [List.cons_append, resolve]
      split_ifs
      · exact ih location
      · exact ih location.dropLast
      · exact ih (location ++ [name])
      · rfl

/-- A plain name in a folder. -/
theorem resolve_name {disk : Disk} {location : List Str} (h : disk location = some .folder) {name : Str}
    (hname : PlainName name) : disk.resolve location [name] = some (location ++ [name]) := by
  rw [resolve, if_pos (by rw [h]; rfl), if_neg hname.dot, if_neg hname.dotdot, resolve]

/-- Nothing on the first disk is different on the second one. -/
def Extends (disk disk' : Disk) : Prop := ∀ q e, disk q = some e → disk' q = some e

theorem Extends.resolve {disk disk' : Disk} (h : disk.Extends disk') {location location' names : List Str}
    (hr : disk.resolve location names = some location') : disk'.resolve location names = some location' := by
  induction names generalizing location with
  | nil => exact hr
  | cons name names ih =>
      simp only [Disk.resolve] at hr ⊢
      by_cases hf : isFolder (disk location) = true
      · rw [if_pos hf] at hr
        rw [if_pos (by rw [h _ _ (isFolder_eq_true.mp hf)]; rfl)]
        split_ifs at hr ⊢
        · exact ih hr
        · exact ih hr
        · exact ih hr
      · rw [if_neg hf] at hr
        cases hr

/-- The path leads to the folder at this location. -/
structure InDir (disk : Disk) (dir : Str) (location : List Str) : Prop where
  resolve : disk.resolve [] (components dir) = some location
  folder : disk location = some .folder

theorem InDir.mono {disk disk' : Disk} {dir : Str} {location : List Str} (h : InDir disk dir location)
    (he : disk.Extends disk') : InDir disk' dir location := ⟨he.resolve h.resolve, he _ _ h.folder⟩

/-- A slash at the end of the path does not matter for a folder. -/
theorem inDir_of_find {disk : Disk} {dir : Str} {location : List Str} (hfind : disk.find dir = some location)
    (hf : disk location = some .folder) : InDir disk dir location := by
  refine ⟨?_, hf⟩
  rw [find] at hfind
  split_ifs at hfind with hnil
  rw [names] at hfind
  split_ifs at hfind with hslash
  · rw [resolve_append] at hfind
    obtain ⟨location', hr, hdot⟩ := Option.bind_eq_some_iff.mp hfind
    have hfolder : isFolder (disk location') = true := by
      by_contra hnot
      rw [resolve, if_neg hnot] at hdot
      cases hdot
    rw [resolve, if_pos hfolder, if_pos rfl] at hdot
    cases hdot
    exact hr
  · exact hfind

section

variable {disk : Disk} {dir name : Str} {location : List Str}

theorem components_child (hname : PlainName name) : components (dir ++ ['/'] ++ name) = components dir ++ [name] := by
  rw [List.append_assoc, List.singleton_append, components_append, components_of_isComponent hname.isComponent]

theorem InDir.resolve_child (h : InDir disk dir location) (hname : PlainName name) :
    disk.resolve [] (components (dir ++ ['/'] ++ name)) = some (location ++ [name]) := by
  rw [components_child hname, resolve_append, h.resolve, Option.bind_some, resolve_name h.folder hname]

theorem InDir.find_child (h : InDir disk dir location) (hname : PlainName name) :
    disk.find (dir ++ ['/'] ++ name) = some (location ++ [name]) := by
  have hlast : (dir ++ ['/'] ++ name).getLast? ≠ some '/' := by
    rw [List.getLast?_append_of_ne_nil _ hname.ne_nil]
    exact fun he => hname.slash (List.mem_of_getLast? he)
  rw [find, if_neg (by simp), names, if_neg hlast, h.resolve_child hname]

theorem InDir.mkdir (h : InDir disk dir location) (hname : PlainName name) :
    disk.mkdir (dir ++ ['/'] ++ name) = if (disk (location ++ [name])).isSome then (disk, -1)
      else (Function.update disk (location ++ [name]) (some .folder), 0) := by
  rw [Disk.mkdir, createDirectory, h.resolve_child hname]
  cases he : disk (location ++ [name]) with
  | none => simp [he]
  | some e =>
      cases e with
      | folder => simp [he]
      | file data => simp [he]

theorem InDir.writeFile (h : InDir disk dir location) (hname : PlainName name)
    (hnone : disk (location ++ [name]) = none) (data : Str) :
    disk.writeFile (dir ++ ['/'] ++ name) data = Function.update disk (location ++ [name]) (some (.file data)) := by
  rw [Disk.writeFile, openOut, h.find_child hname]
  simp [hnone, append]

end

end Disk

/-! ## Saving a node -/

section

variable {disk : Disk} {p : List Str} {x : PathMap Str Char}

/-- Below a path at which there is nothing everything is new. -/
theorem extends_graft (h : ∀ q, disk (p ++ q) = none) : disk.Extends (disk.graft p x) := by
  intro q e he
  rw [PathMap.graft_of_not_below]
  · exact he
  · rintro ⟨r, rfl⟩
    rw [h r] at he
    cases he

theorem extends_update (h : disk p = none) (e : PathMap.Entry Char) :
    disk.Extends (Function.update disk p (some e)) := by
  intro q e' he
  rw [Function.update_of_ne]
  · exact he
  · rintro rfl
    rw [h] at he
    cases he

end

namespace FSMemory

open Disk (InDir)

/-- In a folder in which there is nothing of its name the node is saved with all that is below it. -/
def Saves (node : FSTreeNode) : Prop :=
  ∀ (disk : Disk) (dir : Str) (location : List Str), InDir disk dir location →
    (∀ q, disk (location ++ node.name :: q) = none) →
    saveHelper node dir disk = (disk.graft (location ++ [node.name]) node.files, .ok ())

theorem saveChildren_eq {children : List (Str × FSTreeNode)} (hsaves : ∀ e ∈ children, Saves e.2 ∧ e.2.name = e.1)
    (hkeys : (children.map Prod.fst).Nodup) {disk : Disk} {dir : Str} {location : List Str}
    (hdir : InDir disk dir location) (hnone : ∀ e ∈ children, ∀ q, disk (location ++ e.1 :: q) = none) :
    saveChildren children dir disk =
      (disk.graftAll location (children.map fun e => (e.1, e.2.files)), .ok ()) := by
  induction children generalizing disk with
  | nil => rfl
  | cons e children ih =>
      obtain ⟨n, child⟩ := e
      obtain ⟨hchild, hname⟩ := hsaves _ List.mem_cons_self
      obtain ⟨hnot, hrest⟩ := List.nodup_cons.mp hkeys
      simp only at hname
      subst hname
      have hempty := hnone _ List.mem_cons_self
      have hfirst := hchild disk dir location hdir hempty
      have hextends : disk.Extends (disk.graft (location ++ [child.name]) child.files) :=
        extends_graft fun q => by simpa using hempty q
      have hbelow := ih (fun e he => hsaves e (List.mem_cons_of_mem _ he)) hrest (hdir.mono hextends) (by
        intro e he q
        rw [PathMap.graft_child_ne]
        · exact hnone e (List.mem_cons_of_mem _ he) q
        · intro heq
          exact hnot (List.mem_map.mpr ⟨e, he, heq⟩))
      rw [saveChildren, hfirst]
      exact hbelow

/-- There is nothing below a file. -/
theorem graft_file (name data : Str) {disk : Disk} {location : List Str} (hnone : ∀ q, disk (location ++ q) = none) :
    disk.graft location (FSTreeNode.files ⟨false, name, data, []⟩) =
      Function.update disk location (some (.file data)) := by
  have hfiles : FSTreeNode.files ⟨false, name, data, []⟩ =
      Function.update (PathMap.sub disk location) [] (some (.file data)) := by
    funext q
    cases q with
    | nil => rfl
    | cons n q =>
        rw [Function.update_of_ne (List.cons_ne_nil n q), PathMap.sub, hnone]
        rfl
  rw [hfiles, PathMap.graft_update, List.append_nil]

/-- What is below a folder are its children. -/
theorem graftAll_children {node : FSTreeNode} (h : node.Ok) (hf : node.folder = true) {disk : Disk}
    {location : List Str} (hnone : ∀ q, disk (location ++ q) = none) :
    PathMap.graftAll (Function.update disk location (some .folder)) location
      (node.children.map fun e => (e.1, e.2.files)) = disk.graft location node.files := by
  have hkeys : ((node.children.map fun e => (e.1, e.2.files)).map Prod.fst).Nodup := by
    rw [List.map_map]
    exact List.pairwise_map.mpr (h.sorted.imp fun hlt => ne_of_lt hlt)
  funext q
  by_cases hq : location <+: q
  · obtain ⟨r, rfl⟩ := hq
    rw [PathMap.graft_append]
    cases r with
    | nil =>
        rw [List.append_nil, PathMap.graftAll_self, Function.update_self, files_nil, entry, if_pos hf]
    | cons n r =>
        rw [files_cons]
        cases hc : node.getChild n with
        | some child =>
            have hmem : (n, child.files) ∈ node.children.map fun e => (e.1, e.2.files) :=
              List.mem_map.mpr ⟨(n, child), Assoc.mem_of_lookup hc, rfl⟩
            exact PathMap.graftAll_of_mem hkeys hmem r
        | none =>
            rw [PathMap.graftAll_of_not_mem, Function.update_of_ne (by simp), hnone]
            · rfl
            · intro e he heq
              obtain ⟨⟨n', child⟩, hmem, rfl⟩ := List.mem_map.mp he
              have hsome := (Assoc.lookup_eq_some_iff_mem h.sorted).mpr hmem
              simp only at heq
              rw [← heq, FSTreeNode.getChild, hsome] at hc
              cases hc
  · rw [PathMap.graft_of_not_below hq, PathMap.graftAll_of_not_below, Function.update_of_ne]
    · rintro rfl
      exact hq List.prefix_rfl
    · intro a ha
      exact hq ((List.prefix_append location [a]).trans ha)

/-- A tree of plain names is saved. -/
theorem saves_of_ok {node : FSTreeNode} (h : node.Ok) (hname : PlainName node.name)
    (hpath : ∀ p, (node.files p).isSome → ∀ t ∈ p, PlainName t) : Saves node := by
  induction h with
  | file name data =>
      intro disk dir location hdir hnone
      have hfree : disk (location ++ [name]) = none := hnone []
      rw [saveHelper]
      simp only [Bool.not_false, ↓reduceIte]
      rw [hdir.writeFile hname hfree, ← graft_file name data fun q => by simpa using hnone q]
  | @folder name children hsorted hkey hnamed hbelow ih =>
      intro disk dir location hdir hnone
      have hok : FSTreeNode.Ok ⟨true, name, [], children⟩ := .folder name hsorted hkey hnamed hbelow
      have hfree : disk (location ++ [name]) = none := hnone []
      have hnone' (q : List Str) : disk (location ++ [name] ++ q) = none := by simpa using hnone q
      have hsaves : ∀ e ∈ children, Saves e.2 ∧ e.2.name = e.1 := by
        intro e he
        have hc : FSTreeNode.getChild ⟨true, name, [], children⟩ e.1 = some e.2 :=
          (Assoc.lookup_eq_some_iff_mem hsorted).mpr he
        have hfiles (p : List Str) : FSTreeNode.files ⟨true, name, [], children⟩ (e.1 :: p) = e.2.files p := by
          rw [files_cons, hc, Option.bind_some]
        have hchild := hnamed e he
        have hplain : PlainName e.1 := hpath [e.1] (by rw [hfiles]; rfl) e.1 (by simp)
        refine ⟨ih e he (hchild ▸ hplain) ?_, hchild⟩
        intro p hp t ht
        exact hpath (e.1 :: p) (by rwa [hfiles]) t (List.mem_cons_of_mem _ ht)
      have hdir' : InDir (Function.update disk (location ++ [name]) (some .folder)) (dir ++ ['/'] ++ name)
          (location ++ [name]) := by
        have hextends := extends_update hfree .folder
        exact ⟨hextends.resolve (hdir.resolve_child hname), Function.update_self ..⟩
      have hchildren := saveChildren_eq hsaves
        (List.pairwise_map.mpr (hsorted.imp fun hlt => ne_of_lt hlt)) hdir' (by
          intro e he q
          rw [Function.update_of_ne (by simp)]
          exact hnone' (e.1 :: q))
      have hsome : ¬ (disk (location ++ [name])).isSome = true := by simp [hfree]
      rw [saveHelper]
      simp only [Bool.not_true, Bool.false_eq_true, ↓reduceIte, hdir.mkdir hname, if_neg hsome]
      exact hchildren.trans (congrArg (·, _) (graftAll_children hok rfl hnone'))

/-! ## Saving the file system -/

variable {coarseMutex : Bool} {cs : List (PathMap.Call Str Char)} {fs : FSMemory} {rs : List (PathMap.Result Char)}
  {disk : Disk} {dir : Str} {location : List Str}

/-- `mkdir` fails before anything has been written. -/
theorem saveHelper_of_isSome {node : FSTreeNode} (hf : node.folder = true) (hdir : InDir disk dir location)
    (hname : PlainName node.name) (h : (disk (location ++ [node.name])).isSome) :
    saveHelper node dir disk = (disk, .error .exception) := by
  obtain ⟨folder, name, data, children⟩ := node
  obtain rfl : folder = true := hf
  rw [saveHelper]
  simp only [Bool.not_true, Bool.false_eq_true, ↓reduceIte, hdir.mkdir hname, if_pos h]
  rfl

theorem saves_of_calls (h : (init coarseMutex).calls cs = .ok (fs, rs))
    (hplain : ∀ c ∈ cs, ∀ name ∈ components c.path, PlainName name) :
    Saves fs.filetree := by
  obtain ⟨hok, hname, -⟩ := calls_root h
  refine saves_of_ok hok (by rw [hname]; decide) ?_
  intro p hp t ht
  obtain ⟨c, hc, hcomponent⟩ := exists_of_name h hp ht
  exact hplain c hc t hcomponent

theorem saveToDisk_of_free (h : (init coarseMutex).calls cs = .ok (fs, rs))
    (hplain : ∀ c ∈ cs, ∀ name ∈ components c.path, PlainName name) (hdisk : PathMap.Closed disk)
    (hfind : disk.find dir = some location) (hfolder : disk location = some .folder)
    (hfree : disk (location ++ [ROOT]) = none) :
    fs.saveToDisk dir disk = (disk.graft (location ++ [ROOT]) fs.files, .ok 0) := by
  obtain ⟨-, hname, -⟩ := calls_root h
  have hstatus : disk.status dir = some .folder := by rw [Disk.status, hfind, Option.bind_some, hfolder]
  have hdir := Disk.inDir_of_find hfind hfolder
  have hnone (q : List Str) : disk (location ++ ROOT :: q) = none := by
    by_contra hne
    have hthere := hdisk (location ++ [ROOT]) q (by simpa using Option.ne_none_iff_isSome.mp hne)
    rw [hfree] at hthere
    cases hthere
  simp only [saveToDisk, hstatus]
  rw [saves_of_calls h hplain disk dir location hdir (by rwa [hname]), hname]
  rfl

/-- After any calls with plain names on their paths the tree is saved into a folder with everything in it, unless there
is something of the root's name in this folder already: then an exception is thrown. In this case, and where the path
does not lead to a folder, nothing is changed. -/
theorem saveToDisk_eq (h : (init coarseMutex).calls cs = .ok (fs, rs))
    (hplain : ∀ c ∈ cs, ∀ name ∈ components c.path, PlainName name) (hdisk : PathMap.Closed disk) (dir : Str) :
    (disk.status dir ≠ some .folder → fs.saveToDisk dir disk = (disk, .ok (-1))) ∧
    ∀ location, disk.find dir = some location → disk location = some .folder → fs.saveToDisk dir disk =
      if (disk (location ++ [ROOT])).isSome then (disk, .error .exception)
      else (disk.graft (location ++ [ROOT]) fs.files, .ok 0) := by
  obtain ⟨-, hname, hroot⟩ := calls_root h
  refine ⟨?_, ?_⟩
  · intro hstatus
    unfold saveToDisk
    cases he : disk.status dir with
    | none => rfl
    | some e =>
        cases e with
        | folder => exact absurd he hstatus
        | file data => rfl
  · intro location hfind hfolder
    have hstatus : disk.status dir = some .folder := by rw [Disk.status, hfind, Option.bind_some, hfolder]
    have hdir := Disk.inDir_of_find hfind hfolder
    by_cases hthere : (disk (location ++ [ROOT])).isSome = true
    · simp only [saveToDisk, hstatus, if_pos hthere]
      rw [saveHelper_of_isSome hroot hdir (by rw [hname]; decide) (by rwa [hname])]
    · rw [if_neg hthere]
      exact saveToDisk_of_free h hplain hdisk hfind hfolder (Option.not_isSome_iff_eq_none.mp hthere)

/-- A file is made with its folder. -/
def saveCalls : List (PathMap.Call Str Char) := [⟨"a/f".toList, .write "x".toList true false⟩]

theorem saveToDisk_eq_saveCalls : ∃ fs rs disk, (init false).calls saveCalls = .ok (fs, rs) ∧
    fs.saveToDisk ['.'] PathMap.empty = (disk, .ok 0) ∧ disk [ROOT, ['a'], ['f']] = some (.file ['x']) := by
  have hrun : ∃ fs rs, (init false).calls saveCalls = .ok (fs, rs) ∧ fs.files [['a'], ['f']] = some (.file ['x']) :=
    ⟨_, _, rfl, rfl⟩
  obtain ⟨fs, rs, hr, hfile⟩ := hrun
  have hsave := (saveToDisk_eq hr (by decide) PathMap.tree_empty.closed ['.']).2 [] rfl rfl
  refine ⟨fs, rs, _, hr, hsave, ?_⟩
  exact (PathMap.graft_append (p := [ROOT]) (q := [['a'], ['f']])).trans hfile

/-! ## Working on a saved tree -/

theorem tree_files {node : FSTreeNode} (h : node.Ok) : node.files.Tree := by
  intro p a hp
  rw [FSTreeNode.files, Option.isSome_map, find?_append] at hp
  cases hn : node.find? p with
  | none =>
      rw [hn] at hp
      cases hp
  | some n =>
      rw [hn, Option.bind_some] at hp
      obtain ⟨child, hchild⟩ := Option.isSome_iff_exists.mp hp
      obtain ⟨next, hc, -⟩ := find?_cons_eq_some hchild
      rw [FSTreeNode.files, hn, Option.map_some, isFolder_entry]
      exact (h.find? hn).folder_of_getChild hc

/-- Without `coarseMutex` nothing is ever locked. -/
theorem fsMutex_of_calls (h : (init false).calls cs = .ok (fs, rs)) : fs.fsMutex = false := by
  have hreach := reachable_calls (.init rfl) h
  refine (hreach.invariant (P := fun fs => fs.coarseMutex = false ∧ fs.fsMutex = false) ?_ ?_).2
  · rintro fs rfl
    exact ⟨rfl, rfl⟩
  · rintro fs c fs' ⟨hcoarse, hfree⟩ ⟨r, hr⟩
    obtain ⟨hcoarse', hmutex⟩ := call_mutex hr
    refine ⟨hcoarse'.trans hcoarse, ?_⟩
    rw [hmutex, hcoarse, hfree]
    simp

/-- `FSLocal` in the folder into which the tree has been saved. -/
theorem view_saved (h : (init coarseMutex).calls cs = .ok (fs, rs)) (hroot : disk [] = some .folder) :
    FSLocal.View (FSLocal.init ROOT (disk.graft [ROOT] fs.files)) ROOT fs.files := by
  obtain ⟨hok, -, hfolder⟩ := calls_root h
  have hentry : fs.files [] = some .folder := by
    rw [FSMemory.files, files_nil, entry, if_pos hfolder]
  have hat (p : List Str) : disk.graft [ROOT] fs.files (ROOT :: p) = fs.files p := PathMap.graft_append
  have hdisk : disk.graft [ROOT] fs.files [] = some .folder := by
    rw [PathMap.graft_of_not_below (by simp), hroot]
  have hcreate : Disk.createDirectory (disk.graft [ROOT] fs.files) ROOT =
      .ok (disk.graft [ROOT] fs.files, false) := by
    have hcomponents : components ROOT = [ROOT] := by decide
    rw [Disk.createDirectory, hcomponents, Disk.resolve_name hdisk (by decide)]
    simp only [List.nil_append, hat, hentry]
  have hinit : FSLocal.init ROOT (disk.graft [ROOT] fs.files) =
      { baseDir := ROOT ++ ['/'], disk := disk.graft [ROOT] fs.files } := by
    rw [FSLocal.init, if_pos (by decide), hcreate]
  rw [hinit]
  exact ⟨rfl, isFolder_eq_true.mpr hdisk, hat, isFolder_eq_true.mpr hentry, tree_files hok⟩

/-- A tree saved into the working directory can be worked on with `FSLocal`: it finds every path, and reads the text of
every file with a newline at its end. The two file systems then go on to return the same exactly as long as the calls
are those they agree on. -/
theorem saved_reopened (h : (init false).calls cs = .ok (fs, rs))
    (hplain : ∀ c ∈ cs, ∀ name ∈ components c.path, PlainName name) (hdisk : PathMap.Closed disk)
    (hroot : disk [] = some .folder) (hfree : disk [ROOT] = none) :
    ∃ saved, fs.saveToDisk ['.'] disk = (saved, .ok 0) ∧
      (∀ path data, PlainFile path →
        (FSLocal.init ROOT saved).fileExists path = (fs.files (components path)).isSome ∧
        (FSLocal.init ROOT saved).read path data 0 =
          match fs.files (components path) with
          | none => (-1, data)
          | some .folder => (-1, [])
          | some (.file text) => (0, text ++ FSLocal.lastNewline text)) ∧
      ∀ cs', (∀ c ∈ cs', Plain c.path) →
        ((∃ l' fs' rs', (FSLocal.init ROOT saved).calls cs' = .ok (l', rs') ∧ fs.calls cs' = .ok (fs', rs')) ↔
          AgreeingCalls fs.files cs') := by
  have hview := view_saved h hroot
  have hname : PlainName ROOT := by decide
  refine ⟨disk.graft [ROOT] fs.files, ?_, ?_, ?_⟩
  · have hfolder : disk.find ['.'] = some [] := by
      rw [Disk.find, if_neg (by simp), names, if_neg (by decide), components_of_slashFree (by decide) (by simp),
        Disk.resolve, if_pos (isFolder_eq_true.mpr hroot), if_pos rfl, Disk.resolve]
    exact saveToDisk_of_free h hplain hdisk hfolder hroot hfree
  · intro path data hpath
    exact ⟨hview.fileExists hname hpath, hview.read_eq hname hpath data 0⟩
  · intro cs' hcs
    exact FSLocal.calls_agree hname hcs hview (fsMutex_of_calls h)

theorem saved_reopened_saveCalls : ∃ fs rs saved, (init false).calls saveCalls = .ok (fs, rs) ∧
    fs.saveToDisk ['.'] PathMap.empty = (saved, .ok 0) ∧
    (FSLocal.init ROOT saved).read "a/f".toList [] 0 = (0, "x\n".toList) := by
  have hrun : ∃ fs rs, (init false).calls saveCalls = .ok (fs, rs) ∧
      fs.files (components "a/f".toList) = some (.file ['x']) := ⟨_, _, rfl, by decide +kernel⟩
  obtain ⟨fs, rs, hr, hfile⟩ := hrun
  obtain ⟨saved, hsave, hread, -⟩ := saved_reopened hr (by decide) PathMap.tree_empty.closed rfl rfl
  refine ⟨fs, rs, saved, hr, hsave, ?_⟩
  rw [(hread "a/f".toList [] (by decide +kernel)).2, hfile]
  rfl

end FSMemory

end DistributedSns.FSWrapper
