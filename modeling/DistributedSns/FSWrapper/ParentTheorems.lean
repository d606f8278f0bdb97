import DistributedSns.FSWrapper.Lemmas.Local

/-!
# The parent folder of a path

`getParentFolderPath` puts the components together again and forgets a slash at the start. What this does to the calls
of `FSLocal` depends on the working directory.
-/

namespace DistributedSns.FSWrapper

open Lib (PathMap)
open Lib.PathMap (isFolder isFolder_eq_true)

/-! ## The name of the parent -/

/-- The path is that of the folder in which the last component of `filepath` stands, from any working directory. -/
structure NamesParent (filepath parentPath : Str) : Prop where
  absolute : parentPath.head? = some '/' ↔ filepath.head? = some '/'
  components : components parentPath = (components filepath).dropLast
  same : ∀ cwd name, (FSWrapper.components filepath).getLast? = some name →
    FSWrapper.components (FSWrapper.absolute cwd (parentPath ++ name)) =
      FSWrapper.components (FSWrapper.absolute cwd filepath)

theorem getParentFolderPath_eq {filepath : Str} (h : 2 ≤ (components filepath).length) :
    getParentFolderPath filepath = .ok ((components filepath).dropLast.flatMap (· ++ ['/'])) := by
  rw [getParentFolderPath, splitFilepath_eq, ok_bind, if_pos (by omega)]
  rfl

theorem isComponent_dropLast (filepath : Str) : ∀ name ∈ (components filepath).dropLast, IsComponent name :=
  fun _ hname => isComponent_of_mem (List.mem_of_mem_dropLast hname)

/-- The parent path never begins with a slash. -/
theorem head?_folders {tokens : List Str} (h : ∀ name ∈ tokens, IsComponent name) (s : Str) :
    tokens ≠ [] → (tokens.flatMap (· ++ ['/']) ++ s).head? ≠ some '/' := by
  intro hne
  obtain ⟨name, tokens, rfl⟩ := List.exists_cons_of_ne_nil hne
  have hname := h name List.mem_cons_self
  obtain ⟨c, name, rfl⟩ := List.exists_cons_of_ne_nil hname.ne_nil
  simp only [List.flatMap_cons, List.cons_append, List.head?_cons, ne_eq, Option.some.injEq]
  rintro rfl
  exact hname.slash List.mem_cons_self

theorem namesParent_iff {filepath : Str} (h : 2 ≤ (components filepath).length) :
    NamesParent filepath ((components filepath).dropLast.flatMap (· ++ ['/'])) ↔ filepath.head? ≠ some '/' := by
  have hcomponent := isComponent_dropLast filepath
  have hne : (components filepath).dropLast ≠ [] := by
    rw [← List.length_pos_iff, List.length_dropLast]
    omega
  have hhead := head?_folders hcomponent
  refine ⟨?_, ?_⟩
  · intro hnames habs
    have hparent := hhead [] hne
    rw [List.append_nil] at hparent
    exact hparent (hnames.absolute.mpr habs)
  · intro hrel
    refine ⟨?_, components_folders hcomponent, ?_⟩
    · have hparent := hhead [] hne
      rw [List.append_nil] at hparent
      exact iff_of_false hparent hrel
    · intro cwd name hlast
      have hpath : filepath ≠ [] := by
        rintro rfl
        simp at h
      have happend : (components filepath).dropLast.flatMap (· ++ ['/']) ++ name ≠ [] := by
        obtain ⟨t, ts, hts⟩ := List.exists_cons_of_ne_nil hne
        rw [hts]
        simp
      have hname := components_of_isComponent (isComponent_of_mem (List.mem_of_getLast? hlast))
      rw [components_absolute happend (hhead name hne), components_absolute hpath hrel,
        components_folders_append hcomponent, hname, List.dropLast_append_getLast? name hlast]

/-! ## Making the folders on the way -/

/-- The disk has a root, and what is on it is in a folder. -/
structure Disk.Rooted (disk : Disk) : Prop where
  root : isFolder (disk []) = true
  tree : disk.Tree

/-- The folders of the first disk are folders of the second. -/
def Disk.KeepsFolders (disk disk' : Disk) : Prop := ∀ p, isFolder (disk p) = true → isFolder (disk' p) = true

section

variable {disk disk' : Disk} {location location' : List Str} {p : List Str}

theorem Disk.KeepsFolders.resolve (h : disk.KeepsFolders disk') (hr : disk.resolve location p = some location') :
    disk'.resolve location p = some location' := by
  induction p generalizing location with
  | nil => exact hr
  | cons name p ih =>
      rw [Disk.resolve] at hr ⊢
      split_ifs at hr with hfolder hdot hdotdot
      · rw [if_pos (h _ hfolder), if_pos hdot]
        exact ih hr
      · rw [if_pos (h _ hfolder), if_neg hdot, if_pos hdotdot]
        exact ih hr
      · rw [if_pos (h _ hfolder), if_neg hdot, if_neg hdotdot]
        exact ih hr

/-- A new entry in a place where there is no folder. -/
theorem Disk.keepsFolders_update (hp : isFolder (disk p) = false) (e : Option (PathMap.Entry Char)) :
    disk.KeepsFolders (Function.update disk p e) := by
  intro q hq
  have hne : q ≠ p := by
    rintro rfl
    rw [hp] at hq
    cases hq
  rwa [Function.update_of_ne hne]

theorem Disk.Rooted.isFolder_dropLast (h : disk.Rooted) (hp : isFolder (disk p) = true) :
    isFolder (disk p.dropLast) = true := by
  by_cases hne : p = []
  · subst hne
    exact hp
  · exact h.tree.isFolder_dropLast hne (by rw [isFolder_eq_true.mp hp]; rfl)

theorem Disk.Rooted.makeFolder (h : disk.Rooted) (hloc : isFolder (disk location) = true) {name : Str}
    (hnone : disk (location ++ [name]) = none) :
    Disk.Rooted (Function.update disk (location ++ [name]) (some .folder)) := by
  have hnot : isFolder (disk (location ++ [name])) = false := by rw [hnone]; rfl
  exact ⟨Disk.keepsFolders_update hnot _ _ h.root,
    h.tree.update (by simp) (by rwa [List.dropLast_concat]) hnot .folder⟩

/-- When all folders have been made the names lead to a folder. -/
theorem Disk.Rooted.createDirectoriesFrom (h : disk.Rooted) (hloc : isFolder (disk location) = true)
    {created created' : Bool} (hr : disk.createDirectoriesFrom location created p = .ok (disk', created')) :
    disk.KeepsFolders disk' ∧
      ∃ location', disk'.resolve location p = some location' ∧ isFolder (disk' location') = true := by
  induction p generalizing disk location created with
  | nil =>
      cases hr
      exact ⟨fun _ hp => hp, location, rfl, hloc⟩
  | cons name p ih =>
      rw [Disk.createDirectoriesFrom] at hr
      split_ifs at hr with hdot hdotdot
      · obtain ⟨hkeeps, l, hl, hfolder⟩ := ih h hloc hr
        exact ⟨hkeeps, l, by rw [Disk.resolve, if_pos (hkeeps _ hloc), if_pos hdot, hl], hfolder⟩
      · obtain ⟨hkeeps, l, hl, hfolder⟩ := ih h (h.isFolder_dropLast hloc) hr
        exact ⟨hkeeps, l, by rw [Disk.resolve, if_pos (hkeeps _ hloc), if_neg hdot, if_pos hdotdot, hl], hfolder⟩
      · cases hentry : disk (location ++ [name]) with
        | none =>
            rw [hentry] at hr
            have hmade := h.makeFolder hloc hentry
            have hself : isFolder (Function.update disk (location ++ [name]) (some .folder) (location ++ [name])) = true := by
              rw [Function.update_self]
              rfl
            obtain ⟨hkeeps, l, hl, hfolder⟩ := ih hmade hself hr
            have hkeeps' : disk.KeepsFolders disk' := fun q hq =>
              hkeeps q (Disk.keepsFolders_update (by rw [hentry]; rfl) _ q hq)
            exact ⟨hkeeps', l, by rw [Disk.resolve, if_pos (hkeeps' _ hloc), if_neg hdot, if_neg hdotdot, hl], hfolder⟩
        | some e =>
            rw [hentry] at hr
            cases e with
            | file d => cases hr
            | folder =>
                obtain ⟨hkeeps, l, hl, hfolder⟩ := ih h (by rw [hentry]; rfl) hr
                exact ⟨hkeeps, l, by rw [Disk.resolve, if_pos (hkeeps _ hloc), if_neg hdot, if_neg hdotdot, hl],
                  hfolder⟩

/-- Opening a file makes and empties files only. -/
theorem Disk.keepsFolders_openOut {path : Str} {trunc : Bool} (h : disk.openOut path trunc = some (disk', location)) :
    disk.KeepsFolders disk' := by
  obtain ⟨l, -, h⟩ := Option.bind_eq_some_iff.mp h
  cases hentry : disk l with
  | none =>
      rw [hentry] at h
      cases h
      exact Disk.keepsFolders_update (by rw [hentry]; rfl) _
  | some e =>
      rw [hentry] at h
      cases e with
      | folder => cases h
      | file old =>
          cases h
          exact Disk.keepsFolders_update (by rw [hentry]; rfl) _

theorem Disk.keepsFolders_append (disk : Disk) (location : List Str) (data : Str) :
    disk.KeepsFolders (disk.append location data) := by
  unfold Disk.append
  split
  · rename_i old hentry
    exact Disk.keepsFolders_update (by rw [hentry]; rfl) _
  · exact fun _ hp => hp

end

/-- The folder in which a call of the working directory `cwd` opens the file is on the disk. -/
def HasParent (cwd : Str) (disk : Disk) (filepath : Str) : Prop :=
  ∃ location, disk.resolve [] (components (absolute cwd filepath)).dropLast = some location ∧
    isFolder (disk location) = true

/-- From every working directory the calls with this full path which open a file have made its folder. -/
def MakesParent (filepath : Str) : Prop :=
  ∀ cwd (fs : FSLocal) file, fs.getFullPath file = filepath → fs.disk.Rooted →
    (file ≠ [] → ∀ fs' success, fs.createAt cwd file false true = .ok (fs', success) →
      HasParent cwd fs'.disk filepath) ∧
    ∀ data overwrite fs' success, fs.writeAt cwd file data true overwrite = .ok (fs', success) →
      HasParent cwd fs'.disk filepath

section

variable {cwd filepath : Str} {disk disk' : Disk}

theorem HasParent.mono (h : HasParent cwd disk filepath) (hkeeps : disk.KeepsFolders disk') :
    HasParent cwd disk' filepath := by
  obtain ⟨location, hl, hfolder⟩ := h
  exact ⟨location, hkeeps.resolve hl, hkeeps location hfolder⟩

theorem hasParent_of_createParentAt (h : 2 ≤ (components filepath).length) (hrel : filepath.head? ≠ some '/')
    (hdisk : disk.Rooted) (hr : FSLocal.createParentAt cwd disk filepath true = .ok disk') :
    HasParent cwd disk' filepath := by
  have hne : (components filepath).dropLast ≠ [] := by
    rw [← List.length_pos_iff, List.length_dropLast]
    omega
  have hpath : filepath ≠ [] := by
    rintro rfl
    simp at h
  have hnames := (namesParent_iff h).mpr hrel
  set parent := (components filepath).dropLast.flatMap (· ++ ['/']) with hparent
  have hparentne : parent ≠ [] := by
    obtain ⟨t, ts, hts⟩ := List.exists_cons_of_ne_nil hne
    rw [hparent, hts]
    simp
  have hparentrel : parent.head? ≠ some '/' := fun habs => hrel (hnames.absolute.mp habs)
  rw [FSLocal.createParentAt, if_pos rfl, getParentFolderPath_eq h, ok_bind] at hr
  obtain ⟨⟨disk₁, created⟩, hmake, hr⟩ := bind_eq_ok.mp hr
  cases hr
  have habsne : absolute cwd parent ≠ [] := by
    rw [absolute, if_neg hparentne, if_neg hparentrel]
    simp
  rw [Disk.createDirectories, if_neg habsne, components_absolute hparentne hparentrel, hnames.components] at hmake
  obtain ⟨-, location, hl, hfolder⟩ := hdisk.createDirectoriesFrom hdisk.root hmake
  refine ⟨location, ?_, hfolder⟩
  rw [components_absolute hpath hrel, List.dropLast_append_of_ne_nil (by rintro hnil; simp [hnil] at h)]
  exact hl

theorem makesParent_of_relative (h : 2 ≤ (components filepath).length) (hrel : filepath.head? ≠ some '/') :
    MakesParent filepath := by
  intro cwd fs file hfull hdisk
  refine ⟨?_, ?_⟩
  · intro hne fs' success hr
    simp only [FSLocal.createAt, hne, hfull, Bool.false_and, Bool.false_eq_true, ↓reduceIte] at hr
    obtain ⟨disk₁, hmake, hr⟩ := bind_eq_ok.mp hr
    have hparent := hasParent_of_createParentAt h hrel hdisk hmake
    cases hopen : disk₁.openOut (absolute cwd filepath) true with
    | none =>
        rw [hopen] at hr
        cases hr
        exact hparent
    | some r =>
        rw [hopen] at hr
        cases hr
        exact hparent.mono (Disk.keepsFolders_openOut hopen)
  · intro data overwrite fs' success hr
    simp only [FSLocal.writeAt, hfull] at hr
    obtain ⟨disk₁, hmake, hr⟩ := bind_eq_ok.mp hr
    have hparent := hasParent_of_createParentAt h hrel hdisk hmake
    cases hopen : disk₁.openOut (absolute cwd filepath) overwrite with
    | none =>
        rw [hopen] at hr
        cases hr
        exact hparent
    | some r =>
        rw [hopen] at hr
        cases hr
        exact (hparent.mono (Disk.keepsFolders_openOut hopen)).mono (Disk.keepsFolders_append _ _ _)

end

/-- The parent path names the parent, and the calls make the folder they open the file in, exactly if the path does
not begin with a slash. -/
theorem getParentFolderPath_iff {filepath : Str} (h : 2 ≤ (components filepath).length) :
    (∃ parentPath, getParentFolderPath filepath = .ok parentPath ∧ NamesParent filepath parentPath ∧
      MakesParent filepath) ↔ filepath.head? ≠ some '/' := by
  refine ⟨?_, ?_⟩
  · rintro ⟨parentPath, hr, hnames, -⟩
    rw [getParentFolderPath_eq h] at hr
    cases hr
    exact (namesParent_iff h).mp hnames
  · intro hrel
    exact ⟨_, getParentFolderPath_eq h, (namesParent_iff h).mpr hrel, makesParent_of_relative h hrel⟩

theorem getParentFolderPath_iff_relative :
    ∃ parentPath, getParentFolderPath "db//posts/x/".toList = .ok parentPath ∧
      NamesParent "db//posts/x/".toList parentPath ∧ MakesParent "db//posts/x/".toList :=
  (getParentFolderPath_iff (by decide)).mpr (by decide)

/-- A disk with the folder `/w` only. -/
def diskW : Disk := Function.update PathMap.empty [['w']] (some .folder)

theorem rooted_diskW : diskW.Rooted := by
  have hempty : Disk.Rooted PathMap.empty := ⟨rfl, PathMap.tree_empty⟩
  exact hempty.makeFolder hempty.root rfl

/-- The parent of `/a/b` is taken for `a/`, and the call in `/w` makes `/w/a`. -/
theorem getParentFolderPath_absolute :
    (¬ ∀ filepath, 2 ≤ (components filepath).length →
      ∃ parentPath, getParentFolderPath filepath = .ok parentPath ∧ NamesParent filepath parentPath) ∧
    ¬ ∀ filepath, 2 ≤ (components filepath).length → MakesParent filepath := by
  refine ⟨?_, ?_⟩
  · intro h
    obtain ⟨parentPath, hr, hnames⟩ := h "/a/b".toList (by decide)
    have hcode : getParentFolderPath "/a/b".toList = .ok "a/".toList := rfl
    rw [hcode] at hr
    cases hr
    exact absurd (hnames.absolute.mpr rfl) (by decide)
  · intro h
    have hmakes := h "/a/b".toList (by decide) "/w".toList ⟨[], diskW⟩ "/a/b".toList rfl rooted_diskW
    obtain ⟨location, hl, hfolder⟩ := hmakes.1 (by decide) _ (-1) rfl
    obtain rfl : [['a']] = location := Option.some.inj hl
    cases hfolder

end DistributedSns.FSWrapper
