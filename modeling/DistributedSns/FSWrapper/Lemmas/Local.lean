import DistributedSns.FSWrapper.Local

/-!
# `FSLocal` below its base folder

On plain paths a lookup on the disk is one in the store which the base folder holds.
-/

namespace DistributedSns.FSWrapper

open Lib (PathMap)
open Lib.PathMap (isFolder isFolder_eq_true text)

/-! ## Working directories -/

theorem components_absolute {cwd path : Str} (hne : path ≠ []) (h : path.head? ≠ some '/') :
    components (absolute cwd path) = components cwd ++ components path := by
  rw [absolute, if_neg hne, if_neg h, List.append_assoc, List.singleton_append, components_append]

/-- In the root a path stands for itself. -/
theorem absolute_nil (path : Str) :
    components (absolute [] path) = components path ∧ names (absolute [] path) = names path ∧
      (absolute [] path = [] ↔ path = []) := by
  by_cases hne : path = []
  · rw [absolute, if_pos hne, hne]
    exact ⟨rfl, rfl, Iff.rfl⟩
  · by_cases h : path.head? = some '/'
    · rw [absolute, if_neg hne, if_pos h]
      exact ⟨rfl, rfl, Iff.rfl⟩
    · have heq : absolute [] path = '/' :: path := by
        rw [absolute, if_neg hne, if_neg h]
        rfl
      have hlast : ('/' :: path).getLast? = path.getLast? := List.getLast?_cons_of_ne_nil hne
      rw [heq, names, names, components_slash, hlast]
      exact ⟨rfl, rfl, iff_of_false (List.cons_ne_nil _ _) hne⟩

namespace Disk

variable (disk : Disk) (path : Str)

theorem find_absolute : disk.find (absolute [] path) = disk.find path := by
  obtain ⟨-, hnames, hnil⟩ := absolute_nil path
  simp only [find, hnames, hnil]

theorem createDirectory_absolute : disk.createDirectory (absolute [] path) = disk.createDirectory path := by
  rw [createDirectory, (absolute_nil path).1, createDirectory]

theorem createDirectories_absolute : disk.createDirectories (absolute [] path) = disk.createDirectories path := by
  obtain ⟨hcomponents, -, hnil⟩ := absolute_nil path
  simp only [createDirectories, hcomponents, hnil]

theorem openOut_absolute (trunc : Bool) : disk.openOut (absolute [] path) trunc = disk.openOut path trunc := by
  rw [openOut, find_absolute, openOut]

end Disk

namespace FSLocal

theorem createParent_eq (disk : Disk) (file : Str) (createDirectories : Bool) :
    createParent disk file createDirectories =
      if createDirectories then do
        let parentFolderPath ← getParentFolderPath file
        let (disk, _) ← disk.createDirectories parentFolderPath
        return disk
      else .ok disk := by
  simp only [createParent, createParentAt, Disk.createDirectories_absolute]

/-- In the root the path is used as it is. -/
theorem create_eq (fs : FSLocal) (file : Str) (folder createDirectories : Bool) :
    fs.create file folder createDirectories =
      if file = [] then .ok (fs, -1)
      else if folder && createDirectories then do
        let (disk, success) ← fs.disk.createDirectories (fs.getFullPath file)
        return ({ fs with disk }, boolToInt success)
      else do
        let disk ← createParent fs.disk (fs.getFullPath file) createDirectories
        if folder then
          let (disk, success) ← disk.createDirectory (fs.getFullPath file)
          return ({ fs with disk }, boolToInt success)
        else
          match disk.openOut (fs.getFullPath file) true with
          | some (disk, _) => return ({ fs with disk }, boolToInt true)
          | none => return ({ fs with disk }, boolToInt false) := by
  simp only [create, createAt, Disk.createDirectories_absolute, Disk.createDirectory_absolute, Disk.openOut_absolute]
  rfl

theorem write_eq (fs : FSLocal) (file data : Str) (createDirectories overwrite : Bool) :
    fs.write file data createDirectories overwrite = (do
      let disk ← createParent fs.disk (fs.getFullPath file) createDirectories
      match disk.openOut (fs.getFullPath file) overwrite with
      | none => return ({ fs with disk }, -1)
      | some (disk, location) => return ({ fs with disk := disk.append location data }, 1)) := by
  simp only [write, writeAt, Disk.openOut_absolute]
  rfl

end FSLocal

/-! ## Plain paths -/

/-- A name which is no dot and can be given to the machine. -/
structure PlainName (name : Str) : Prop where
  ne_nil : name ≠ []
  slash : '/' ∉ name
  nul : '\x00' ∉ name
  dot : name ≠ ['.']
  dotdot : name ≠ ['.', '.']

structure Plain (path : Str) : Prop where
  ne_nil : components path ≠ []
  names : ∀ name ∈ components path, PlainName name

/-- A slash at the end would ask for a folder. -/
structure PlainFile (path : Str) : Prop extends Plain path where
  slash : path.getLast? ≠ some '/'

theorem PlainName.isComponent {name : Str} (h : PlainName name) : IsComponent name := ⟨h.ne_nil, h.slash⟩

theorem Plain.path_ne_nil {path : Str} (h : Plain path) : path ≠ [] := by
  rintro rfl
  exact h.ne_nil components_nil

theorem components_base {base path : Str} (hbase : PlainName base) :
    components (base ++ ['/'] ++ path) = base :: components path := by
  rw [List.append_assoc, List.singleton_append, components_append, components_of_isComponent hbase.isComponent]
  rfl

theorem names_base {base path : Str} (hbase : PlainName base) (hpath : Plain path) :
    names (base ++ ['/'] ++ path) =
      base :: components path ++ if path.getLast? = some '/' then [['.']] else [] := by
  rw [names, components_base hbase, List.getLast?_append_of_ne_nil _ hpath.path_ne_nil]
  split_ifs
  · rfl
  · rw [List.append_nil]

/-! ## The store in the base folder -/

/-- The folder `base` of the disk holds the store. -/
structure Holds (disk : Disk) (base : Str) (m : PathMap Str Char) : Prop where
  root : isFolder (disk []) = true
  below : ∀ p, disk (base :: p) = m p
  folder : isFolder (m []) = true
  tree : m.Tree

section

variable {disk disk' : Disk} {base : Str} {m : PathMap Str Char} {p q : List Str}

/-- A new entry in a folder, or a file in the place of a file. -/
theorem Holds.put (h : Holds disk base m) (hp : p ≠ []) (hparent : isFolder (m p.dropLast) = true)
    (hentry : isFolder (m p) = false) (e : PathMap.Entry Char) :
    Holds (Function.update disk (base :: p) (some e)) base (Function.update m p (some e)) := by
  constructor
  · rw [Function.update_of_ne (by simp)]
    exact h.root
  · intro q
    by_cases hq : q = p
    · subst hq
      rw [Function.update_self, Function.update_self]
    · rw [Function.update_of_ne (by simpa using hq), Function.update_of_ne hq, h.below]
  · rw [Function.update_of_ne (Ne.symm hp)]
    exact h.folder
  · exact h.tree.update hp hparent hentry e

/-- A name `.` at the end leads to folders only. -/
theorem Disk.resolve_concat_dot {location : List Str} :
    disk.resolve location (p ++ [['.']]) =
      (disk.resolve location p).bind fun l => if isFolder (disk l) then some l else none := by
  induction p generalizing location with
  | nil => simp [Disk.resolve]
  | cons name p ih =>
      rw [List.cons_append, Disk.resolve, Disk.resolve]
      split_ifs
      · exact ih
      · exact ih
      · exact ih
      · rfl

/-- From a folder on the names of a path lead to it if its parent is a folder. -/
theorem Holds.resolve_below (h : Holds disk base m) (hp : ∀ name ∈ p, PlainName name) (hne : p ≠ []) :
    disk.resolve (base :: q) p =
      if isFolder (m (q ++ p).dropLast) then some (base :: (q ++ p)) else none := by
  induction p generalizing q with
  | nil => exact absurd rfl hne
  | cons name p ih =>
      have hname := hp name List.mem_cons_self
      rw [Disk.resolve, h.below, if_neg hname.dot, if_neg hname.dotdot]
      cases p with
      | nil => simp [Disk.resolve]
      | cons name' p =>
          have hrest := ih (q := q ++ [name]) (fun n hn => hp n (List.mem_cons_of_mem _ hn)) (List.cons_ne_nil _ _)
          simp only [List.append_assoc, List.cons_append, List.nil_append] at hrest
          rw [List.cons_append, hrest]
          by_cases hq : isFolder (m q) = true
          · rw [if_pos hq]
          · rw [if_neg hq, if_neg]
            intro hparent
            rw [List.dropLast_append_of_ne_nil (List.cons_ne_nil _ _)] at hparent
            apply hq
            apply h.tree.isFolder_above (r := (name :: name' :: p).dropLast) (by simp)
            rw [isFolder_eq_true.mp hparent]
            rfl

variable (hbase : PlainName base)
include hbase

theorem Holds.resolve (h : Holds disk base m) (hp : ∀ name ∈ p, PlainName name) (hne : p ≠ []) :
    disk.resolve [] (base :: p) = if isFolder (m p.dropLast) then some (base :: p) else none := by
  rw [Disk.resolve, if_pos h.root, if_neg hbase.dot, if_neg hbase.dotdot]
  exact h.resolve_below (q := []) hp hne

theorem Holds.find (h : Holds disk base m) {path : Str} (hpath : PlainFile path) :
    disk.find (base ++ ['/'] ++ path) =
      if isFolder (m (components path).dropLast) then some (base :: components path) else none := by
  rw [Disk.find, if_neg (by simp), names_base hbase hpath.toPlain, if_neg hpath.slash, List.append_nil,
    h.resolve hbase hpath.names hpath.ne_nil]

theorem Holds.find_folder (h : Holds disk base m) {path : Str} (hpath : Plain path)
    (hslash : path.getLast? = some '/') :
    disk.find (base ++ ['/'] ++ path) =
      if isFolder (m (components path)) then some (base :: components path) else none := by
  rw [Disk.find, if_neg (by simp), names_base hbase hpath, if_pos hslash, Disk.resolve_concat_dot,
    h.resolve hbase hpath.names hpath.ne_nil]
  by_cases hparent : isFolder (m (components path).dropLast) = true
  · rw [if_pos hparent, Option.bind_some, h.below]
  · rw [if_neg hparent, Option.bind_none, if_neg]
    intro hfolder
    exact hparent (h.tree.isFolder_dropLast hpath.ne_nil (by rw [isFolder_eq_true.mp hfolder]; rfl))

theorem Holds.status (h : Holds disk base m) {path : Str} (hpath : PlainFile path) :
    disk.status (base ++ ['/'] ++ path) = m (components path) := by
  rw [Disk.status, h.find hbase hpath]
  by_cases hfolder : isFolder (m (components path).dropLast) = true
  · rw [if_pos hfolder, Option.bind_some, h.below]
  · rw [if_neg hfolder, Option.bind_none]
    cases hm : m (components path) with
    | none => rfl
    | some e => exact absurd (h.tree.isFolder_dropLast hpath.ne_nil (by rw [hm]; rfl)) hfolder

theorem Holds.status_folder (h : Holds disk base m) {path : Str} (hpath : Plain path)
    (hslash : path.getLast? = some '/') :
    disk.status (base ++ ['/'] ++ path) = if isFolder (m (components path)) then some .folder else none := by
  rw [Disk.status, h.find_folder hbase hpath hslash]
  split_ifs with hfolder
  · rw [Option.bind_some, h.below, isFolder_eq_true.mp hfolder]
  · rfl

end

/-! ## Making folders -/

section

variable {disk disk' : Disk} {base : Str} {m : PathMap Str Char} {p q : List Str} {created : Bool}

/-- Below a folder the missing folders of a path are made one after the other, unless there is a file. -/
theorem Holds.createDirectoriesFrom (h : Holds disk base m) (hp : ∀ name ∈ p, PlainName name)
    (hq : isFolder (m q) = true) (hfile : ∀ r d, r <+: p → m (q ++ r) ≠ some (.file d)) :
    ∃ disk', disk.createDirectoriesFrom (base :: q) c p =
        .ok (disk', if p = [] then c else (m (q ++ p)).isNone) ∧
      Holds disk' base (m.makeFolders (q ++ p)) := by
  induction p generalizing disk m q c with
  | nil =>
      refine ⟨disk, rfl, ?_⟩
      rw [List.append_nil, PathMap.makeFolders_eq_self h.tree.closed]
      · exact h
      · rw [isFolder_eq_true.mp hq]
        rfl
  | cons name p ih =>
      have hname := hp name List.mem_cons_self
      have hp' : ∀ n ∈ p, PlainName n := fun n hn => hp n (List.mem_cons_of_mem _ hn)
      have hself : q ++ name :: p = q ++ [name] ++ p := by simp
      rw [Disk.createDirectoriesFrom, if_neg hname.dot, if_neg hname.dotdot, List.cons_append, h.below, hself]
      cases hm : m (q ++ [name]) with
      | none =>
          have hput := h.put (p := q ++ [name]) (by simp) (by rwa [List.dropLast_concat]) (by rw [hm]; rfl) .folder
          have hother {r : List Str} (hr : r ≠ []) :
              Function.update m (q ++ [name]) (some .folder) (q ++ [name] ++ r) = m (q ++ [name] ++ r) :=
            Function.update_of_ne (by simpa using hr) _ _
          obtain ⟨disk', hr, hholds⟩ := ih hput hp' (q := q ++ [name]) (c := true)
            (by simp [isFolder]) (by
              intro r d hr
              by_cases hnil : r = []
              · subst hnil
                simp
              · rw [hother hnil, List.append_assoc]
                exact hfile (name :: r) d (by simpa using hr))
          refine ⟨disk', ?_, ?_⟩
          · rw [hr, if_neg (List.cons_ne_nil _ _)]
            by_cases hnil : p = []
            · subst hnil
              simp [hm]
            · rw [if_neg hnil, hother hnil]
          · have hmake : PathMap.makeFolders (Function.update m (q ++ [name]) (some .folder)) (q ++ [name] ++ p) =
                m.makeFolders (q ++ [name] ++ p) := by
              funext r
              by_cases hr : r = q ++ [name]
              · subst hr
                simp [PathMap.makeFolders, hm]
              · simp [PathMap.makeFolders, Function.update_of_ne hr]
            rwa [← hmake]
      | some e =>
          cases e with
          | file d => exact absurd hm (hfile [name] d (by simp))
          | folder =>
              obtain ⟨disk', hr, hholds⟩ := ih h hp' (q := q ++ [name]) (c := false) (by rw [hm]; rfl) (by
                intro r d hr
                rw [List.append_assoc]
                exact hfile (name :: r) d (by simpa using hr))
              refine ⟨disk', ?_, hholds⟩
              rw [hr, if_neg (List.cons_ne_nil _ _)]
              by_cases hnil : p = []
              · subst hnil
                simp [hm]
              · rw [if_neg hnil]

theorem Holds.noFile_of_createDirectoriesFrom (h : Holds disk base m) (hp : ∀ name ∈ p, PlainName name)
    (hq : isFolder (m q) = true) {r : Disk × Bool}
    (hr : disk.createDirectoriesFrom (base :: q) created p = .ok r) :
    ∀ s d, s <+: p → m (q ++ s) ≠ some (.file d) := by
  induction p generalizing disk m q created with
  | nil =>
      intro s d hs
      rw [List.prefix_nil.mp hs, List.append_nil, isFolder_eq_true.mp hq]
      simp
  | cons name p ih =>
      have hname := hp name List.mem_cons_self
      have hp' : ∀ n ∈ p, PlainName n := fun n hn => hp n (List.mem_cons_of_mem _ hn)
      rw [Disk.createDirectoriesFrom, if_neg hname.dot, if_neg hname.dotdot, List.cons_append, h.below] at hr
      -- the entries below the first name
      have hcons (hrest : ∀ s d, s <+: p → m (q ++ [name] ++ s) ≠ some (.file d)) :
          ∀ s d, s <+: name :: p → m (q ++ s) ≠ some (.file d) := by
        intro s d hs
        rcases List.prefix_cons_iff.mp hs with rfl | ⟨s, rfl, hs'⟩
        · rw [List.append_nil, isFolder_eq_true.mp hq]
          simp
        · simpa using hrest s d hs'
      cases hm : m (q ++ [name]) with
      | none =>
          have hput := h.put (p := q ++ [name]) (by simp) (by rwa [List.dropLast_concat]) (by rw [hm]; rfl) .folder
          rw [hm] at hr
          apply hcons
          intro s d hs
          have hrest := ih hput hp' (by simp [isFolder]) hr s d hs
          by_cases hnil : s = []
          · subst hnil
            rw [List.append_nil, hm]
            simp
          · rwa [Function.update_of_ne (by simpa using hnil)] at hrest
      | some e =>
          rw [hm] at hr
          cases e with
          | file d => cases hr
          | folder => exact hcons (ih h hp' (by rw [hm]; rfl) hr)

variable (hbase : PlainName base)
include hbase

theorem Holds.createDirectories (h : Holds disk base m) {path : Str} (hpath : components path = base :: p)
    (hp : ∀ name ∈ p, PlainName name) (hfile : ∀ r d, r <+: p → m r ≠ some (.file d)) :
    ∃ disk', disk.createDirectories path = .ok (disk', (m p).isNone) ∧ Holds disk' base (m.makeFolders p) := by
  obtain ⟨disk', hr, hholds⟩ := h.createDirectoriesFrom hp (q := []) (c := false) h.folder hfile
  refine ⟨disk', ?_, hholds⟩
  have hne : path ≠ [] := by
    rintro rfl
    rw [components_nil] at hpath
    cases hpath
  have hroot := isFolder_eq_true.mp h.folder
  rw [Disk.createDirectories, if_neg hne, hpath, Disk.createDirectoriesFrom, if_neg hbase.dot, if_neg hbase.dotdot,
    List.nil_append, h.below, hroot]
  simp only
  rw [hr, List.nil_append]
  split_ifs with hnil
  · subst hnil
    rw [hroot]
    rfl
  · rfl

theorem Holds.noFile_of_createDirectories (h : Holds disk base m) {path : Str}
    (hpath : components path = base :: p) (hp : ∀ name ∈ p, PlainName name) {r : Disk × Bool}
    (hr : disk.createDirectories path = .ok r) : ∀ s d, s <+: p → m s ≠ some (.file d) := by
  have hne : path ≠ [] := by
    rintro rfl
    rw [components_nil] at hpath
    cases hpath
  rw [Disk.createDirectories, if_neg hne, hpath, Disk.createDirectoriesFrom, if_neg hbase.dot, if_neg hbase.dotdot,
    List.nil_append, h.below, isFolder_eq_true.mp h.folder] at hr
  exact h.noFile_of_createDirectoriesFrom (q := []) hp h.folder hr

/-! ## The steps of `FSLocal` -/

variable {path : Str} (hpath : Plain path)
include hpath

theorem getParentFolderPath_base : ∃ parent, getParentFolderPath (base ++ ['/'] ++ path) = .ok parent ∧
    components parent = base :: (components path).dropLast := by
  have hlen : (base :: components path).length > 1 := by
    have := List.length_pos_iff.mpr hpath.ne_nil
    simp only [List.length_cons]
    omega
  refine ⟨(base :: (components path).dropLast).flatMap (· ++ ['/']), ?_, ?_⟩
  · rw [getParentFolderPath, splitFilepath_eq, components_base hbase, ok_bind, if_pos hlen,
      List.dropLast_cons_of_ne_nil hpath.ne_nil]
    rfl
  · apply components_folders
    intro name hname
    rcases List.mem_cons.mp hname with rfl | hname
    · exact hbase.isComponent
    · exact (hpath.names name (List.mem_of_mem_dropLast hname)).isComponent

theorem Holds.createParent (h : Holds disk base m) {createDirectories : Bool}
    (habove : createDirectories = true → m.NoFileAbove (components path)) :
    ∃ disk', FSLocal.createParent disk (base ++ ['/'] ++ path) createDirectories = .ok disk' ∧
      Holds disk' base (m.prepare (components path) createDirectories) := by
  rw [FSLocal.createParent_eq, PathMap.prepare]
  split_ifs with hc
  · obtain ⟨parent, hparent, hcomponents⟩ := getParentFolderPath_base hbase hpath
    have hnames : ∀ name ∈ (components path).dropLast, PlainName name :=
      fun name hname => hpath.names name (List.mem_of_mem_dropLast hname)
    obtain ⟨disk', hr, hholds⟩ := h.createDirectories hbase hcomponents hnames (habove hc)
    refine ⟨disk', ?_, hholds⟩
    simp only [hparent, ok_bind, hr]
    rfl
  · exact ⟨disk, rfl, h⟩

theorem Holds.noFileAbove_of_createParent (h : Holds disk base m) {createDirectories : Bool} {disk' : Disk}
    (hr : FSLocal.createParent disk (base ++ ['/'] ++ path) createDirectories = .ok disk')
    (hc : createDirectories = true) : m.NoFileAbove (components path) := by
  obtain ⟨parent, hparent, hcomponents⟩ := getParentFolderPath_base hbase hpath
  have hnames : ∀ name ∈ (components path).dropLast, PlainName name :=
    fun name hname => hpath.names name (List.mem_of_mem_dropLast hname)
  rw [FSLocal.createParent_eq, if_pos hc, hparent, ok_bind] at hr
  obtain ⟨r, hr, -⟩ := bind_eq_ok.mp hr
  exact h.noFile_of_createDirectories hbase hcomponents hnames hr

theorem Holds.createDirectory (h : Holds disk base m) :
    disk.createDirectory (base ++ ['/'] ++ path) =
      if isFolder (m (components path).dropLast) then
        match m (components path) with
        | none => .ok (Function.update disk (base :: components path) (some .folder), true)
        | some .folder => .ok (disk, false)
        | some (.file _) => .error .exception
      else .error .exception := by
  rw [Disk.createDirectory, components_base hbase, h.resolve hbase hpath.names hpath.ne_nil]
  by_cases hparent : isFolder (m (components path).dropLast) = true
  · rewrite [if_pos hparent, if_pos hparent]
    dsimp only
    rewrite [h.below]
    cases m (components path) with
    | none => rfl
    | some e => cases e <;> rfl
  · rw [if_neg hparent, if_neg hparent]

theorem Holds.openOut_folder (h : Holds disk base m) (hslash : path.getLast? = some '/') (trunc : Bool) :
    disk.openOut (base ++ ['/'] ++ path) trunc = none := by
  rw [Disk.openOut, h.find_folder hbase hpath hslash]
  by_cases hfolder : isFolder (m (components path)) = true
  · rw [if_pos hfolder]
    simp only [Option.bind_eq_bind, Option.bind_some, h.below, isFolder_eq_true.mp hfolder]
  · rw [if_neg hfolder]
    rfl

omit hbase hpath in
theorem Holds.emptied (h : Holds disk base m) (hp : p ≠ []) :
    Holds (disk.emptied (base :: p)) base (Disk.emptied m p) := by
  constructor
  · rw [Disk.emptied, if_neg (by simp)]
    exact h.root
  · intro q
    simp [Disk.emptied, h.below]
  · rw [Disk.emptied, if_neg (by simp [hp])]
    exact h.folder
  · intro q a hq
    rw [Disk.emptied] at hq ⊢
    split_ifs at hq with hbelow
    · cases hq
    · rw [if_neg]
      · exact h.tree q a hq
      · rintro ⟨hpre, -⟩
        refine hbelow ⟨hpre.trans (List.prefix_append _ _), ?_⟩
        intro heq
        rw [← heq] at hpre
        simpa using hpre.length_le

/-- What is found is removed with everything in it. -/
theorem Holds.removeAll_of_find (h : Holds disk base m) (hm : (m (components path)).isSome)
    (hfind : ∀ {disk' m'}, Holds disk' base m' → m' (components path) = m (components path) →
      disk'.find (base ++ ['/'] ++ path) = some (base :: components path)) :
    ∃ disk', disk.removeAll (base ++ ['/'] ++ path) = .ok (disk', true) ∧
      Holds disk' base (m.remove (components path)).1 := by
  have hlast : (components (base ++ ['/'] ++ path)).getLast? ∉ [none, some ['.'], some ['.', '.']] := by
    obtain ⟨p, name, hp⟩ : ∃ p name, components path = p ++ [name] :=
      ⟨_, _, (List.dropLast_concat_getLast hpath.ne_nil).symm⟩
    have hname := hpath.names name (by rw [hp]; simp)
    rw [components_base hbase, hp, ← List.cons_append, List.getLast?_concat]
    simp [hname.dot, hname.dotdot]
  -- without its contents the folder is still found
  have hemptied := h.emptied hpath.ne_nil
  rw [Disk.removeAll, hfind h rfl]
  simp only [h.below, Option.isNone_iff_eq_none]
  rw [if_neg (Option.isSome_iff_ne_none.mp hm), hfind hemptied (by simp [Disk.emptied]), if_neg (by simp),
    if_neg hlast]
  refine ⟨_, rfl, ?_⟩
  rw [PathMap.remove, if_pos hm]
  constructor
  · rw [Function.update_of_ne (by simp)]
    exact hemptied.root
  · intro p
    by_cases hp : p = components path
    · subst hp
      simp
    · rw [Function.update_of_ne (by simpa using hp), hemptied.below, Disk.emptied]
      simp [hp]
  · simpa [hpath.ne_nil] using h.folder
  · exact h.tree.remove _

/-- A slash at the end hides a file. -/
theorem Holds.removeAll_folder (h : Holds disk base m) (hslash : path.getLast? = some '/') :
    if isFolder (m (components path)) then
      ∃ disk', disk.removeAll (base ++ ['/'] ++ path) = .ok (disk', true) ∧
        Holds disk' base (m.remove (components path)).1
    else disk.removeAll (base ++ ['/'] ++ path) = .ok (disk, false) := by
  split_ifs with hfolder
  · apply h.removeAll_of_find hbase hpath
    · rw [isFolder_eq_true.mp hfolder]
      rfl
    · intro disk' m' h' hm'
      rw [h'.find_folder hbase hpath hslash, hm', if_pos hfolder]
  · rw [Disk.removeAll, h.find_folder hbase hpath hslash, if_neg hfolder]

omit hpath

theorem Holds.openOut (h : Holds disk base m) (hpath : PlainFile path) (trunc : Bool) :
    disk.openOut (base ++ ['/'] ++ path) trunc =
      if isFolder (m (components path).dropLast) then
        match m (components path) with
        | none => some (Function.update disk (base :: components path) (some (.file [])), base :: components path)
        | some .folder => none
        | some (.file old) => some (Function.update disk (base :: components path)
            (some (.file (if trunc then [] else old))), base :: components path)
      else none := by
  rw [Disk.openOut, h.find hbase hpath]
  by_cases hparent : isFolder (m (components path).dropLast) = true
  · rw [if_pos hparent, if_pos hparent]
    simp only [Option.bind_eq_bind, Option.bind_some, h.below]
    cases m (components path) with
    | none => rfl
    | some e => cases e <;> rfl
  · rw [if_neg hparent, if_neg hparent]
    rfl

/-- Nothing is opened in the place of a folder or where the parent is missing. -/
theorem Holds.openOut_eq_none (h : Holds disk base m) (hpath : Plain path)
    (hfail : m (components path) = some .folder ∨ isFolder (m (components path).dropLast) = false) {trunc : Bool} :
    disk.openOut (base ++ ['/'] ++ path) trunc = none := by
  by_cases hslash : path.getLast? = some '/'
  · exact h.openOut_folder hbase hpath hslash trunc
  · rw [h.openOut hbase ⟨hpath, hslash⟩]
    rcases hfail with hp | hparent
    · simp [hp]
    · simp [hparent]

theorem Holds.removeAll (h : Holds disk base m) (hpath : PlainFile path) :
    ∃ disk', disk.removeAll (base ++ ['/'] ++ path) = .ok (disk', (m (components path)).isSome) ∧
      Holds disk' base (m.remove (components path)).1 := by
  cases hm : m (components path) with
  | none =>
      refine ⟨disk, ?_, ?_⟩
      · rw [Disk.removeAll, h.find hbase hpath]
        by_cases hparent : isFolder (m (components path).dropLast) = true
        · rw [if_pos hparent]
          simp only [h.below, hm]
          rfl
        · rw [if_neg hparent]
          rfl
      · rw [PathMap.remove, hm]
        exact h
  | some e =>
      apply h.removeAll_of_find hbase hpath.toPlain
      · rw [hm]
        rfl
      · intro disk' m' h' hm'
        rw [h'.find hbase hpath, if_pos]
        exact h'.tree.isFolder_dropLast hpath.ne_nil (by rw [hm', hm]; rfl)

end

/-! ## `FSLocal` in its base folder -/

theorem Disk.append_update (disk : Disk) (location : List Str) (old data : Str) :
    Disk.append (Function.update disk location (some (.file old))) location data =
      Function.update disk location (some (.file (old ++ data))) := by
  rw [Disk.append, Function.update_self]
  exact Function.update_idem _ _ _

/-- A file which is opened anew and to which nothing is written. -/
theorem Holds.text_put {disk : Disk} {base : Str} {m : PathMap Str Char} {p : List Str} (h : Holds disk base m)
    (hp : p ≠ []) (hparent : isFolder (m p.dropLast) = true) (hentry : isFolder (m p) = false) :
    ∃ m', Holds (Disk.append (Function.update disk (base :: p) (some (.file []))) (base :: p) []) base m' ∧
      text (m' p) = [] ∧ ∀ q, q ≠ p → text (m' q) = text (m q) := by
  refine ⟨Function.update m p (some (.file [])), ?_, ?_, ?_⟩
  · rw [Disk.append_update]
    exact h.put hp hparent hentry (.file [])
  · rw [Function.update_self]
    rfl
  · intro q hq
    rw [Function.update_of_ne hq]

namespace FSLocal

/-- The file system works in its base folder, which holds the store. -/
structure View (l : FSLocal) (base : Str) (m : PathMap Str Char) : Prop where
  baseDir : l.baseDir = base ++ ['/']
  holds : Holds l.disk base m

section

variable {l l' : FSLocal} {base path : Str} {m : PathMap Str Char} {code : Int}

theorem View.fullPath (h : View l base m) (path : Str) : l.getFullPath path = base ++ ['/'] ++ path := by
  rw [getFullPath, h.baseDir]

theorem View.withDisk (h : View l base m) {disk : Disk} {m' : PathMap Str Char} (hholds : Holds disk base m') :
    View { l with disk } base m' := ⟨h.baseDir, hholds⟩

theorem View.write_eq (h : View l base m) (data : Str) (createDirectories overwrite : Bool) :
    l.write path data createDirectories overwrite = (do
      let disk ← createParent l.disk (base ++ ['/'] ++ path) createDirectories
      match disk.openOut (base ++ ['/'] ++ path) overwrite with
      | none => return ({ l with disk }, -1)
      | some (disk, location) => return ({ l with disk := disk.append location data }, 1)) := by
  rw [FSLocal.write_eq, h.fullPath]

/-! ### Texts of files -/

theorem View.content (h : View l base m) (hbase : PlainName base) (hpath : PlainFile path) :
    l.content path = text (m (components path)) := by
  rw [FSLocal.content, h.fullPath, h.holds.status hbase hpath]

/-- Making folders changes no file. -/
theorem View.text_create (h : View l base m) (hbase : PlainName base) {p : List Str} (hne : path ≠ [])
    (hcomponents : components (base ++ ['/'] ++ path) = base :: p) (hp : ∀ name ∈ p, PlainName name)
    (hr : l.create path true true = .ok (l', code)) :
    ∃ m', View l' base m' ∧ ∀ q, text (m' q) = text (m q) := by
  simp only [FSLocal.create_eq, if_neg hne, h.fullPath, Bool.and_self, ↓reduceIte] at hr
  obtain ⟨⟨disk, success⟩, hdisk, hr⟩ := bind_eq_ok.mp hr
  cases hr
  have hfile := h.holds.noFile_of_createDirectories hbase hcomponents hp hdisk
  obtain ⟨disk', hdisk', hholds⟩ := h.holds.createDirectories hbase hcomponents hp hfile
  rw [hdisk, Except.ok.injEq, Prod.mk.injEq] at hdisk'
  obtain ⟨rfl, -⟩ := hdisk'
  exact ⟨_, h.withDisk hholds, PathMap.text_makeFolders p⟩

/-- Writing nothing over a file clears it, and no other file changes. -/
theorem View.text_clear (h : View l base m) (hbase : PlainName base) (hpath : PlainFile path)
    (hr : l.write path [] true true = .ok (l', code)) :
    ∃ m', View l' base m' ∧ text (m' (components path)) = [] ∧
      ∀ q, q ≠ components path → text (m' q) = text (m q) := by
  rw [h.write_eq] at hr
  obtain ⟨disk, hdisk, hr⟩ := bind_eq_ok.mp hr
  have habove := h.holds.noFileAbove_of_createParent hbase hpath.toPlain hdisk
  obtain ⟨disk', hdisk', hholds⟩ := h.holds.createParent hbase hpath.toPlain habove
  obtain rfl : disk' = disk := Except.ok.inj (hdisk'.symm.trans hdisk)
  rw [hholds.openOut hbase hpath] at hr
  generalize hm' : m.prepare (components path) true = m' at hholds hr
  have htext (q : List Str) : text (m' q) = text (m q) := by
    rw [← hm']
    exact PathMap.text_prepare _ _ _
  -- unless the file can be opened there is none
  have hkept (hnone : text (m' (components path)) = []) :
      ∃ m'', View { l with disk := disk' } base m'' ∧ text (m'' (components path)) = [] ∧
        ∀ q, q ≠ components path → text (m'' q) = text (m q) :=
    ⟨m', h.withDisk hholds, hnone, fun q _ => htext q⟩
  by_cases hparent : isFolder (m' (components path).dropLast) = true
  · rw [if_pos hparent] at hr
    by_cases hentry : isFolder (m' (components path)) = true
    · have hp := PathMap.isFolder_eq_true.mp hentry
      rw [hp] at hr
      cases hr
      exact hkept (by rw [hp]; rfl)
    · obtain ⟨m'', hput, hclear, hother⟩ := hholds.text_put hpath.ne_nil hparent (by simpa using hentry)
      refine ⟨m'', ?_, hclear, fun q hq => (hother q hq).trans (htext q)⟩
      cases hp : m' (components path) with
      | none =>
          rw [hp] at hr
          cases hr
          exact h.withDisk hput
      | some e =>
          rw [hp] at hr
          cases e with
          | folder => exact absurd (by rw [hp]; rfl) hentry
          | file old =>
              cases hr
              exact h.withDisk hput
  · rw [if_neg hparent] at hr
    cases hr
    apply hkept
    cases hp : m' (components path) with
    | none => rfl
    | some e => exact absurd (hholds.tree.isFolder_dropLast hpath.ne_nil (by rw [hp]; rfl)) hparent

end

end FSLocal

/-! ## Reading by lines -/

namespace FSLocal

/-- What is missing for the text to be made of lines. -/
def lastNewline (text : Str) : Str := if text = [] ∨ text.getLast? = some '\n' then [] else ['\n']

theorem lastNewline_append (line text : Str) : lastNewline (line ++ '\n' :: text) = lastNewline text := by
  unfold lastNewline
  cases text with
  | nil => simp
  | cons c text =>
      have hlast : (line ++ '\n' :: c :: text).getLast? = (c :: text).getLast? := by
        rw [List.getLast?_append_of_ne_nil _ (List.cons_ne_nil _ _), List.getLast?_cons_cons]
      rw [hlast]
      simp

theorem readLoop_eq {line : Str} (hline : '\n' ∉ line) (text : Str) :
    readLoop line text = line ++ text ++ lastNewline (line ++ text) := by
  induction text generalizing line with
  | nil =>
      have hlast : line.getLast? ≠ some '\n' := fun h => hline (List.mem_of_getLast? h)
      rw [readLoop, List.append_nil, lastNewline]
      simp only [hlast, or_false]
      split_ifs with hnil
      · simp [hnil]
      · rfl
  | cons c text ih =>
      rw [readLoop]
      split_ifs with hc
      · subst hc
        rw [ih List.not_mem_nil, lastNewline_append]
        simp
      · rw [ih (by simp [hline, Ne.symm hc])]
        simp

end FSLocal

end DistributedSns.FSWrapper
