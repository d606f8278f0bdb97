import DistributedSns.FSWrapper.Lemmas.Local
import DistributedSns.FSWrapper.MemoryTheorems

/-!
# Where the two file systems are interchangeable

On plain paths `FSLocal` works on the same store as `FSMemory`, but it returns `1` for a write, makes an existing
file anew, throws where a file stands in the way, and reads a file from its start and by lines. A slash at the end of a
path hides files from it.
-/

namespace DistributedSns.FSWrapper

open Lib (PathMap)
open Lib.PathMap (isFolder isFolder_eq_true)

/-! ## Where the results agree -/

/-- The calls for which both file systems return the same. -/
def Agrees (m : PathMap Str Char) (c : PathMap.Call Str Char) : Prop :=
  let p := components c.path
  match c.op with
  | .create folder createDirectories =>
    (createDirectories = true → m.NoFileAbove p) ∧
      if folder = false ∧ c.path.getLast? = some '/' then
        (m p).isSome ∨ createDirectories = false ∧ isFolder (m p.dropLast) = false
      else
        (∀ d, m p ≠ some (.file d)) ∧ (folder = true → createDirectories = false → isFolder (m p.dropLast) = true)
  | .write _ createDirectories _ =>
    m p = some .folder ∨ m p = none ∧ createDirectories = false ∧ isFolder (m p.dropLast) = false
  | .read data offset =>
    match m p with
    | none => True
    | some .folder => data = []
    | some (.file d) =>
      if c.path.getLast? = some '/' then ¬ (0 ≤ offset ∧ offset ≤ d.length)
      else offset = 0 ∧ (d = [] ∨ d.getLast? = some '\n')
  | .fileExists => c.path.getLast? = some '/' → ∀ d, m p ≠ some (.file d)
  | .remove => c.path.getLast? = some '/' → ∀ d, m p ≠ some (.file d)

def AgreeingCalls : PathMap Str Char → List (PathMap.Call Str Char) → Prop
  | _, [] => True
  | m, c :: cs => Agrees m c ∧ AgreeingCalls (m.call (toComponents c)).1 cs

/-! ## Reading by lines -/

namespace FSLocal

theorem lastNewline_eq_nil {text : Str} : lastNewline text = [] ↔ text = [] ∨ text.getLast? = some '\n' := by
  unfold lastNewline
  split_ifs with h
  · simp [h]
  · simp [h]

/-- Reading a file by lines from its start and reading it from an offset. -/
theorem readFile_iff (text data : Str) (offset : Int) :
    ((0 : Int), text ++ lastNewline text) =
        (if 0 ≤ offset ∧ offset ≤ text.length then (0, text.drop offset.toNat) else (-1, data)) ↔
      offset = 0 ∧ (text = [] ∨ text.getLast? = some '\n') := by
  rw [← lastNewline_eq_nil]
  constructor
  · intro heq
    split_ifs at heq with hrange
    · have hlen := congrArg List.length (Prod.mk.inj heq).2
      simp only [List.length_append, List.length_drop] at hlen
      exact ⟨by omega, List.length_eq_zero_iff.mp (by omega)⟩
    · cases (Prod.mk.inj heq).1
  · rintro ⟨rfl, hlast⟩
    rw [hlast, if_pos (by simp)]
    simp

/-! ## Single calls -/

section

variable {l l' : FSLocal} {base path : Str} {m : PathMap Str Char}

variable (hbase : PlainName base) (hpath : Plain path)
include hbase hpath

/-! ### Create -/

omit hbase in
theorem View.create_eq (h : View l base m) (folder createDirectories : Bool) :
    l.create path folder createDirectories =
      if folder && createDirectories then do
        let (disk, success) ← l.disk.createDirectories (base ++ ['/'] ++ path)
        return ({ l with disk }, boolToInt success)
      else do
        let disk ← createParent l.disk (base ++ ['/'] ++ path) createDirectories
        if folder then
          let (disk, success) ← disk.createDirectory (base ++ ['/'] ++ path)
          return ({ l with disk }, boolToInt success)
        else
          match disk.openOut (base ++ ['/'] ++ path) true with
          | some (disk, _) => return ({ l with disk }, boolToInt true)
          | none => return ({ l with disk }, boolToInt false) := by
  rewrite [FSLocal.create_eq, if_neg hpath.path_ne_nil, h.fullPath]
  rfl

/-- Making a folder with the folders above it. -/
theorem View.create_folders (h : View l base m) (habove : m.NoFileAbove (components path))
    (hfile : ∀ d, m (components path) ≠ some (.file d)) :
    ∃ l', l.create path true true = .ok (l', (m.create (components path) true true).2) ∧
      View l' base (m.create (components path) true true).1 := by
  have hprefix : ∀ q d, q <+: components path → m q ≠ some (.file d) := by
    intro q d hq
    rcases PathMap.prefix_iff_eq_or_dropLast.mp hq with rfl | hq
    · exact hfile d
    · exact habove q d hq
  obtain ⟨disk', hr, hholds⟩ := h.holds.createDirectories hbase (components_base hbase) hpath.names hprefix
  rw [h.create_eq hpath]
  simp only [Bool.and_self, ↓reduceIte, hr, ok_bind]
  have htree := h.holds.tree
  cases hp : m (components path) with
  | none =>
      have hparent := PathMap.isFolder_makeFolders fun d => habove _ d List.prefix_rfl
      rw [PathMap.makeFolders_of_none hpath.ne_nil hp] at hholds
      simp only [PathMap.create, PathMap.prepare, hp, hparent, ↓reduceIte, Option.isNone_none, Bool.and_self]
      exact ⟨_, rfl, h.withDisk hholds⟩
  | some e =>
      rw [PathMap.makeFolders_eq_self htree.closed (by rw [hp]; rfl)] at hholds
      simp only [PathMap.create, hp, Option.isNone_some, Bool.false_and, Bool.false_eq_true, ↓reduceIte]
      exact ⟨_, rfl, h.withDisk hholds⟩

/-- Making a folder in an existing one. -/
theorem View.create_folder (h : View l base m) (hfile : ∀ d, m (components path) ≠ some (.file d))
    (hparent : isFolder (m (components path).dropLast) = true) :
    ∃ l', l.create path true false = .ok (l', (m.create (components path) true false).2) ∧
      View l' base (m.create (components path) true false).1 := by
  have hcreate := h.holds.createDirectory hbase hpath
  rw [if_pos hparent] at hcreate
  rw [h.create_eq hpath]
  simp only [Bool.and_false, Bool.false_eq_true, ↓reduceIte, createParent_eq, ok_bind, hcreate]
  cases hp : m (components path) with
  | none =>
      simp only [PathMap.create, PathMap.prepare, hp, hparent, Bool.false_eq_true, ↓reduceIte, Option.isNone_none,
        Bool.and_self]
      exact ⟨_, rfl, h.withDisk (h.holds.put hpath.ne_nil hparent (by rw [hp]; rfl) .folder)⟩
  | some e =>
      cases e with
      | file d => exact absurd hp (hfile d)
      | folder =>
          simp only [PathMap.create, hp, Option.isNone_some, Bool.false_and, Bool.false_eq_true, ↓reduceIte]
          exact ⟨_, rfl, h⟩

/-- No file is made where the path asks for a folder. -/
theorem View.create_file_folder (h : View l base m) (hslash : path.getLast? = some '/') {createDirectories : Bool}
    (habove : createDirectories = true → m.NoFileAbove (components path)) :
    ∃ l', l.create path false createDirectories = .ok (l', -1) ∧
      View l' base (m.prepare (components path) createDirectories) := by
  obtain ⟨disk', hr, hholds⟩ := h.holds.createParent hbase hpath habove
  rw [h.create_eq hpath]
  simp only [Bool.false_and, Bool.false_eq_true, ↓reduceIte, hr, ok_bind, hholds.openOut_folder hbase hpath hslash]
  exact ⟨_, rfl, h.withDisk hholds⟩

omit hpath in
/-- Making a file. -/
theorem View.create_file (h : View l base m) (hpath : PlainFile path) {createDirectories : Bool}
    (habove : createDirectories = true → m.NoFileAbove (components path))
    (hfile : ∀ d, m (components path) ≠ some (.file d)) :
    ∃ l', l.create path false createDirectories =
        .ok (l', (m.create (components path) false createDirectories).2) ∧
      View l' base (m.create (components path) false createDirectories).1 := by
  obtain ⟨disk', hr, hholds⟩ := h.holds.createParent hbase hpath.toPlain habove
  have hopen := hholds.openOut hbase hpath true
  rw [PathMap.prepare_self hpath.ne_nil] at hopen
  rw [h.create_eq hpath.toPlain]
  simp only [Bool.false_and, Bool.false_eq_true, ↓reduceIte, hr, ok_bind, hopen]
  cases hp : m (components path) with
  | none =>
      by_cases hparent : isFolder (m.prepare (components path) createDirectories (components path).dropLast) = true
      · simp only [PathMap.create, hp, hparent, Bool.false_eq_true, ↓reduceIte, Option.isNone_none, Bool.and_self]
        refine ⟨_, rfl, h.withDisk (hholds.put hpath.ne_nil hparent ?_ (.file []))⟩
        rw [PathMap.prepare_self hpath.ne_nil, hp]
        rfl
      · have hc := PathMap.createDirectories_eq_false habove hparent
        subst hc
        simp only [PathMap.create, hp, hparent, Bool.false_eq_true, ↓reduceIte, Option.isNone_none, Bool.and_false]
        exact ⟨_, rfl, h.withDisk hholds⟩
  | some e =>
      cases e with
      | file d => exact absurd hp (hfile d)
      | folder =>
          rw [h.holds.tree.prepare_of_isSome hpath.ne_nil (by rw [hp]; rfl)] at hholds
          simp only [PathMap.create, hp, Option.isNone_some, Bool.false_and, Bool.false_eq_true, ↓reduceIte, ite_self]
          exact ⟨_, rfl, h.withDisk hholds⟩

omit hbase hpath in
/-- Where nothing can be made nothing is changed. -/
theorem create_of_fails (hm : m.Tree) {p : List Str} (hne : p ≠ []) {createDirectories : Bool}
    (hfail : (m p).isSome ∨ createDirectories = false ∧ isFolder (m p.dropLast) = false) (folder : Bool) :
    m.prepare p createDirectories = m ∧ m.create p folder createDirectories = (m, -1) := by
  rcases hfail with hp | ⟨rfl, hparent⟩
  · refine ⟨hm.prepare_of_isSome hne hp _, ?_⟩
    simp [PathMap.create, Option.isNone_eq_false_iff.mpr hp]
  · exact ⟨rfl, by simp [PathMap.create, PathMap.prepare, hparent]⟩

omit hbase hpath in
theorem create_fails {p : List Str} {folder createDirectories : Bool}
    (habove : createDirectories = true → m.NoFileAbove p) (hcode : (m.create p folder createDirectories).2 = -1) :
    (m p).isSome ∨ createDirectories = false ∧ isFolder (m p.dropLast) = false := by
  rw [PathMap.create] at hcode
  split_ifs at hcode with hmade
  · rw [Bool.and_eq_true, not_and] at hmade
    cases hp : m p with
    | some e => exact Or.inl rfl
    | none =>
        have hparent := hmade (by rw [hp]; rfl)
        obtain rfl := PathMap.createDirectories_eq_false habove hparent
        exact Or.inr ⟨rfl, Bool.eq_false_iff.mpr hparent⟩

/-- A file which is made anew shows in the result, and so does one which cannot be made. -/
theorem View.create_file_agrees (h : View l base m) {createDirectories : Bool} {code : Int}
    (hr : l.create path false createDirectories = .ok (l', code)) :
    (createDirectories = true → m.NoFileAbove (components path)) ∧
      (code = (m.create (components path) false createDirectories).2 →
        Agrees m ⟨path, .create false createDirectories⟩) := by
  rw [h.create_eq hpath] at hr
  simp only [Bool.false_and, Bool.false_eq_true, ↓reduceIte] at hr
  obtain ⟨disk, hdisk, hr⟩ := bind_eq_ok.mp hr
  have habove := h.holds.noFileAbove_of_createParent hbase hpath hdisk
  refine ⟨habove, fun hcode => ⟨habove, ?_⟩⟩
  obtain ⟨disk', hdisk', hholds⟩ := h.holds.createParent hbase hpath habove
  rw [hdisk, Except.ok.injEq] at hdisk'
  subst hdisk'
  by_cases hslash : path.getLast? = some '/'
  · rw [if_pos ⟨rfl, hslash⟩]
    rw [hholds.openOut_folder hbase hpath hslash] at hr
    cases hr
    exact create_fails habove hcode.symm
  · rw [if_neg (by simp [hslash])]
    refine ⟨fun d hd => ?_, by simp⟩
    rw [h.holds.tree.prepare_of_isSome hpath.ne_nil (by rw [hd]; rfl)] at hholds
    have hparent := hholds.tree.isFolder_dropLast hpath.ne_nil (by rw [hd]; rfl)
    rw [hholds.openOut hbase ⟨hpath, hslash⟩, if_pos hparent, hd] at hr
    cases hr
    simp [PathMap.create, hd, boolToInt] at hcode

/-- A call which makes a folder returns only where nothing stands in the way. -/
theorem View.create_folder_agrees (h : View l base m) {createDirectories : Bool} {code : Int}
    (hr : l.create path true createDirectories = .ok (l', code)) :
    Agrees m ⟨path, .create true createDirectories⟩ := by
  rw [h.create_eq hpath] at hr
  rw [Agrees]
  simp only
  rw [if_neg (by simp)]
  cases createDirectories with
  | true =>
      simp only [Bool.and_self, ↓reduceIte] at hr
      obtain ⟨r, hdisk, -⟩ := bind_eq_ok.mp hr
      have hfile := h.holds.noFile_of_createDirectories hbase (components_base hbase) hpath.names hdisk
      refine ⟨fun _ q d hq => hfile q d (hq.trans (List.dropLast_prefix _)), fun d => ?_, by simp⟩
      exact hfile _ d List.prefix_rfl
  | false =>
      simp only [Bool.and_false, Bool.false_eq_true, ↓reduceIte, createParent_eq, ok_bind] at hr
      obtain ⟨r, hdisk, -⟩ := bind_eq_ok.mp hr
      rw [h.holds.createDirectory hbase hpath] at hdisk
      split_ifs at hdisk with hparent
      refine ⟨by simp, fun d hd => ?_, fun _ _ => hparent⟩
      rw [hd] at hdisk
      cases hdisk

theorem View.create_agrees (h : View l base m) {folder createDirectories : Bool} {code : Int}
    (hr : l.create path folder createDirectories = .ok (l', code)) :
    (createDirectories = true → m.NoFileAbove (components path)) ∧
      (code = (m.create (components path) folder createDirectories).2 →
        Agrees m ⟨path, .create folder createDirectories⟩) := by
  cases folder with
  | false => exact h.create_file_agrees hbase hpath hr
  | true =>
      have hagrees := h.create_folder_agrees hbase hpath hr
      exact ⟨hagrees.1, fun _ => hagrees⟩

/-! ### Write -/

/-- A write which fails. -/
theorem View.write (h : View l base m) (data : Str) {createDirectories : Bool} (overwrite : Bool)
    (hfail : m (components path) = some .folder ∨ m (components path) = none ∧ createDirectories = false ∧
      isFolder (m (components path).dropLast) = false) :
    ∃ l', l.write path data createDirectories overwrite =
        .ok (l', (m.write (components path) data createDirectories overwrite).2) ∧
      View l' base (m.write (components path) data createDirectories overwrite).1 := by
  rw [h.write_eq]
  rcases hfail with hp | ⟨hp, rfl, hparent⟩
  · have habove (_ : createDirectories = true) := h.holds.tree.noFileAbove hpath.ne_nil (by rw [hp]; rfl)
    obtain ⟨disk', hr, hholds⟩ := h.holds.createParent hbase hpath habove
    rw [h.holds.tree.prepare_of_isSome hpath.ne_nil (by rw [hp]; rfl)] at hholds
    simp only [hr, ok_bind, hholds.openOut_eq_none hbase hpath (.inl hp), PathMap.write, hp]
    exact ⟨_, rfl, h.withDisk hholds⟩
  · simp only [createParent_eq, Bool.false_eq_true, ↓reduceIte, ok_bind,
      h.holds.openOut_eq_none hbase hpath (.inr hparent), PathMap.write, hp, PathMap.prepare, hparent]
    exact ⟨_, rfl, h⟩

/-- A write which succeeds shows in the result. -/
theorem View.write_agrees (h : View l base m) {data : Str} {createDirectories overwrite : Bool} {code : Int}
    (hr : l.write path data createDirectories overwrite = .ok (l', code)) :
    (createDirectories = true → m.NoFileAbove (components path)) ∧
      (code = (m.write (components path) data createDirectories overwrite).2 →
        m (components path) = some .folder ∨ m (components path) = none ∧ createDirectories = false ∧
          isFolder (m (components path).dropLast) = false) := by
  rw [h.write_eq] at hr
  obtain ⟨disk, hdisk, hr⟩ := bind_eq_ok.mp hr
  have habove := h.holds.noFileAbove_of_createParent hbase hpath hdisk
  refine ⟨habove, fun hcode => ?_⟩
  have hne : code ≠ 0 := by
    cases hopen : disk.openOut (base ++ ['/'] ++ path) overwrite with
    | none =>
        rw [hopen] at hr
        cases hr
        decide
    | some r =>
        rw [hopen] at hr
        cases hr
        decide
  rw [hcode] at hne
  cases hp : m (components path) with
  | none =>
      by_cases hparent : isFolder (m.prepare (components path) createDirectories (components path).dropLast) = true
      · simp [PathMap.write, hp, hparent] at hne
      · have hc := PathMap.createDirectories_eq_false habove hparent
        subst hc
        exact Or.inr ⟨rfl, rfl, by simpa [PathMap.prepare] using hparent⟩
  | some e =>
      cases e with
      | folder => exact Or.inl rfl
      | file d => simp [PathMap.write, hp] at hne

/-! ### Read, exists and remove -/

omit hpath in
theorem View.fileExists (h : View l base m) (hpath : PlainFile path) :
    l.fileExists path = (m (components path)).isSome := by
  rw [FSLocal.fileExists, h.fullPath, h.holds.status hbase hpath]

theorem View.fileExists_iff (h : View l base m) :
    l.fileExists path = (m (components path)).isSome ↔ Agrees m ⟨path, .fileExists⟩ := by
  by_cases hslash : path.getLast? = some '/'
  · rw [FSLocal.fileExists, h.fullPath, h.holds.status_folder hbase hpath hslash, Agrees]
    cases hp : m (components path) with
    | none => simp [isFolder]
    | some e => cases e <;> simp [isFolder, hslash]
  · exact iff_of_true (h.fileExists hbase ⟨hpath, hslash⟩) fun hs => absurd hs hslash

omit hpath in
theorem View.read_eq (h : View l base m) (hpath : PlainFile path) (data : Str) (offset : Int) :
    l.read path data offset =
      match m (components path) with
      | none => (-1, data)
      | some .folder => (-1, [])
      | some (.file text) => (0, text ++ lastNewline text) := by
  rw [FSLocal.read, h.fullPath, h.holds.status hbase hpath]
  cases m (components path) with
  | none => rfl
  | some e =>
      cases e with
      | folder => rfl
      | file text =>
          simp only
          rw [readLoop_eq List.not_mem_nil]
          rfl

theorem View.read_iff (h : View l base m) (data : Str) (offset : Int) :
    l.read path data offset = m.read (components path) data offset ↔ Agrees m ⟨path, .read data offset⟩ := by
  rw [Agrees, PathMap.read]
  by_cases hslash : path.getLast? = some '/'
  · rw [FSLocal.read, h.fullPath, h.holds.status_folder hbase hpath hslash]
    cases hp : m (components path) with
    | none => simp [isFolder]
    | some e =>
        cases e with
        | folder => simp [isFolder, eq_comm]
        | file text => simp [isFolder, hslash]
  · rw [h.read_eq hbase ⟨hpath, hslash⟩]
    cases hp : m (components path) with
    | none => simp
    | some e =>
        cases e with
        | folder => simp [eq_comm]
        | file text => simpa [hslash] using readFile_iff text data offset

/-- Removing what is hidden by a slash fails, and changes the other store. -/
theorem View.remove (h : View l base m) : ∃ l' code, l.remove path = .ok (l', code) ∧
    (code = (m.remove (components path)).2 ↔ Agrees m ⟨path, .remove⟩) ∧
      (Agrees m ⟨path, .remove⟩ → View l' base (m.remove (components path)).1) := by
  rw [FSLocal.remove, h.fullPath, Agrees]
  by_cases hslash : path.getLast? = some '/'
  · have hremove := h.holds.removeAll_folder hbase hpath hslash
    split_ifs at hremove with hfolder
    · have hp := isFolder_eq_true.mp hfolder
      obtain ⟨disk', hr, hholds⟩ := hremove
      rw [hr, ok_bind]
      refine ⟨_, _, rfl, ?_, fun _ => h.withDisk hholds⟩
      simp [PathMap.remove, hp]
    · rw [hremove, ok_bind]
      refine ⟨_, _, rfl, ?_, ?_⟩
      · cases hp : m (components path) with
        | none => simp [PathMap.remove, hp]
        | some e => cases e <;> simp_all [PathMap.remove, isFolder]
      · intro hagrees
        cases hp : m (components path) with
        | none =>
            rw [PathMap.remove, hp]
            exact h
        | some e =>
            cases e with
            | folder => exact absurd (by rw [hp]; rfl) hfolder
            | file d => exact absurd hp (hagrees hslash d)
  · obtain ⟨disk', hr, hholds⟩ := h.holds.removeAll hbase ⟨hpath, hslash⟩
    rw [hr, ok_bind]
    refine ⟨_, _, rfl, iff_of_true ?_ fun hs => absurd hs hslash, fun _ => h.withDisk hholds⟩
    simp only [PathMap.remove]
    cases (m (components path)).isSome <;> rfl

end

section

variable {l l' : FSLocal} {base : Str} {m : PathMap Str Char} {c : PathMap.Call Str Char}

theorem View.call_create (hbase : PlainName base) {path : Str} (hpath : Plain path) (h : View l base m)
    {folder createDirectories : Bool} (hc : Agrees m ⟨path, .create folder createDirectories⟩) :
    ∃ l', l.create path folder createDirectories =
        .ok (l', (m.create (components path) folder createDirectories).2) ∧
      View l' base (m.create (components path) folder createDirectories).1 := by
  obtain ⟨habove, hc⟩ := hc
  cases folder with
  | false =>
      split_ifs at hc with hslash
      · obtain ⟨hprepare, hcreate⟩ := create_of_fails h.holds.tree hpath.ne_nil hc false
        obtain ⟨l', hr, hview⟩ := h.create_file_folder hbase hpath hslash.2 habove
        rw [hprepare] at hview
        rw [hcreate]
        exact ⟨l', hr, hview⟩
      · exact h.create_file hbase ⟨hpath, by simpa using hslash⟩ habove hc.1
  | true =>
      rw [if_neg (by simp)] at hc
      cases createDirectories with
      | false => exact h.create_folder hbase hpath hc.1 (hc.2 rfl rfl)
      | true => exact h.create_folders hbase hpath (habove rfl) hc.1

theorem View.call (hbase : PlainName base) (hpath : Plain c.path) (h : View l base m) (hc : Agrees m c) :
    ∃ l', l.call c = .ok (l', (m.call (toComponents c)).2) ∧ View l' base (m.call (toComponents c)).1 := by
  obtain ⟨path, op⟩ := c
  change Plain path at hpath
  cases op with
  | create folder createDirectories =>
      obtain ⟨l', hr, hview⟩ := h.call_create hbase hpath hc
      refine ⟨l', ?_, hview⟩
      simp only [FSLocal.call, hr, ok_bind]
      rfl
  | write data createDirectories overwrite =>
      obtain ⟨l', hr, hview⟩ := h.write hbase hpath data overwrite hc
      refine ⟨l', ?_, hview⟩
      simp only [FSLocal.call, hr, ok_bind]
      rfl
  | read data offset =>
      refine ⟨l, ?_, h⟩
      simp only [FSLocal.call, (h.read_iff hbase hpath data offset).mpr hc]
      rfl
  | fileExists =>
      refine ⟨l, ?_, h⟩
      simp only [FSLocal.call, (h.fileExists_iff hbase hpath).mpr hc]
      rfl
  | remove =>
      obtain ⟨l', code, hr, hcode, hview⟩ := h.remove hbase hpath
      refine ⟨l', ?_, hview hc⟩
      simp only [FSLocal.call, hr, ok_bind, hcode.mpr hc]
      rfl

theorem View.call_agrees (hbase : PlainName base) (hpath : Plain c.path) (h : View l base m)
    {r : PathMap.Result Char} (hr : l.call c = .ok (l', r)) : PathMap.Admissible m (toComponents c) ∧
      (r = (m.call (toComponents c)).2 → Agrees m c) := by
  obtain ⟨path, op⟩ := c
  have hadmissible (hfolders : op.createDirectories = true → m.NoFileAbove (components path)) :
      PathMap.Admissible m (toComponents ⟨path, op⟩) := ⟨hpath.ne_nil, hfolders⟩
  unfold FSLocal.call at hr
  unfold PathMap.call
  rw [toComponents] at hadmissible ⊢
  cases op with
  | create folder createDirectories =>
      obtain ⟨⟨l₁, code⟩, hcreate, hr⟩ := bind_eq_ok.mp hr
      cases hr
      obtain ⟨habove, hagrees⟩ := h.create_agrees hbase hpath hcreate
      refine ⟨hadmissible habove, fun hres => ?_⟩
      cases hres
      exact hagrees rfl
  | write data createDirectories overwrite =>
      obtain ⟨⟨l₁, code⟩, hwrite, hr⟩ := bind_eq_ok.mp hr
      cases hr
      obtain ⟨habove, hagrees⟩ := h.write_agrees hbase hpath hwrite
      refine ⟨hadmissible habove, fun hres => ?_⟩
      cases hres
      exact hagrees rfl
  | read data offset =>
      cases hr
      refine ⟨hadmissible nofun, fun hres => ?_⟩
      obtain ⟨hcode, hdata⟩ := PathMap.Result.data.inj hres
      exact (h.read_iff hbase hpath data offset).mp (Prod.ext hcode hdata)
  | fileExists =>
      cases hr
      refine ⟨hadmissible nofun, fun hres => ?_⟩
      exact (h.fileExists_iff hbase hpath).mp (PathMap.Result.found.inj hres)
  | remove =>
      obtain ⟨⟨l₁, code⟩, hremove, hr⟩ := bind_eq_ok.mp hr
      cases hr
      refine ⟨hadmissible nofun, fun hres => ?_⟩
      obtain ⟨l₂, code', hr, hcode, -⟩ := h.remove hbase hpath
      rw [hremove, Except.ok.injEq, Prod.mk.injEq] at hr
      exact hcode.mp (hr.2.symm.trans (PathMap.Result.code.inj hres))

theorem View.init (hbase : PlainName base) : View (FSLocal.init base PathMap.empty) base PathMap.empty := by
  have hcomponents : components base = [base] := components_of_slashFree hbase.slash hbase.ne_nil
  have hcreate : Disk.createDirectory PathMap.empty base =
      .ok (Function.update PathMap.empty [base] (some .folder), true) := by
    rw [Disk.createDirectory, hcomponents, Disk.resolve, if_neg hbase.dot, if_neg hbase.dotdot]
    rfl
  have hdisk : (FSLocal.init base PathMap.empty).disk = Function.update PathMap.empty [base] (some .folder) := by
    rw [FSLocal.init, if_pos hbase.ne_nil, hcreate]
  constructor
  · rw [FSLocal.init, if_pos hbase.ne_nil]
  · rw [hdisk]
    constructor
    · rfl
    · intro p
      by_cases hp : p = []
      · subst hp
        rw [Function.update_self]
        rfl
      · rw [Function.update_of_ne (by simpa using hp), PathMap.empty, PathMap.empty, if_neg (by simp), if_neg hp]
    · rfl
    · exact PathMap.tree_empty

end

/-! ## Sequences of calls -/

theorem admissible_of_agrees {m : PathMap Str Char} (hm : m.Tree) {c : PathMap.Call Str Char} (hpath : Plain c.path)
    (h : Agrees m c) : PathMap.Admissible m (toComponents c) := by
  obtain ⟨path, op⟩ := c
  refine ⟨hpath.ne_nil, ?_⟩
  cases op with
  | create folder createDirectories => exact h.1
  | write data createDirectories overwrite =>
      rcases h with hp | ⟨-, hc, -⟩
      · exact fun _ => hm.noFileAbove hpath.ne_nil (Option.isSome_iff_exists.mpr ⟨_, hp⟩)
      · intro hfolders
        rw [toComponents, PathMap.Op.createDirectories, hc] at hfolders
        cases hfolders
  | _ => nofun

theorem calls_agree {base : Str} (hbase : PlainName base) {cs : List (PathMap.Call Str Char)}
    (hplain : ∀ c ∈ cs, Plain c.path) {l : FSLocal} {fs : FSMemory} (h : View l base fs.files)
    (hfree : fs.fsMutex = false) : (∃ l' fs' rs, l.calls cs = .ok (l', rs) ∧ fs.calls cs = .ok (fs', rs)) ↔
      AgreeingCalls fs.files cs := by
  induction cs generalizing l fs with
  | nil => exact ⟨fun _ => trivial, fun _ => ⟨l, fs, [], rfl, rfl⟩⟩
  | cons c cs ih =>
      have hpath := hplain c List.mem_cons_self
      have hrest : ∀ c ∈ cs, Plain c.path := fun c hc => hplain c (List.mem_cons_of_mem _ hc)
      constructor
      · rintro ⟨l', fs', rs, hl, hfs⟩
        obtain ⟨⟨l₁, r⟩, hl₁, hl⟩ := bind_eq_ok.mp hl
        obtain ⟨⟨l₂, rs'⟩, hl₂, hl⟩ := bind_eq_ok.mp hl
        cases hl
        obtain ⟨⟨fs₁, r'⟩, hfs₁, hfs⟩ := bind_eq_ok.mp hfs
        obtain ⟨⟨fs₂, rs''⟩, hfs₂, hfs⟩ := bind_eq_ok.mp hfs
        cases hfs
        obtain ⟨hadmissible, hagrees⟩ := h.call_agrees hbase hpath hl₁
        obtain ⟨t, hcall, ht⟩ := FSMemory.call_refines hfree hadmissible
        rw [hcall, Except.ok.injEq] at hfs₁
        cases hfs₁
        have hc := hagrees rfl
        obtain ⟨l₁', hl₁', hview⟩ := h.call hbase hpath hc
        rw [hl₁, Except.ok.injEq] at hl₁'
        cases hl₁'
        have hview : View l₁ base ({ fs with filetree := t } : FSMemory).files := by rwa [← ht] at hview
        refine ⟨hc, ?_⟩
        rw [← ht]
        exact (ih hrest hview hfree).mp ⟨_, _, _, hl₂, hfs₂⟩
      · rintro ⟨hc, hcs⟩
        obtain ⟨l₁, hl₁, hview⟩ := h.call hbase hpath hc
        obtain ⟨t, hcall, ht⟩ := FSMemory.call_refines hfree (admissible_of_agrees h.holds.tree hpath hc)
        rw [← ht] at hcs
        have hview : View l₁ base ({ fs with filetree := t } : FSMemory).files := by rwa [← ht] at hview
        obtain ⟨l', fs', rs, hl, hfs⟩ := (ih hrest hview hfree).mpr hcs
        refine ⟨l', fs', (fs.files.call (toComponents c)).2 :: rs, ?_, ?_⟩
        · simp only [FSLocal.calls, hl₁, ok_bind, hl]
          rfl
        · simp only [FSMemory.calls, hcall, ok_bind, hfs]
          rfl

/-- From empty stores on both file systems return the same exactly for those sequences in which every call is one
they agree on. -/
theorem interchangeable_iff {base : Str} (hbase : PlainName base) (coarseMutex : Bool)
    {cs : List (PathMap.Call Str Char)} (hplain : ∀ c ∈ cs, Plain c.path) :
    (∃ l fs rs, (init base PathMap.empty).calls cs = .ok (l, rs) ∧
      (FSMemory.init coarseMutex).calls cs = .ok (fs, rs)) ↔
      AgreeingCalls PathMap.empty cs := by
  have hfiles := FSMemory.files_init coarseMutex
  have hview := View.init hbase
  rw [← hfiles] at hview ⊢
  exact calls_agree hbase hplain hview rfl

/-! ## Folders and empty files -/

instance (name : Str) : Decidable (PlainName name) :=
  decidable_of_iff (name ≠ [] ∧ '/' ∉ name ∧ '\x00' ∉ name ∧ name ≠ ['.'] ∧ name ≠ ['.', '.'])
    ⟨fun ⟨hne, hslash, hnul, hdot, hdotdot⟩ => ⟨hne, hslash, hnul, hdot, hdotdot⟩,
      fun h => ⟨h.ne_nil, h.slash, h.nul, h.dot, h.dotdot⟩⟩

instance (path : Str) : Decidable (Plain path) :=
  decidable_of_iff (components path ≠ [] ∧ ∀ name ∈ components path, PlainName name)
    ⟨fun ⟨hne, hnames⟩ => ⟨hne, hnames⟩, fun h => ⟨h.ne_nil, h.names⟩⟩

instance (path : Str) : Decidable (PlainFile path) :=
  decidable_of_iff (Plain path ∧ path.getLast? ≠ some '/')
    ⟨fun ⟨hplain, hslash⟩ => ⟨hplain, hslash⟩, fun h => ⟨h.toPlain, h.slash⟩⟩

def SNS : Str := "sns".toList

def folderCalls : List (PathMap.Call Str Char) :=
  [⟨"a/b/".toList, .create true true⟩, ⟨"a//b".toList, .create true true⟩, ⟨"a/f".toList, .create false false⟩,
    ⟨"a/f".toList, .read [] 0⟩, ⟨"a".toList, .write "xy".toList false true⟩, ⟨"a".toList, .remove⟩,
    ⟨"a/b".toList, .fileExists⟩]

theorem interchangeable_iff_folderCalls : AgreeingCalls PathMap.empty folderCalls := by
  apply (@interchangeable_iff SNS (by decide) true folderCalls (by decide +kernel)).mp
  exact ⟨_, _, [.code 0, .code (-1), .code 0, .data 0 [], .code (-1), .code 0, .found false], rfl, rfl⟩

/-- A file is made, written and read from its second character. -/
def fileCallsFromOffset : List (PathMap.Call Str Char) :=
  [⟨"f".toList, .create false false⟩, ⟨"f".toList, .write "xy".toList false false⟩, ⟨"f".toList, .read [] 1⟩]

theorem results_differ : ∃ l fs,
    (init SNS PathMap.empty).calls fileCallsFromOffset =
      .ok (l, [.code 0, .code 1, .data 0 ("xy".toList ++ ['\n'])]) ∧
    (FSMemory.init true).calls fileCallsFromOffset = .ok (fs, [.code 0, .code 0, .data 0 "y".toList]) :=
  ⟨_, _, rfl, rfl⟩

end FSLocal

end DistributedSns.FSWrapper
