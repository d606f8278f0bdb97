import DistributedSns.Shell.Interpreter

/-!
# Sessions of the shell

The shell prints what the interpreter prints, and ends in its store.
-/

namespace DistributedSns.Shell

open Lib FSWrapper FSTreeNode
open Lib.PathMap (isFolder)

/-! ## The listing of a tree -/

theorem Listed.unique {m : PathMap Str Char} {name : Str} {o o' : Outline Char} (h : Listed m name o)
    (h' : Listed m name o') : o = o' := by
  induction h generalizing o' with
  | file hentry =>
      cases h' with
      | file => rfl
      | folder hentry' =>
          rw [hentry] at hentry'
          cases hentry'
  | @folder m name children hentry hsorted hnames hbelow ih =>
      cases h' with
      | file hentry' =>
          rw [hentry] at hentry'
          cases hentry'
      | @folder _ _ children' hentry' hsorted' hnames' hbelow' =>
          have hchildren : children = children' := by
            refine hsorted.ext hsorted' fun n => ?_
            have hsame := (hnames n).symm.trans (hnames' n)
            cases hc : children.lookup n with
            | none =>
                rw [hc] at hsame
                exact (Option.not_isSome_iff_eq_none.mp fun hsome => by simpa using hsame.mpr hsome).symm
            | some c =>
                rw [hc] at hsame
                obtain ⟨c', hc'⟩ := Option.isSome_iff_exists.mp (hsame.mp rfl)
                have hlisted : Listed (m.sub [n]) n c' := hbelow' _ (Assoc.mem_of_lookup hc')
                have heq : c = c' := ih _ (Assoc.mem_of_lookup hc) hlisted
                rw [hc', heq]
          rw [hchildren]

/-- The outline of a tree is told by its files. -/
theorem listed_outline {node : FSTreeNode} (h : node.Ok) : Listed node.files node.name node.outline := by
  induction h with
  | file name data => exact .file rfl
  | @folder name children hsorted hkey hnamed hbelow ih =>
      have hchildren : (children.map fun e => (e.1, e.2.outline)).map Prod.snd = children.map (outline ·.2) := by
        simp
      rw [outline_eq, ← hchildren]
      refine .folder rfl (List.pairwise_map.mpr hsorted) ?_ ?_
      · intro n
        rw [Assoc.lookup_map, files_cons, FSTreeNode.getChild, Option.isSome_map]
        cases children.lookup n with
        | none => rfl
        | some child => exact iff_of_true (isSome_files_nil child) rfl
      · intro e he
        obtain ⟨⟨n, child⟩, hmem, rfl⟩ := List.mem_map.mp he
        have hc : FSTreeNode.getChild ⟨true, name, [], children⟩ n = some child :=
          (Assoc.lookup_eq_some_iff_mem hsorted).mpr hmem
        have hsub : PathMap.sub (FSTreeNode.files ⟨true, name, [], children⟩) [n] = child.files := by
          funext p
          rw [PathMap.sub, List.singleton_append, files_cons, hc, Option.bind_some]
        have hchild := ih _ hmem
        rw [hnamed _ hmem] at hchild
        rw [hsub]
        exact hchild

theorem listing_files {fs : FSMemory} (h : fs.filetree.Ok) (hname : fs.filetree.name = ROOT) :
    listing fs.files = fs.toString := by
  have hlisted : Listed fs.files ROOT fs.filetree.outline := hname ▸ listed_outline h
  have hexists : ∃ o, Listed fs.files ROOT o := ⟨_, hlisted⟩
  rw [listing, dif_pos hexists, hexists.choose_spec.unique hlisted, FSMemory.toString_eq]

/-! ## Commands -/

namespace State

/-- The store behind the tree. -/
def store (s : State) : Store where
  files := s.fsm.files
  createDirs := s.createDirs
  disk := s.disk

/-- What the shell keeps: the tree has the root of the constructor, and nothing is ever locked. -/
structure Ok (s : State) : Prop where
  tree : s.fsm.filetree.Ok
  name : s.fsm.filetree.name = ROOT
  free : s.fsm.coarseMutex = false ∧ s.fsm.fsMutex = false

end State

variable {s : State} {path : Str}

theorem store_init (disk : Disk) : ({ disk } : State).store = { disk } := by
  have hfiles : (FSMemory.init false).files = PathMap.empty := FSMemory.files_init false
  rw [State.store, hfiles]

theorem ok_init (disk : Disk) : ({ disk } : State).Ok := ⟨.make ROOT true fun _ => rfl, rfl, rfl, rfl⟩

/-- What is printed after the prompt. -/
def Outcome.printed (r : Outcome) : Str :=
  r.output ++ if !r.valid then INVALID else if r.success < 0 then FAILED else []

/-- The branch of a command returns, and leaves the store and the text of the interpreter. -/
def Refines (x : Except Fault Outcome) (y : Store × Str) : Prop :=
  ∃ r, x = .ok r ∧ r.state.Ok ∧ (r.state.store, r.printed) = y

theorem onFilesys_refines (h : s.Ok) {op : PathMap.Op Char} (hop : FSMemory.locks op = true)
    (hadm : s.store.Changes path op) :
    Refines (onFilesys s (s.fsm.atParent path op.createDirectories (FSMemory.inParent op)))
      (s.store.change path op) := by
  have hunlocked : ¬ s.fsm.Locked := by
    rintro ⟨hcoarse, -⟩
    rw [h.free.1] at hcoarse
    cases hcoarse
  unfold Store.change
  by_cases hnil : path = []
  · subst hnil
    rw [if_pos rfl, FSMemory.atParent_nil hunlocked]
    refine ⟨_, rfl, ⟨h.tree, h.name, h.free.1, ?_⟩, rfl⟩
    rw [h.free.1, h.free.2]
    rfl
  · obtain ⟨t, hcall, hfiles⟩ := FSMemory.call_refines h.free.2 (c := ⟨path, op⟩) (hadm.resolve_left hnil)
    have hreplaces := FSMemory.call_ok h.tree hcall
    rw [FSMemory.call_of_locks hop] at hcall
    obtain ⟨⟨fsm, success⟩, hparent, hcall⟩ := bind_eq_ok.mp hcall
    obtain ⟨hfsm, hcode⟩ := Prod.mk.inj (Except.ok.inj hcall)
    subst hfsm
    rw [if_neg hnil, hparent]
    refine ⟨_, rfl, ⟨hreplaces.ok, hreplaces.name.trans h.name, h.free⟩, ?_⟩
    have hresult : (s.store.files.call ⟨components path, op⟩).2 = .code success := hcode.symm
    have hstore : (s.store.files.call ⟨components path, op⟩).1 = t.files := hfiles.symm
    simp only [hresult, hstore, Store.report]
    rfl

/-- `cat` reads from the beginning, and a code other than `0` is reported at once. -/
theorem cat_refines (h : s.Ok) (path : Str) : Refines (cat s path) (s.store.exec (.cat path)) := by
  have hread : s.fsm.read path [] 0 = .ok (s.store.files.read (components path) [] 0) :=
    FSMemory.read_refines s.fsm path [] 0
  rw [cat, hread, ok_bind, Store.exec]
  simp only [PathMap.call, Store.report]
  by_cases hcode : (s.store.files.read (components path) [] 0).1 = 0
  · rw [if_pos hcode, if_pos hcode]
    exact ⟨_, rfl, h, by simp [Outcome.printed]⟩
  · rw [if_neg hcode, if_neg hcode]
    exact ⟨_, rfl, h, by simp [Outcome.printed]⟩

theorem save_refines (h : s.Ok) {dir : Str} (hadm : s.store.Admissible (.save dir)) :
    Refines (save s dir) (s.store.save dir) := by
  have hdisk : s.store.disk = s.disk := rfl
  by_cases hfolder : s.disk.status dir = some .folder
  · obtain ⟨location, hfind, hentry⟩ := Option.bind_eq_some_iff.mp hfolder
    have hsaves := hadm location hfind hentry
    have hdir := Disk.inDir_of_find hfind hentry
    have hplain : PlainName s.fsm.filetree.name := by rw [h.name]; decide
    have hsaved := FSMemory.saves_of_ok h.tree hplain hsaves.plain s.disk dir location hdir (by
      rw [h.name]
      exact hsaves.free)
    rw [save, FSMemory.saveToDisk, hfolder]
    simp only [hsaved, Store.save, hdisk, hfind, hentry, ↓reduceIte]
    refine ⟨_, rfl, ⟨h.tree, h.name, h.free⟩, ?_⟩
    rw [h.name]
    rfl
  · have hfail : s.fsm.saveToDisk dir s.disk = (s.disk, .ok (-1)) := by
      unfold FSMemory.saveToDisk
      cases he : s.disk.status dir with
      | none => rfl
      | some e =>
          cases e with
          | folder => exact absurd he hfolder
          | file data => rfl
    rw [save, hfail]
    refine ⟨_, rfl, h, ?_⟩
    have hfailed : s.store.save dir = (s.store, FAILED) := by
      rw [Store.save, hdisk]
      cases hfind : s.disk.find dir with
      | none => rfl
      | some location =>
          have hentry : s.disk location ≠ some .folder := by
            intro hentry
            exact hfolder (by rw [Disk.status, hfind, Option.bind_some, hentry])
          simp only [if_neg hentry]
    rw [hfailed]
    rfl

/-- A command which leaves the file system alone. -/
theorem refines_of_eq {s' : State} (h : s'.Ok) (output : Str) : Refines (.ok { state := s', output }) (s'.store, output) :=
  ⟨_, rfl, h, by simp [Outcome.printed]⟩

/-- The branch of a command. -/
def perform (s : State) : Command → Except Fault Outcome
  | .ls => .ok { state := s, output := s.fsm.toString }
  | .help => .ok { state := s, output := HELP }
  | .mkdir path => onFilesys s (s.fsm.create path true s.createDirs)
  | .touch path => onFilesys s (s.fsm.create path false s.createDirs)
  | .test path => do
    let found ← s.fsm.fileExists path
    return { state := s, output := if found then EXISTS else NOT_EXISTS }
  | .cat path => cat s path
  | .rm path => onFilesys s (s.fsm.remove path)
  | .createdirs on => .ok { state := { s with createDirs := on } }
  | .save dir => save s dir
  | .write path data => onFilesys s (s.fsm.write path data s.createDirs false)
  | .unfinished => .ok { state := s }
  | .invalid => .ok { state := s, valid := false }

theorem execute_eq (s : State) (tokens : List Str) : execute s tokens = perform s (.ofTokens tokens) := by
  match tokens with
  | [] => rfl
  | [command] =>
      simp only [execute, Command.ofTokens]
      split_ifs <;> rfl
  | [command, arg1] =>
      simp only [execute, Command.ofTokens]
      split_ifs <;> rfl
  | [command, arg1, arg2] =>
      simp only [execute, Command.ofTokens]
      split_ifs <;> rfl
  | _ :: _ :: _ :: _ :: _ => rfl

theorem perform_refines (h : s.Ok) {c : Command} (hadm : s.store.Admissible c) :
    Refines (perform s c) (s.store.exec c) := by
  cases c with
  | ls =>
      have hlisting : listing s.store.files = s.fsm.toString := listing_files h.tree h.name
      rw [Store.exec, hlisting]
      exact refines_of_eq h s.fsm.toString
  | help => exact refines_of_eq h HELP
  | mkdir path =>
      have hchanges : s.store.Changes path (.create true s.createDirs) := hadm
      have hrefines := onFilesys_refines h rfl hchanges
      exact hrefines
  | touch path =>
      have hchanges : s.store.Changes path (.create false s.createDirs) := hadm
      have hrefines := onFilesys_refines h rfl hchanges
      exact hrefines
  | test path =>
      have hfound : s.fsm.fileExists path = .ok (s.store.files (components path)).isSome :=
        FSMemory.fileExists_refines s.fsm path
      rw [perform, hfound]
      exact refines_of_eq h _
  | cat path => exact cat_refines h path
  | rm path =>
      have hchanges : s.store.Changes path (.remove) := hadm
      have hrefines := onFilesys_refines h rfl hchanges
      exact hrefines
  | createdirs on =>
      have hok : ({ s with createDirs := on } : State).Ok := ⟨h.tree, h.name, h.free⟩
      exact refines_of_eq hok []
  | save dir => exact save_refines h hadm
  | write path data =>
      have hchanges : s.store.Changes path (.write data s.createDirs false) := hadm
      have hrefines := onFilesys_refines h rfl hchanges
      exact hrefines
  | unfinished => exact refines_of_eq h []
  | invalid => exact ⟨_, rfl, h, rfl⟩

/-! ## Sessions -/

/-- The command a line stands for. -/
def Line.command (l : Line) : Command := .ofTokens l.tokens

theorem processCommand_refines (h : s.Ok) {l : Line} (hadm : s.store.Admissible l.command) :
    ∃ s', processCommand s l.written = .ok (s', PROMPT ++ (s.store.exec l.command).2) ∧ s'.Ok ∧
      s'.store = (s.store.exec l.command).1 := by
  obtain ⟨r, hr, hok, hstore⟩ := perform_refines h hadm
  have hsplit : split l.written = .ok l.tokens := by
    rw [split, ← StringStream.mid_nil]
    exact splitTokens_eq l _ [] [] le_rfl
  refine ⟨r.state, ?_, hok, congrArg Prod.fst hstore⟩
  have hprinted : r.printed = (s.store.exec l.command).2 := congrArg Prod.snd hstore
  rw [Line.command, ← execute_eq] at hr
  rw [processCommand, hsplit, ok_bind, hr, ok_bind, ← hprinted, Outcome.printed, ← List.append_assoc]
  rfl

theorem session_refines (h : s.Ok) {ls : List Line} (hadm : s.store.AdmissibleSession (ls.map Line.command)) :
    ∃ s', session s (ls.map Line.written) = .ok (s', (s.store.run (ls.map Line.command)).2) ∧ s'.Ok ∧
      s'.store = (s.store.run (ls.map Line.command)).1 := by
  induction ls generalizing s with
  | nil => exact ⟨s, rfl, h, rfl⟩
  | cons l ls ih =>
      obtain ⟨hfirst, hrest⟩ := hadm
      obtain ⟨s₁, hprocess, hok, hstore⟩ := processCommand_refines h hfirst
      rw [← hstore] at hrest
      obtain ⟨s₂, hsession, hok', hstore'⟩ := ih hok hrest
      refine ⟨s₂, ?_, hok', ?_⟩
      · simp only [List.map_cons, session, hprocess, hsession, ok_bind, Store.run, hstore]
        rfl
      · simpa only [List.map_cons, Store.run, hstore] using hstore'

/-- Over a whole session of lines the shell prints what the interpreter prints for the commands which the lines stand
for. At its end the tree and the disk hold the store of the interpreter. -/
theorem shell_refines (disk : Disk) {ls : List Line}
    (h : ({ disk } : Store).AdmissibleSession (ls.map Line.command)) :
    ∃ s, session { disk } (ls.map Line.written) = .ok (s, (({ disk } : Store).run (ls.map Line.command)).2) ∧
      s.store = (({ disk } : Store).run (ls.map Line.command)).1 := by
  rw [← store_init] at h ⊢
  obtain ⟨s, hsession, -, hstore⟩ := session_refines (ok_init disk) h
  exact ⟨s, hsession, hstore⟩

def space : { c : Char // IsSeparator c } := ⟨' ', Or.inr rfl⟩

/-- A word without quotes. -/
def bareWord (text : Str) (hquote : '"' ∉ text) (hbare : text.all (¬ IsSeparator ·) = true) : Word :=
  [⟨false, text, hquote, fun _ => by simpa using hbare⟩]

def fileWord : Word := bareWord "a/f".toList (by decide) (by decide)

/-- `mkdir a`, `write a/f "x y"` and `cat a/f`. -/
def writingLines : List Line :=
  [.cons (bareWord "mkdir".toList (by decide) (by decide)) space
      (.last (bareWord "a".toList (by decide) (by decide)) none),
    .cons (bareWord "write".toList (by decide) (by decide)) space
      (.cons fileWord space (.last [⟨true, "x y".toList, by decide, nofun⟩] none)),
    .cons (bareWord "cat".toList (by decide) (by decide)) space (.last fileWord none)]

theorem shell_refines_writingLines : ∃ s,
    session { disk := PathMap.empty } ["mkdir a".toList, "write a/f \"x y\"".toList, "cat a/f".toList] =
      .ok (s, "$ $ $ x y\n".toList) ∧ s.store.files [['a'], ['f']] = some (.file "x y".toList) := by
  have hadm : ({ disk := PathMap.empty } : Store).AdmissibleSession (writingLines.map Line.command) :=
    ⟨Or.inr ⟨by decide +kernel, nofun⟩, Or.inr ⟨by decide +kernel, nofun⟩, trivial, trivial⟩
  obtain ⟨s, hsession, hstore⟩ := shell_refines PathMap.empty hadm
  have hprinted : (({ disk := PathMap.empty } : Store).run (writingLines.map Line.command)).2 = "$ $ $ x y\n".toList := by
    decide +kernel
  refine ⟨s, ?_, ?_⟩
  · rw [← hprinted, ← hsession]
    rfl
  · rw [hstore]
    decide +kernel

end DistributedSns.Shell
