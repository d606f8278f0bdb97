import DistributedSns.Coordinator.Interleaved
import DistributedSns.Coordinator.Lemmas.Steps

/-!
# Steps of a handler

`HandlerOutcome` says what each step of a handler does to the `zNode`s and to the locks. A handler which
nothing interrupts does what the atomic `heartbeat` does.
-/

namespace DistributedSns.Coordinator

open Lib FSWrapper SNSCoordinator

/-! ## Outcomes -/

section

variable (h : Handler) (c : SNSCoordinator)

/-- The handler's server has a `zNode`. -/
structure Located : Prop where
  clusterid : h.info.clusterid = h.clusterIdx + 1
  zNode : (c.zNode? h.clusterIdx h.serverId).isSome

/-- The folder of the handler's cluster exists. -/
def HasDir : Prop := (lockDir c.filesys (.master h.info.clusterid)).isSome

/-- What holds of a handler by the step it is at. -/
def HandlerOk : Prop :=
  match h.pc with
  | .lookup | .returned _ _ => True
  | .assign _ | .testMaster | .getAddress | .testLock _ | .createMaster _ | .readWinner => Located h c
  | .writeSlave _ | .readMaster | .writeMaster _ | .findOther => Located h c ∧ HasDir h c
  | .setPath rawPath master _ =>
    Located h c ∧ if master then rawPath = h.masterFilepath ∧ HasDir h c
      else rawPath = [] ∨ rawPath = h.slaveFilepath ∧ HasDir h c
  | .setMaster rawPath _ => Located h c ∧ rawPath = h.masterFilepath ∧ HasDir h c

/-- The data of the master lock of the handler's cluster. -/
def masterData : Option Str := lockData c.filesys (.master h.info.clusterid)

inductive HandlerOutcome : SNSCoordinator × Pc → Prop
  | rejected {status : Status} (hpc : h.pc = .lookup) (hst : status.code ≠ .ok) :
      HandlerOutcome (c, .returned status {})
  | found (hpc : h.pc = .lookup) (hi : h.clusterIdx < c.clusters.length)
      (hid : h.info.clusterid = h.clusterIdx + 1) : HandlerOutcome (h.setServer c (h.server c), .assign 0)
  | assigned {field : Nat} {assignment : ZNode → ZNode} (hpc : h.pc = .assign field)
      (ha : (assignments h.now h.info)[field]? = some assignment) :
      HandlerOutcome (h.setServer c (assignment (h.server c)), .assign (field + 1))
  | assignedAll {field : Nat} (hpc : h.pc = .assign field) (ha : (assignments h.now h.info)[field]? = none) :
      HandlerOutcome (c, .testMaster)
  | stillMaster (hpc : h.pc = .testMaster) (hm : (h.server c).master = true) :
      HandlerOutcome (c, .returned .OK { path := (h.server c).path, master := true })
  | notMaster (hpc : h.pc = .testMaster) (hm : (h.server c).master = false) : HandlerOutcome (c, .getAddress)
  | address (hpc : h.pc = .getAddress) : HandlerOutcome (c, .testLock (h.server c).getAddress)
  | lockFound {a d : Str} (hpc : h.pc = .testLock a) (hlock : masterData h c = some d) :
      HandlerOutcome (c, .writeSlave a)
  | lockFree {a : Str} (hpc : h.pc = .testLock a) (hlock : masterData h c = none) :
      HandlerOutcome (c, .createMaster a)
  | slaveWritten {a : Str} {fs : FSMemory} (hpc : h.pc = .writeSlave a)
      (hfs : LockStep c.filesys fs
        (Function.update (lockData c.filesys) (.slave h.info.clusterid h.info.serverid) (some a))) :
      HandlerOutcome (c.withFilesys fs, .readMaster)
  | masterRead (hpc : h.pc = .readMaster) :
      HandlerOutcome (c, .setPath h.slaveFilepath false ((masterData h c).getD []))
  | created {a : Str} {fs : FSMemory} (hpc : h.pc = .createMaster a) (hlock : masterData h c = none)
      (hfs : LockStep c.filesys fs
        (Function.update (lockData c.filesys) (.master h.info.clusterid) (some []))) :
      HandlerOutcome (c.withFilesys fs, .writeMaster a)
  | lost {a d : Str} {fs : FSMemory} (hpc : h.pc = .createMaster a) (hlock : masterData h c = some d)
      (hfs : LockStep c.filesys fs (lockData c.filesys)) : HandlerOutcome (c.withFilesys fs, .readWinner)
  | winnerRead (hpc : h.pc = .readWinner) :
      HandlerOutcome (c, .setPath [] false ((masterData h c).getD []))
  | masterWritten {a : Str} {fs : FSMemory} (hpc : h.pc = .writeMaster a)
      (hfs : LockStep c.filesys fs
        (Function.update (lockData c.filesys) (.master h.info.clusterid) (some a))) :
      HandlerOutcome (c.withFilesys fs, .findOther)
  | otherFound {sync : Str} (hpc : h.pc = .findOther) :
      HandlerOutcome (c, .setPath h.masterFilepath true sync)
  | pathSet {rawPath sync : Str} (hpc : h.pc = .setPath rawPath false sync) :
      HandlerOutcome (h.setServer c { h.server c with path := rawPath },
        .returned .OK { path := rawPath, master := false, syncAddress := sync })
  | masterPathSet {rawPath sync : Str} (hpc : h.pc = .setPath rawPath true sync) :
      HandlerOutcome (h.setServer c { h.server c with path := rawPath }, .setMaster rawPath sync)
  | masterSet {rawPath sync : Str} (hpc : h.pc = .setMaster rawPath sync) :
      HandlerOutcome (h.setServer c { h.server c with master := true },
        .returned .OK { path := rawPath, master := true, syncAddress := sync })
  | idle {status : Status} {path : Path} (hpc : h.pc = .returned status path) :
      HandlerOutcome (c, .returned status path)

end

section

variable {h : Handler} {c : SNSCoordinator} {r : SNSCoordinator × Pc}

theorem masterFilepath_eq (h : Handler) : h.masterFilepath = (Lock.master h.info.clusterid).path := rfl

theorem read_masterFilepath (ht : LockTree c.filesys) :
    ∃ code, c.filesys.read h.masterFilepath [] 0 = .ok (code, (masterData h c).getD []) := by
  rw [masterFilepath_eq, ht.read_eq, masterData]
  cases lockData c.filesys (.master h.info.clusterid) <;> exact ⟨_, rfl⟩

theorem lookup_outcome (hpc : h.pc = .lookup) (hs : h.lookup c = .ok r) : HandlerOutcome h c r := by
  simp only [Handler.lookup, bind, Except.bind, pure, Except.pure] at hs
  cases hidx : idToIndex h.info.clusterid with
  | error x =>
      rw [hidx] at hs
      cases hs
  | ok j =>
      have hj : j = h.info.clusterid - 1 := by
        rw [idToIndex] at hidx
        split_ifs at hidx
        exact (Except.ok.inj hidx).symm
      simp only [hidx, Bool.or_eq_true, decide_eq_true_eq] at hs
      split_ifs at hs with hrange hclash
      · cases hs
        exact .rejected hpc (by simp [invalidClusterId])
      · cases hs
        exact .rejected hpc (by simp [registrationFailed])
      · cases hs
        exact .found hpc (by rw [Handler.clusterIdx]; omega) (by rw [Handler.clusterIdx]; omega)

/-- The address is written to a lock whose folder exists. -/
theorem write_lock (ht : LockTree c.filesys) {l : Lock} (hdir : (lockDir c.filesys l).isSome) {a : Str} {pc : Pc}
    (hs : (do let (filesys, _) ← c.filesys.write l.path a false true
              return (c.withFilesys filesys, pc)) = Except.ok r) :
    ∃ fs, LockStep c.filesys fs (Function.update (lockData c.filesys) l (some a)) ∧ r = (c.withFilesys fs, pc) := by
  obtain ⟨w, hw, hs⟩ := bind_eq_ok.mp hs
  obtain ⟨fs, hw', hfs⟩ := (ht.service_of_atParent hw).write_eq hdir a
  rw [hw, Except.ok.injEq] at hw'
  subst hw'
  exact ⟨fs, hfs, (Except.ok.inj hs).symm⟩

theorem assign_outcome {field : Nat} (hpc : h.pc = .assign field) (hs : h.step c = .ok r) : HandlerOutcome h c r := by
  rw [Handler.step, hpc] at hs
  simp only at hs
  cases ha : (assignments h.now h.info)[field]? with
  | some f =>
      simp only [ha, Except.ok.injEq] at hs
      exact hs ▸ .assigned hpc ha
  | none =>
      simp only [ha, Except.ok.injEq] at hs
      exact hs ▸ .assignedAll hpc ha

theorem testMaster_outcome (hpc : h.pc = .testMaster) (hs : h.step c = .ok r) : HandlerOutcome h c r := by
  rw [Handler.step, hpc] at hs
  simp only at hs
  split_ifs at hs with hm
  · cases hs
    exact .stillMaster hpc hm
  · cases hs
    exact .notMaster hpc (by simpa using hm)

theorem testLock_outcome (ht : LockTree c.filesys) {a : Str} (hpc : h.pc = .testLock a) (hs : h.step c = .ok r) :
    HandlerOutcome h c r := by
  rw [Handler.step, hpc] at hs
  simp only [masterFilepath_eq, ht.fileExists_eq, bind, Except.bind, pure, Except.pure, Except.ok.injEq] at hs
  subst hs
  cases hl : lockData c.filesys (.master h.info.clusterid) with
  | some d => exact .lockFound (d := d) hpc hl
  | none => exact .lockFree hpc hl

theorem writeSlave_outcome (ht : LockTree c.filesys) (hok : HandlerOk h c) {a : Str} (hpc : h.pc = .writeSlave a)
    (hs : h.step c = .ok r) : HandlerOutcome h c r := by
  rw [HandlerOk, hpc] at hok
  rw [Handler.step, hpc] at hs
  have hdir : (lockDir c.filesys (.slave h.info.clusterid h.info.serverid)).isSome := by
    rw [lockDir_slave]
    exact hok.2
  obtain ⟨fs, hfs, rfl⟩ := write_lock ht hdir hs
  exact .slaveWritten hpc hfs

theorem writeMaster_outcome (ht : LockTree c.filesys) (hok : HandlerOk h c) {a : Str} (hpc : h.pc = .writeMaster a)
    (hs : h.step c = .ok r) : HandlerOutcome h c r := by
  rw [HandlerOk, hpc] at hok
  rw [Handler.step, hpc] at hs
  obtain ⟨fs, hfs, rfl⟩ := write_lock ht hok.2 hs
  exact .masterWritten hpc hfs

/-- The lock is created, or another handler has been faster. -/
theorem createMaster_outcome (ht : LockTree c.filesys) {a : Str} (hpc : h.pc = .createMaster a)
    (hs : h.step c = .ok r) : HandlerOutcome h c r := by
  rw [Handler.step, hpc] at hs
  obtain ⟨w, hc, hs⟩ := bind_eq_ok.mp hs
  rw [masterFilepath_eq] at hc
  have hservice := ht.service_of_atParent hc
  cases hl : lockData c.filesys (.master h.info.clusterid) with
  | none =>
      obtain ⟨fs, hc', hfs⟩ := hservice.create_of_none hl
      rw [hc, Except.ok.injEq] at hc'
      subst hc'
      exact Except.ok.inj hs ▸ .created hpc hl hfs
  | some d =>
      obtain ⟨fs, hc', hfs⟩ := hservice.create_of_some hl
      rw [hc, Except.ok.injEq] at hc'
      subst hc'
      exact Except.ok.inj hs ▸ .lost hpc hl hfs

theorem handler_outcome (ht : LockTree c.filesys) (hok : HandlerOk h c) (hs : h.step c = .ok r) :
    HandlerOutcome h c r := by
  cases hpc : h.pc with
  | lookup =>
      rw [Handler.step, hpc] at hs
      exact lookup_outcome hpc hs
  | assign field => exact assign_outcome hpc hs
  | testMaster => exact testMaster_outcome hpc hs
  | getAddress =>
      rw [Handler.step, hpc] at hs
      cases hs
      exact .address hpc
  | testLock a => exact testLock_outcome ht hpc hs
  | writeSlave a => exact writeSlave_outcome ht hok hpc hs
  | readMaster =>
      rw [Handler.step, hpc] at hs
      obtain ⟨code, hread⟩ := read_masterFilepath (h := h) ht
      simp only [hread, bind, Except.bind, pure, Except.pure, Except.ok.injEq] at hs
      exact hs ▸ .masterRead hpc
  | createMaster a => exact createMaster_outcome ht hpc hs
  | readWinner =>
      rw [Handler.step, hpc] at hs
      obtain ⟨code, hread⟩ := read_masterFilepath (h := h) ht
      simp only [hread, bind, Except.bind, pure, Except.pure, Except.ok.injEq] at hs
      exact hs ▸ .winnerRead hpc
  | writeMaster a => exact writeMaster_outcome ht hok hpc hs
  | findOther =>
      rw [Handler.step, hpc] at hs
      cases hs
      exact .otherFound hpc
  | setPath rawPath master sync =>
      rw [Handler.step, hpc] at hs
      cases hs
      cases master with
      | true => exact .masterPathSet hpc
      | false => exact .pathSet hpc
  | setMaster rawPath sync =>
      rw [Handler.step, hpc] at hs
      cases hs
      exact .masterSet hpc
  | returned status path =>
      rw [Handler.step, hpc] at hs
      cases hs
      exact .idle hpc

end

/-! ## What every step keeps -/

/-- The coordinator `c'` has every folder and every `zNode` of `c`. -/
structure Extends (c c' : SNSCoordinator) : Prop where
  dirs : ∀ l, (lockDir c.filesys l).isSome → (lockDir c'.filesys l).isSome
  zNodes : ∀ i k, (c.zNode? i k).isSome → (c'.zNode? i k).isSome

section

variable {h : Handler} {c c' : SNSCoordinator} {r : SNSCoordinator × Pc}

theorem Extends.handlerOk (he : Extends c c') (hok : HandlerOk h c) : HandlerOk h c' := by
  have hloc (hl : Located h c) : Located h c' := ⟨hl.clusterid, he.zNodes _ _ hl.zNode⟩
  have hdir (hd : HasDir h c) : HasDir h c' := he.dirs _ hd
  revert hok
  rw [HandlerOk, HandlerOk]
  cases h.pc with
  | lookup => exact id
  | returned _ _ => exact id
  | assign _ => exact hloc
  | testMaster => exact hloc
  | getAddress => exact hloc
  | testLock _ => exact hloc
  | createMaster _ => exact hloc
  | readWinner => exact hloc
  | writeSlave _ => exact And.imp hloc hdir
  | readMaster => exact And.imp hloc hdir
  | writeMaster _ => exact And.imp hloc hdir
  | findOther => exact And.imp hloc hdir
  | setMaster _ _ => exact And.imp hloc (And.imp_right hdir)
  | setPath rawPath master sync =>
      refine And.imp hloc ?_
      cases master with
      | true => exact And.imp_right hdir
      | false => exact Or.imp_right (And.imp_right hdir)

theorem Located.lt {c : SNSCoordinator} (hl : Located h c) : h.clusterIdx < c.clusters.length := by
  obtain ⟨z, hz⟩ := Option.isSome_iff_exists.mp hl.zNode
  exact c.lt_length_of_zNode? hz

theorem Located.withPc {c : SNSCoordinator} (hl : Located h c) (pc : Pc) : Located { h with pc } c :=
  ⟨hl.clusterid, hl.zNode⟩

theorem located_setServer {c : SNSCoordinator} (hi : h.clusterIdx < c.clusters.length)
    (hid : h.info.clusterid = h.clusterIdx + 1) (z : ZNode) (pc : Pc) :
    Located { h with pc } (h.setServer c z) := by
  refine ⟨hid, ?_⟩
  have := c.zNode?_setZNode hi h.serverId z h.clusterIdx h.serverId
  rw [if_pos ⟨rfl, rfl⟩] at this
  exact Option.isSome_of_eq_some this

theorem zNode?_setServer {c : SNSCoordinator} (hi : h.clusterIdx < c.clusters.length) (z : ZNode) (i : Nat)
    (k : Int) : (h.setServer c z).zNode? i k =
      if i = h.clusterIdx ∧ k = h.serverId then some z else c.zNode? i k :=
  c.zNode?_setZNode hi h.serverId z i k

theorem extends_setServer {c : SNSCoordinator} (hi : h.clusterIdx < c.clusters.length) (z : ZNode) :
    Extends c (h.setServer c z) := by
  refine ⟨fun _ hl => hl, fun i k hz => ?_⟩
  rw [zNode?_setServer hi]
  split_ifs
  · rfl
  · exact hz

theorem LockStep.extends {fs : FSMemory} {m : Lock → Option Str} (hfs : LockStep c.filesys fs m) :
    Extends c (c.withFilesys fs) :=
  ⟨hfs.dirs, fun _ _ hz => hz⟩

/-- A step keeps the tree of locks, every folder and every `zNode`, and leaves its handler in order. -/
structure HandlerKeeps (h : Handler) (c : SNSCoordinator) (r : SNSCoordinator × Pc) : Prop where
  tree : LockTree r.1.filesys
  ext : Extends c r.1
  ok : HandlerOk { h with pc := r.2 } r.1

theorem HandlerOutcome.keeps (ho : HandlerOutcome h c r) (ht : LockTree c.filesys) (hok : HandlerOk h c) :
    HandlerKeeps h c r := by
  have hrefl : Extends c c := ⟨fun _ hl => hl, fun _ _ hz => hz⟩
  cases ho with
  | rejected _ _ => exact ⟨ht, hrefl, trivial⟩
  | found _ hi hid => exact ⟨ht, extends_setServer hi _, located_setServer hi hid _ _⟩
  | assigned hpc _ =>
      rw [HandlerOk, hpc] at hok
      exact ⟨ht, extends_setServer hok.lt _, located_setServer hok.lt hok.clusterid _ _⟩
  | assignedAll hpc _ =>
      rw [HandlerOk, hpc] at hok
      exact ⟨ht, hrefl, hok.withPc _⟩
  | stillMaster _ _ => exact ⟨ht, hrefl, trivial⟩
  | notMaster hpc _ =>
      rw [HandlerOk, hpc] at hok
      exact ⟨ht, hrefl, hok.withPc _⟩
  | address hpc =>
      rw [HandlerOk, hpc] at hok
      exact ⟨ht, hrefl, hok.withPc _⟩
  | lockFound hpc hlock =>
      rw [HandlerOk, hpc] at hok
      have hdir : HasDir h c := lockDir_of_lockData (Option.isSome_of_eq_some hlock)
      exact ⟨ht, hrefl, hok.withPc _, hdir⟩
  | lockFree hpc _ =>
      rw [HandlerOk, hpc] at hok
      exact ⟨ht, hrefl, hok.withPc _⟩
  | slaveWritten hpc hfs =>
      rw [HandlerOk, hpc] at hok
      exact ⟨hfs.service.toLockTree, hfs.extends, ⟨hok.1.clusterid, hok.1.zNode⟩, hfs.dirs _ hok.2⟩
  | masterRead hpc =>
      rw [HandlerOk, hpc] at hok
      exact ⟨ht, hrefl, hok.1.withPc _, Or.inr ⟨rfl, hok.2⟩⟩
  | created hpc _ hfs =>
      rw [HandlerOk, hpc] at hok
      refine ⟨hfs.service.toLockTree, hfs.extends, ⟨hok.clusterid, hok.zNode⟩, ?_⟩
      exact lockDir_of_lockData (by rw [withFilesys, hfs.data, Function.update_self]; rfl)
  | lost hpc _ hfs =>
      rw [HandlerOk, hpc] at hok
      exact ⟨hfs.service.toLockTree, hfs.extends, hok.clusterid, hok.zNode⟩
  | winnerRead hpc =>
      rw [HandlerOk, hpc] at hok
      exact ⟨ht, hrefl, hok.withPc _, Or.inl rfl⟩
  | masterWritten hpc hfs =>
      rw [HandlerOk, hpc] at hok
      exact ⟨hfs.service.toLockTree, hfs.extends, ⟨hok.1.clusterid, hok.1.zNode⟩, hfs.dirs _ hok.2⟩
  | otherFound hpc =>
      rw [HandlerOk, hpc] at hok
      exact ⟨ht, hrefl, hok.1.withPc _, rfl, hok.2⟩
  | pathSet hpc =>
      rw [HandlerOk, hpc] at hok
      exact ⟨ht, extends_setServer hok.1.lt _, trivial⟩
  | masterPathSet hpc =>
      rw [HandlerOk, hpc] at hok
      exact ⟨ht, extends_setServer hok.1.lt _, located_setServer hok.1.lt hok.1.clusterid _ _, hok.2⟩
  | masterSet hpc =>
      rw [HandlerOk, hpc] at hok
      exact ⟨ht, extends_setServer hok.1.lt _, trivial⟩
  | idle _ => exact ⟨ht, hrefl, trivial⟩

end

/-! ## Handlers which nothing interrupts -/

/-- One step of a handler of the message `info`. -/
def HandlerStep (now : Int) (info : ServerInfo) (x y : SNSCoordinator × Pc) : Prop :=
  ({ now, info, pc := x.2 } : Handler).step x.1 = .ok y

section

variable {c : SNSCoordinator} {now : Int} {info : ServerInfo}

theorem server_setServer {h : Handler} (hi : h.clusterIdx < c.clusters.length) (z : ZNode) :
    h.server (h.setServer c z) = z := by
  rw [Handler.server, zNode?_setServer hi, if_pos ⟨rfl, rfl⟩]
  rfl

theorem setServer_setServer (h : Handler) (c : SNSCoordinator) (z z' : ZNode) :
    h.setServer (h.setServer c z) z' = h.setServer c z' :=
  c.setZNode_setZNode _ _ z z'

theorem assignments_run {h : Handler} (hi : h.clusterIdx < c.clusters.length) {l : List (ZNode → ZNode)}
    {n : Nat} (hl : (assignments h.now h.info).drop n = l) (z : ZNode) :
    Relation.ReflTransGen (HandlerStep h.now h.info) (h.setServer c z, .assign n)
      (h.setServer c (l.foldl (fun z f => f z) z), .testMaster) := by
  induction l generalizing n z with
  | nil =>
      refine .single ?_
      have hn : (assignments h.now h.info)[n]? = none := by
        rw [List.getElem?_eq_none_iff]
        exact List.drop_eq_nil_iff.mp hl
      simp [HandlerStep, Handler.step, hn]
  | cons f l ih =>
      have hn : (assignments h.now h.info)[n]? = some f := by
        rw [← List.head?_drop, hl]
        rfl
      have htail : (assignments h.now h.info).drop (n + 1) = l := by
        rw [← List.tail_drop, hl]
        rfl
      refine .head ?_ (ih htail (f z))
      have hserver := server_setServer hi z
      have hset := setServer_setServer h c z (f z)
      simp only [HandlerStep, Handler.step, hn]
      change Except.ok (h.setServer (h.setServer c z) (f (h.server (h.setServer c z))), Pc.assign (n + 1)) = _
      rw [hserver, hset]

theorem testMaster_step {h : Handler} (hi : h.clusterIdx < c.clusters.length) {z : ZNode} {pc : Pc}
    (hpc : (if z.master then .returned .OK { path := z.path, master := true } else .getAddress) = pc) :
    HandlerStep h.now h.info (h.setServer c z, .testMaster) (h.setServer c z, pc) := by
  subst hpc
  change (if (h.server (h.setServer c z)).master then
    Except.ok (h.setServer c z, Pc.returned _ { path := (h.server (h.setServer c z)).path, master := true })
    else Except.ok (h.setServer c z, .getAddress)) = _
  rw [server_setServer hi]
  split_ifs <;> rfl

theorem conclude_run {h : Handler} (hi : h.clusterIdx < c.clusters.length) (z : ZNode)
    (rawPath syncAddress : Str) (master : Bool) {r : SNSCoordinator × Status × Path}
    (hr : conclude (h.setServer c z) h.clusterIdx h.serverId z rawPath master syncAddress = r) :
    Relation.ReflTransGen (HandlerStep h.now h.info) (h.setServer c z, .setPath rawPath master syncAddress)
      (r.1, .returned r.2.1 r.2.2) := by
  subst hr
  have hset : HandlerStep h.now h.info (h.setServer c z, .setPath rawPath master syncAddress)
      (h.setServer c { z with path := rawPath },
        if master then .setMaster rawPath syncAddress
        else .returned .OK { path := rawPath, master := false, syncAddress }) := by
    change Except.ok (h.setServer (h.setServer c z) { h.server (h.setServer c z) with path := rawPath }, _) = _
    rw [server_setServer hi, setServer_setServer]
  refine .head hset ?_
  have hend := setServer_setServer h c z
    { z with path := rawPath, master := if master then true else z.master }
  simp only [conclude]
  change Relation.ReflTransGen _ _ (h.setServer (h.setServer c z) _, _)
  rw [hend]
  cases master with
  | false => exact .refl
  | true =>
      refine .single ?_
      change Except.ok (h.setServer (h.setServer c { z with path := rawPath })
        { h.server (h.setServer c { z with path := rawPath }) with master := true }, _) = _
      rw [server_setServer hi, setServer_setServer]
      rfl

/-- From the election on, a handler which nothing interrupts does what `elect` does. -/
theorem elect_run {h : Handler} (hi : h.clusterIdx < c.clusters.length) {z : ZNode}
    {r : SNSCoordinator × Status × Path} (hr : (h.setServer c z).elect h.clusterIdx z h.info = .ok r) :
    Relation.ReflTransGen (HandlerStep h.now h.info) (h.setServer c z, .getAddress)
      (r.1, .returned r.2.1 r.2.2) := by
  have haddress : HandlerStep h.now h.info (h.setServer c z, .getAddress)
      (h.setServer c z, .testLock z.getAddress) := by
    change Except.ok (h.setServer c z, Pc.testLock (h.server (h.setServer c z)).getAddress) = _
    rw [server_setServer hi]
  refine .head haddress ?_
  obtain ⟨found, hex, hr⟩ := bind_eq_ok.mp hr
  refine .head (b := (_, if found then .writeSlave z.getAddress else .createMaster z.getAddress))
    (bind_eq_ok.mpr ⟨found, hex, rfl⟩) ?_
  cases found with
  | true =>
      obtain ⟨w, hw, hr⟩ := bind_eq_ok.mp hr
      obtain ⟨d, hread, hr⟩ := bind_eq_ok.mp hr
      refine .head (b := (h.setServer (c.withFilesys w.1) z, .readMaster))
        (bind_eq_ok.mpr ⟨w, hw, rfl⟩) ?_
      refine .head (b := (_, .setPath h.slaveFilepath false d.2)) (bind_eq_ok.mpr ⟨d, hread, rfl⟩) ?_
      exact conclude_run (c := c.withFilesys w.1) hi z _ _ _ (Except.ok.inj hr)
  | false =>
      obtain ⟨w, hw, hr⟩ := bind_eq_ok.mp hr
      refine .head (b := (h.setServer (c.withFilesys w.1) z,
        if w.2 < 0 then .readWinner else .writeMaster z.getAddress)) (bind_eq_ok.mpr ⟨w, hw, rfl⟩) ?_
      by_cases hs : w.2 < 0
      · simp only [hs, ↓reduceIte] at hr ⊢
        obtain ⟨d, hread, hr⟩ := bind_eq_ok.mp hr
        refine .head (b := (_, .setPath [] false d.2)) (bind_eq_ok.mpr ⟨d, hread, rfl⟩) ?_
        exact conclude_run (c := c.withFilesys w.1) hi z _ _ _ (Except.ok.inj hr)
      · simp only [hs, ↓reduceIte] at hr ⊢
        obtain ⟨v, hv, hr⟩ := bind_eq_ok.mp hr
        refine .head (b := (h.setServer (c.withFilesys v.1) z, .findOther))
          (bind_eq_ok.mpr ⟨v, hv, rfl⟩) ?_
        have hother : HandlerStep h.now h.info (h.setServer (c.withFilesys v.1) z, .findOther)
            (h.setServer (c.withFilesys v.1) z, .setPath h.masterFilepath true
              (if !h.info.registered then
                (((h.setServer c z).getFirstAvailableClusterMaster h.clusterIdx).map (·.getAddress)).getD []
              else [])) := rfl
        refine .head hother ?_
        exact conclude_run (c := c.withFilesys v.1) hi z _ _ _ (Except.ok.inj hr)

/-- A handler which nothing interrupts does what the atomic `heartbeat` does. -/
theorem heartbeat_run {r : SNSCoordinator × Status × Path} (hr : c.heartbeat now info = .ok r) :
    Relation.ReflTransGen (HandlerStep now info) (c, .lookup) (r.1, .returned r.2.1 r.2.2) := by
  obtain ⟨clusterIdx, hidx, hr⟩ := bind_eq_ok.mp hr
  have hidx' : clusterIdx.toNat = ({ now, info } : Handler).clusterIdx := by
    rw [idToIndex] at hidx
    split_ifs at hidx
    cases hidx
    rfl
  simp only [hidx'] at hr
  split_ifs at hr with hrange hclash hm
  · cases hr
    refine .single (bind_eq_ok.mpr ⟨clusterIdx, hidx, ?_⟩)
    simp only [hrange, ↓reduceIte]
    rfl
  · cases hr
    refine .single (bind_eq_ok.mpr ⟨clusterIdx, hidx, ?_⟩)
    simp only [hrange]
    exact if_pos hclash
  all_goals
    have hi : ({ now, info } : Handler).clusterIdx < c.clusters.length := by
      simp only [Bool.or_eq_true, decide_eq_true_eq, not_or] at hrange
      omega
    have hfound : HandlerStep now info (c, .lookup)
        (({ now, info } : Handler).setServer c (({ now, info } : Handler).server c), .assign 0) := by
      refine bind_eq_ok.mpr ⟨clusterIdx, hidx, ?_⟩
      simp only [hrange]
      exact if_neg hclash
    refine .head hfound ((assignments_run (h := { now, info }) hi rfl _).trans ?_)
  · refine .single ((testMaster_step (h := { now, info }) hi (if_pos hm)).trans ?_)
    rw [← Except.ok.inj hr]
    rfl
  · exact .head (testMaster_step (h := { now, info }) hi (if_neg hm)) (elect_run (h := { now, info }) hi hr)

end

/-! ## Checks which nothing interrupts -/

theorem zNode_withZNode {s : System} {i : Nat} {k : Int} (hi : i < s.coordinator.clusters.length) (z : ZNode)
    (check : CheckPc) : (s.withZNode i k z check).zNode i k = z := by
  have := s.coordinator.zNode?_setZNode hi k z i k
  rw [if_pos ⟨rfl, rfl⟩] at this
  exact congrArg (·.getD {}) this

@[simp] theorem System.withZNode_check (s : System) (i : Nat) (k : Int) (z : ZNode) (check : CheckPc) :
    (s.withZNode i k z check).check = check := rfl

theorem withZNode_withZNode (s : System) (i : Nat) (k : Int) (z z' : ZNode) (check check' : CheckPc) :
    (s.withZNode i k z check).withZNode i k z' check' = s.withZNode i k z' check' := by
  have := s.coordinator.setZNode_setZNode i k z z'
  exact congrArg (fun c => { s with coordinator := c, check := check' }) this

/-- A check which nothing interrupts does what the atomic `checkServer` does. -/
theorem checkServer_run {s : System} (hidle : s.check = .idle) {now : Int} {i : Nat} {k : Int}
    {c' : SNSCoordinator} (h : s.coordinator.checkServer now i k = .ok c') :
    ∃ s₁, s.step (.check now i k) = .ok s₁ ∧
      Relation.ReflTransGen (fun s s' => s.proceed = .ok s') s₁ { s with coordinator := c' } := by
  rw [checkServer] at h
  cases hz : s.coordinator.zNode? i k with
  | none =>
      rw [hz] at h
      cases h
      exact ⟨s, by simp [System.step, hz], .refl⟩
  | some z =>
      have hi := s.coordinator.lt_length_of_zNode? hz
      have hz₀ : s.zNode i k = z := by rw [System.zNode, hz]; rfl
      simp only [hz] at h
      by_cases hlate : now - z.lastHeartbeat > maxHeartbeatDelay
      · rw [if_pos hlate] at h
        let counted : ZNode := { z with missedHeartbeats := z.missedHeartbeats + 1 }
        refine ⟨{ s with check := .count i k }, by simp [System.step, hidle, hz, hlate], ?_⟩
        refine .head (b := s.withZNode i k counted (.test i k)) ?_ ?_
        · change Except.ok (s.withZNode i k { s.zNode i k with
            missedHeartbeats := (s.zNode i k).missedHeartbeats + 1 } _) = _
          rw [hz₀]
        have htest : (s.withZNode i k counted (.test i k)).proceed = .ok (s.withZNode i k counted
            (if counted.missedHeartbeats = 2 then .clear i k else .idle)) := by
          simp only [System.proceed, System.withZNode_check, zNode_withZNode hi]
          rfl
        refine .head htest ?_
        by_cases htwo : z.missedHeartbeats + 1 = 2
        · rw [if_pos htwo] at h
          obtain ⟨r, hr, h⟩ := bind_eq_ok.mp h
          cases h
          rw [if_pos htwo]
          refine .head (b := s.withZNode i k { counted with master := false } (.release i k)) ?_ (.single ?_)
          · change Except.ok ((s.withZNode i k counted _).withZNode i k
              { (s.withZNode i k counted (.clear i k)).zNode i k with master := false } _) = _
            rw [zNode_withZNode hi, withZNode_withZNode]
          · refine bind_eq_ok.mpr ⟨r, ?_, ?_⟩
            · rw [zNode_withZNode hi]
              exact hr
            · rw [← hidle]
              rfl
        · rw [if_neg htwo] at h
          cases h
          rw [if_neg htwo, ← hidle]
          exact .refl
      · rw [if_neg hlate] at h
        cases h
        exact ⟨s, by simp [System.step, hidle, hz, hlate], .refl⟩
end DistributedSns.Coordinator
