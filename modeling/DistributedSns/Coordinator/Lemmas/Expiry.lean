import DistributedSns.Coordinator.Lemmas.Interleaved

/-!
# Who holds the master lock

Between the steps of handlers and check loop the flag of a `zNode` does not say who holds the lock of its
cluster: a handler may have created the lock and not yet set the flag, and the check loop clears the flag
before it releases the lock.
-/

namespace DistributedSns.Coordinator

open Lib FSWrapper SNSCoordinator

/-! ## Holding the lock -/

/-- The handler has created the master lock and not returned yet. -/
def Pc.winning : Pc → Bool
  | .writeMaster _ | .findOther | .setPath _ true _ | .setMaster _ _ => true
  | _ => false

def Handler.serves (h : Handler) (clusterIdx : Nat) (serverId : Int) : Bool :=
  h.clusterIdx = clusterIdx && h.serverId = serverId

namespace System

/-- The path of the server's `zNode` is the master lock. -/
def atMaster (s : System) (clusterIdx : Nat) (serverId : Int) : Bool :=
  (s.zNode clusterIdx serverId).path = getMasterFilepath (clusterIdx + 1)

/-- The server is flagged as master, or one of its handlers has created the master lock, or the check has
cleared its flag and is about to release the master lock. -/
def holdsLock (s : System) (clusterIdx : Nat) (serverId : Int) : Bool :=
  (s.zNode clusterIdx serverId).master && s.atMaster clusterIdx serverId ||
  s.handlers.any (fun h => h.serves clusterIdx serverId && h.pc.winning) ||
  decide (s.check = .release clusterIdx serverId) && s.atMaster clusterIdx serverId

/-- The step is a handler which did not create the lock storing its path into the `zNode` of a server which
holds the lock. -/
def overwritesHolder (s : System) : Action → Bool
  | .run n =>
    match s.handlers[n]? with
    | some { pc := .setPath _ false _, now, info } =>
      s.holdsLock (Handler.clusterIdx { now, info }) (Handler.serverId { now, info })
    | _ => false
  | _ => false

theorem holdsLock_iff {s : System} {i : Nat} {k : Int} : s.holdsLock i k = true ↔
    ((s.zNode i k).master = true ∧ (s.zNode i k).path = getMasterFilepath (i + 1)) ∨
    (∃ h ∈ s.handlers, h.clusterIdx = i ∧ h.serverId = k ∧ h.pc.winning = true) ∨
    (s.check = .release i k ∧ (s.zNode i k).path = getMasterFilepath (i + 1)) := by
  simp [holdsLock, atMaster, Handler.serves, or_assoc, and_assoc]

theorem overwritesHolder_run {s : System} {n : Nat} {h : Handler} {rawPath sync : Str}
    (hn : s.handlers[n]? = some h) (hpc : h.pc = .setPath rawPath false sync) :
    s.overwritesHolder (.run n) = s.holdsLock h.clusterIdx h.serverId := by
  obtain ⟨now, info, pc⟩ := h
  subst hpc
  simp only [overwritesHolder, hn]
  rfl

end System

/-! ## The invariant -/

/-- The path of the `zNode` is still empty or names a lock in the folder of its cluster. -/
def PathOk (c : SNSCoordinator) (i : Nat) (k : Int) (path : Str) : Prop :=
  path = [] ∨ (path = getMasterFilepath (i + 1) ∨ path = getSlaveFilepath (i + 1) k) ∧
    (lockDir c.filesys (.master (i + 1))).isSome

def CheckOk (s : System) : Prop :=
  match s.check with
  | .idle => True
  | .count i k | .test i k | .clear i k | .release i k => (s.coordinator.zNode? i k).isSome

structure SystemInv (s : System) : Prop where
  tree : LockTree s.coordinator.filesys
  paths : ∀ i k z, s.coordinator.zNode? i k = some z → PathOk s.coordinator i k z.path
  handlers : ∀ h ∈ s.handlers, HandlerOk h s.coordinator
  winners : ∀ h ∈ s.handlers, ∀ rawPath sync, h.pc = .setMaster rawPath sync →
    (h.server s.coordinator).path = getMasterFilepath (h.clusterIdx + 1)
  check : CheckOk s
  held : ∀ i : Nat, (lockData s.coordinator.filesys (.master (i + 1))).isSome → ∃ k, s.holdsLock i k = true

section

variable {s : System} {c c' : SNSCoordinator} {h : Handler}

theorem Extends.pathOk (he : Extends c c') {i : Nat} {k : Int} {path : Str} (hp : PathOk c i k path) :
    PathOk c' i k path :=
  hp.imp_right fun hp => ⟨hp.1, he.dirs _ hp.2⟩

theorem Extends.checkOk (he : Extends s.coordinator c') {handlers : List Handler} (hc : CheckOk s) :
    CheckOk { s with coordinator := c', handlers } := by
  rw [CheckOk] at hc ⊢
  cases hs : s.check with
  | idle => trivial
  | count i k => rw [hs] at hc; exact he.zNodes _ _ hc
  | test i k => rw [hs] at hc; exact he.zNodes _ _ hc
  | clear i k => rw [hs] at hc; exact he.zNodes _ _ hc
  | release i k => rw [hs] at hc; exact he.zNodes _ _ hc

end

/-! ## One handler moves -/

section

variable {s : System} {n : Nat} {h : Handler}

/-- Handler `n` has moved on and the coordinator has changed. -/
def moved (s : System) (n : Nat) (h : Handler) (c : SNSCoordinator) (pc : Pc) : System :=
  { s with coordinator := c, handlers := s.handlers.set n { h with pc } }

/-- A step of a handler, or nothing if there is no such handler. -/
theorem run_cases {s' : System} (h : s.step (.run n) = .ok s') :
    (s.handlers[n]? = none ∧ s' = s) ∨ ∃ h r, s.handlers[n]? = some h ∧ h.step s.coordinator = .ok r ∧
      s' = moved s n h r.1 r.2 := by
  rw [System.step] at h
  cases hn : s.handlers[n]? with
  | none =>
      simp only [hn] at h
      cases h
      exact Or.inl ⟨rfl, rfl⟩
  | some h₀ =>
      simp only [hn] at h
      obtain ⟨r, hr, h⟩ := bind_eq_ok.mp h
      cases h
      exact Or.inr ⟨h₀, r, rfl, hr, rfl⟩

theorem mem_moved {c : SNSCoordinator} {pc : Pc} {h' : Handler} (hm : h' ∈ (moved s n h c pc).handlers) :
    h' = { h with pc } ∨ h' ∈ s.handlers :=
  (List.mem_or_eq_of_mem_set hm).symm

/-- A step which keeps what the others rely on leaves every handler all right. -/
theorem HandlerKeeps.handlers {c : SNSCoordinator} {pc : Pc} (hk : HandlerKeeps h s.coordinator (c, pc))
    (hs : ∀ h' ∈ s.handlers, HandlerOk h' s.coordinator) : ∀ h' ∈ (moved s n h c pc).handlers, HandlerOk h' c := by
  intro h' hm
  rcases mem_moved hm with rfl | hm
  · exact hk.ok
  · exact hk.ext.handlerOk (hs h' hm)

theorem self_mem_moved (hn : s.handlers[n]? = some h) (c : SNSCoordinator) (pc : Pc) :
    ({ h with pc } : Handler) ∈ (moved s n h c pc).handlers := by
  obtain ⟨hlt, -⟩ := List.getElem?_eq_some_iff.mp hn
  exact List.mem_set hlt _

theorem mem_of_moved (hn : s.handlers[n]? = some h) (c : SNSCoordinator) (pc : Pc) {h' : Handler}
    (hm : h' ∈ s.handlers) : h' = h ∨ h' ∈ (moved s n h c pc).handlers := by
  obtain ⟨m, hm⟩ := List.mem_iff_getElem?.mp hm
  by_cases he : n = m
  · subst he
    rw [hn, Option.some.injEq] at hm
    exact Or.inl hm.symm
  · exact Or.inr (List.mem_iff_getElem?.mpr ⟨m, by simpa [moved, List.getElem?_set, he] using hm⟩)

/-- The handler's step leaves the `zNode`s alone. -/
theorem SystemInv.locks (hs : SystemInv s) (hn : s.handlers[n]? = some h) {fs : FSMemory} {pc : Pc}
    (hk : HandlerKeeps h s.coordinator (s.coordinator.withFilesys fs, pc))
    (hdata : ∀ i : Nat, (lockData fs (.master (i + 1))).isSome →
      (lockData s.coordinator.filesys (.master (i + 1))).isSome ∨ pc.winning = true ∧ h.clusterIdx = i)
    (hset : ∀ rawPath sync, pc = .setMaster rawPath sync → False)
    (hwin : h.pc.winning = true → pc.winning = true) :
    SystemInv (moved s n h (s.coordinator.withFilesys fs) pc) := by
  have hkeep (i : Nat) (k : Int) (hh : s.holdsLock i k = true) :
      (moved s n h (s.coordinator.withFilesys fs) pc).holdsLock i k = true := by
    rw [System.holdsLock_iff] at hh ⊢
    refine hh.imp id (Or.imp ?_ id)
    rintro ⟨h', hm, hi, hid, hw⟩
    rcases mem_of_moved hn (s.coordinator.withFilesys fs) pc hm with rfl | hm'
    · exact ⟨_, self_mem_moved hn _ pc, hi, hid, hwin hw⟩
    · exact ⟨h', hm', hi, hid, hw⟩
  constructor
  · exact hk.tree
  · exact fun i k z hz => hk.ext.pathOk (hs.paths i k z hz)
  · exact hk.handlers hs.handlers
  · intro h' hm rawPath sync hpc
    rcases mem_moved hm with rfl | hm
    · exact (hset rawPath sync hpc).elim
    · exact hs.winners h' hm rawPath sync hpc
  · exact hk.ext.checkOk hs.check
  · intro i hi
    rcases hdata i hi with hold | ⟨hw, hidx⟩
    · obtain ⟨k, hk⟩ := hs.held i hold
      exact ⟨k, hkeep i k hk⟩
    · exact ⟨h.serverId, System.holdsLock_iff.mpr
        (Or.inr (Or.inl ⟨_, self_mem_moved hn _ pc, hidx, rfl, hw⟩))⟩

/-- The handler's step changes the `zNode` of its server, which keeps the lock if it held it. -/
theorem SystemInv.server (hs : SystemInv s) (hn : s.handlers[n]? = some h) {z : ZNode} {pc : Pc}
    (hi : h.clusterIdx < s.coordinator.clusters.length)
    (hk : HandlerKeeps h s.coordinator (h.setServer s.coordinator z, pc))
    (hpath : PathOk s.coordinator h.clusterIdx h.serverId z.path)
    (hset : ∀ rawPath sync, pc = .setMaster rawPath sync → z.path = getMasterFilepath (h.clusterIdx + 1))
    (hkeeps : z.path = (h.server s.coordinator).path ∨ z.path = getMasterFilepath (h.clusterIdx + 1) ∨
      s.holdsLock h.clusterIdx h.serverId = false)
    (hmaster : (h.server s.coordinator).master = true → z.master = true)
    (hwin : h.pc.winning = true → pc.winning = true ∨
      z.master = true ∧ z.path = getMasterFilepath (h.clusterIdx + 1)) :
    SystemInv (moved s n h (h.setServer s.coordinator z) pc) := by
  have hzNode (i : Nat) (k : Int) : (moved s n h (h.setServer s.coordinator z) pc).zNode i k =
      if i = h.clusterIdx ∧ k = h.serverId then z else s.zNode i k := by
    have hget := congrArg (·.getD {}) (zNode?_setServer hi z i k)
    refine hget.trans ?_
    split_ifs <;> rfl
  -- whoever holds the lock keeps its path
  have hpathKept {i : Nat} {k : Int} (hh : s.holdsLock i k = true)
      (hp : (s.zNode i k).path = getMasterFilepath (i + 1)) :
      ((moved s n h (h.setServer s.coordinator z) pc).zNode i k).path = getMasterFilepath (i + 1) := by
    rw [hzNode]
    split_ifs with heq
    · rw [heq.1] at hp hh ⊢
      rw [heq.2] at hp hh
      rcases hkeeps with hk | hk | hk
      · rw [hk]; exact hp
      · exact hk
      · simp [hh] at hk
    · exact hp
  have hkeep (i : Nat) (k : Int) (hh : s.holdsLock i k = true) :
      (moved s n h (h.setServer s.coordinator z) pc).holdsLock i k = true := by
    have hh' := hh
    rw [System.holdsLock_iff] at hh' ⊢
    rcases hh' with ⟨hm, hp⟩ | ⟨h', hmem, hi', hk', hw⟩ | ⟨hc, hp⟩
    · refine Or.inl ⟨?_, hpathKept hh hp⟩
      rw [hzNode]
      split_ifs with heq
      · rw [heq.1, heq.2] at hm
        exact hmaster hm
      · exact hm
    · rcases mem_of_moved hn (h.setServer s.coordinator z) pc hmem with rfl | hmem'
      · rcases hwin hw with hw' | ⟨hm, hp⟩
        · exact Or.inr (Or.inl ⟨_, self_mem_moved hn _ pc, hi', hk', hw'⟩)
        · refine Or.inl ?_
          rw [hzNode, if_pos ⟨hi'.symm, hk'.symm⟩, ← hi']
          exact ⟨hm, hp⟩
      · exact Or.inr (Or.inl ⟨h', hmem', hi', hk', hw⟩)
    · exact Or.inr (Or.inr ⟨hc, hpathKept hh hp⟩)
  constructor
  · exact hs.tree
  · intro i k z' hz'
    replace hz' : (h.setServer s.coordinator z).zNode? i k = some z' := hz'
    rw [zNode?_setServer hi] at hz'
    split_ifs at hz' with heq
    · cases hz'
      rw [heq.1, heq.2]
      exact hk.ext.pathOk hpath
    · exact hk.ext.pathOk (hs.paths i k z' hz')
  · exact hk.handlers hs.handlers
  · intro h' hm rawPath sync hpc
    rcases mem_moved hm with rfl | hm
    · have hself := hzNode h.clusterIdx h.serverId
      rw [if_pos ⟨rfl, rfl⟩] at hself
      exact (congrArg ZNode.path hself).trans (hset rawPath sync hpc)
    · refine hpathKept (k := h'.serverId) ?_ (hs.winners h' hm rawPath sync hpc)
      exact System.holdsLock_iff.mpr (Or.inr (Or.inl ⟨h', hm, rfl, rfl, by rw [hpc]; rfl⟩))
  · exact hk.ext.checkOk hs.check
  · intro i hi'
    obtain ⟨k, hk⟩ := hs.held i hi'
    exact ⟨k, hkeep i k hk⟩

theorem SystemInv.silent (hs : SystemInv s) (hn : s.handlers[n]? = some h) {pc : Pc}
    (hk : HandlerKeeps h s.coordinator (s.coordinator, pc))
    (hset : ∀ rawPath sync, pc = .setMaster rawPath sync → False)
    (hwin : h.pc.winning = true → pc.winning = true) : SystemInv (moved s n h s.coordinator pc) :=
  hs.locks hn hk (fun _ hl => Or.inl hl) hset hwin

theorem SystemInv.server_pathOk (hs : SystemInv s) (h : Handler) :
    PathOk s.coordinator h.clusterIdx h.serverId (h.server s.coordinator).path := by
  cases hz : s.coordinator.zNode? h.clusterIdx h.serverId with
  | none =>
      rw [Handler.server, hz]
      exact Or.inl rfl
  | some z =>
      rw [Handler.server, hz]
      exact hs.paths _ _ z hz

theorem assignment_keeps {now : Int} {info : ServerInfo} {f : ZNode → ZNode}
    (hf : f ∈ assignments now info) (z : ZNode) : (f z).path = z.path ∧ (f z).master = z.master := by
  simp only [assignments, List.mem_cons, List.not_mem_nil, or_false] at hf
  rcases hf with rfl | rfl | rfl | rfl | rfl | rfl | rfl <;> exact ⟨rfl, rfl⟩

/-- Writing the master lock of the handler's cluster only affects that lock. -/
theorem masterData_update {fs : FSMemory} {m : Lock → Option Str} {d : Option Str} {c : SNSCoordinator}
    (hl : Located h c) (hfs : LockStep c.filesys fs m)
    (hm : m = Function.update (lockData c.filesys) (.master h.info.clusterid) d) (i : Nat)
    (hi : (lockData fs (.master (i + 1))).isSome) :
    (lockData c.filesys (.master (i + 1))).isSome ∨ h.clusterIdx = i := by
  by_cases he : h.clusterIdx = i
  · exact Or.inr he
  · left
    rwa [hfs.data, hm, Function.update_of_ne] at hi
    rw [hl.clusterid]
    simpa using fun hn : i = h.clusterIdx => he hn.symm

theorem SystemInv.run (hs : SystemInv s) (hn : s.handlers[n]? = some h)
    (hC : s.overwritesHolder (.run n) = false) {r : SNSCoordinator × Pc}
    (ho : HandlerOutcome h s.coordinator r) : SystemInv (moved s n h r.1 r.2) := by
  have hok := hs.handlers h (List.mem_of_getElem? hn)
  have hk := ho.keeps hs.tree hok
  have hpathOk := hs.server_pathOk h
  cases ho with
  | rejected hpc _ => exact hs.silent hn hk (by simp) (by simp [hpc, Pc.winning])
  | found hpc hi hid => exact hs.server hn hi hk hpathOk (by simp) (Or.inl rfl) id (by simp [hpc, Pc.winning])
  | assigned hpc ha =>
      rw [HandlerOk, hpc] at hok
      obtain ⟨hp, hm⟩ := assignment_keeps (List.mem_of_getElem? ha) (h.server s.coordinator)
      exact hs.server hn hok.lt hk (hp ▸ hpathOk) (by simp) (Or.inl hp) (fun hm' => hm.trans hm')
        (by simp [hpc, Pc.winning])
  | assignedAll hpc _ => exact hs.silent hn hk (by simp) (by simp [hpc, Pc.winning])
  | stillMaster hpc _ => exact hs.silent hn hk (by simp) (by simp [hpc, Pc.winning])
  | notMaster hpc _ => exact hs.silent hn hk (by simp) (by simp [hpc, Pc.winning])
  | address hpc => exact hs.silent hn hk (by simp) (by simp [hpc, Pc.winning])
  | lockFound hpc _ => exact hs.silent hn hk (by simp) (by simp [hpc, Pc.winning])
  | lockFree hpc _ => exact hs.silent hn hk (by simp) (by simp [hpc, Pc.winning])
  | slaveWritten hpc hfs =>
      refine hs.locks hn hk (fun i hi => ?_) (by simp) (by simp [hpc, Pc.winning])
      rw [hfs.data, Function.update_of_ne (by simp)] at hi
      exact Or.inl hi
  | masterRead hpc => exact hs.silent hn hk (by simp) (by simp [hpc, Pc.winning])
  | created hpc _ hfs =>
      rw [HandlerOk, hpc] at hok
      exact hs.locks hn hk (fun i hi => (masterData_update hok hfs rfl i hi).imp_right fun he => ⟨rfl, he⟩)
        (by simp) (by simp [Pc.winning])
  | lost hpc _ hfs =>
      exact hs.locks hn hk (fun i hi => Or.inl (by rwa [hfs.data] at hi)) (by simp) (by simp [hpc, Pc.winning])
  | winnerRead hpc => exact hs.silent hn hk (by simp) (by simp [hpc, Pc.winning])
  | masterWritten hpc hfs =>
      rw [HandlerOk, hpc] at hok
      exact hs.locks hn hk (fun i hi => (masterData_update hok.1 hfs rfl i hi).imp_right fun he => ⟨rfl, he⟩)
        (by simp) (by simp [Pc.winning])
  | otherFound hpc => exact hs.silent hn hk (by simp) (by simp [Pc.winning])
  | @pathSet rawPath sync hpc =>
      rw [HandlerOk, hpc] at hok
      rw [System.overwritesHolder_run hn hpc] at hC
      have hnew : PathOk s.coordinator h.clusterIdx h.serverId rawPath := by
        refine hok.2.imp_right ?_
        rintro ⟨rfl, hdir⟩
        rw [HasDir, hok.1.clusterid] at hdir
        exact ⟨Or.inr (by rw [Handler.slaveFilepath, hok.1.clusterid]; rfl), hdir⟩
      exact hs.server hn hok.1.lt hk hnew (by simp) (Or.inr (Or.inr hC)) id (by simp [hpc, Pc.winning])
  | @masterPathSet rawPath sync hpc =>
      rw [HandlerOk, hpc] at hok
      obtain ⟨hl, rfl, hdir⟩ := hok
      have hp : h.masterFilepath = getMasterFilepath (h.clusterIdx + 1) := by
        rw [Handler.masterFilepath, hl.clusterid]
      rw [HasDir, hl.clusterid] at hdir
      exact hs.server hn hl.lt hk (Or.inr ⟨Or.inl hp, hdir⟩) (fun _ _ _ => hp) (Or.inr (Or.inl hp)) id
        (fun _ => Or.inl rfl)
  | masterSet hpc =>
      rw [HandlerOk, hpc] at hok
      have hp := hs.winners h (List.mem_of_getElem? hn) _ _ hpc
      exact hs.server hn hok.1.lt hk hpathOk (by simp) (Or.inl rfl) (fun _ => rfl) (fun _ => Or.inr ⟨rfl, hp⟩)
  | idle hpc => exact hs.silent hn hk (by simp) (by simp [hpc, Pc.winning])

end

/-! ## The check loop moves -/

section

variable {s s' : System}

/-- The check changes the `zNode` of the server it is at and keeps its path. -/
theorem SystemInv.withZNode (hs : SystemInv s) {i : Nat} {k : Int}
    (hz : (s.coordinator.zNode? i k).isSome) {z : ZNode} {check : CheckPc}
    (hpath : z.path = (s.zNode i k).path) (hcheck : ∀ c, (c.zNode? i k).isSome → CheckOk ⟨c, [], check⟩)
    (hkeep : (s.zNode i k).master = true → z.master = true ∨ check = .release i k)
    (hnot : ∀ i k, s.check ≠ .release i k) : SystemInv (s.withZNode i k z check) := by
  obtain ⟨z₀, hz₀⟩ := Option.isSome_iff_exists.mp hz
  have hi := s.coordinator.lt_length_of_zNode? hz₀
  have hzNode? (i' : Nat) (k' : Int) := s.coordinator.zNode?_setZNode hi k z i' k'
  have hzNode (i' : Nat) (k' : Int) : (s.withZNode i k z check).zNode i' k' =
      if i' = i ∧ k' = k then z else s.zNode i' k' := by
    have hget := congrArg (·.getD {}) (hzNode? i' k')
    refine hget.trans ?_
    split_ifs <;> rfl
  have hpaths (i' : Nat) (k' : Int) :
      ((s.withZNode i k z check).zNode i' k').path = (s.zNode i' k').path := by
    rw [hzNode]
    split_ifs with he
    · rw [hpath, he.1, he.2]
    · rfl
  have he : Extends s.coordinator (s.coordinator.setZNode i k z) := by
    refine ⟨fun _ hl => hl, fun i' k' hz' => ?_⟩
    rw [hzNode?]
    split_ifs
    · rfl
    · exact hz'
  constructor
  · exact hs.tree
  · intro i' k' z' hz'
    replace hz' : (s.coordinator.setZNode i k z).zNode? i' k' = some z' := hz'
    rw [hzNode?] at hz'
    split_ifs at hz' with heq
    · cases hz'
      rw [heq.1, heq.2, hpath, System.zNode, hz₀]
      exact he.pathOk (hs.paths i k z₀ hz₀)
    · exact he.pathOk (hs.paths i' k' z' hz')
  · exact fun h hm => he.handlerOk (hs.handlers h hm)
  · intro h hm rawPath sync hpc
    exact (hpaths h.clusterIdx h.serverId).trans (hs.winners h hm rawPath sync hpc)
  · exact hcheck _ (he.zNodes i k hz)
  · intro i' hi'
    obtain ⟨k', hk'⟩ := hs.held i' hi'
    refine ⟨k', ?_⟩
    rw [System.holdsLock_iff] at hk' ⊢
    rcases hk' with ⟨hm, hp⟩ | hwin | ⟨hrel, _⟩
    · rw [hpaths]
      by_cases heq : i' = i ∧ k' = k
      · rcases hkeep (by rw [heq.1, heq.2] at hm; exact hm) with hm' | hc
        · exact Or.inl ⟨by rw [hzNode, if_pos heq]; exact hm', hp⟩
        · exact Or.inr (Or.inr ⟨by rw [heq.1, heq.2]; exact hc, hp⟩)
      · exact Or.inl ⟨by rw [hzNode, if_neg heq]; exact hm, hp⟩
    · exact Or.inr (Or.inl hwin)
    · exact absurd hrel (hnot i' k')

/-- What a removal does to the locks. An empty path leaves the mutex locked and the tree as it is. -/
theorem remove_cases {fs fs' : FSMemory} (ht : LockTree fs) {i : Nat} {k code : Int} {path : Str}
    (hpath : path = [] ∨ (path = getMasterFilepath (i + 1) ∨ path = getSlaveFilepath (i + 1) k) ∧
      (lockDir fs (.master (i + 1))).isSome)
    (hr : fs.remove path = .ok (fs', code)) :
    LockTree fs' ∧ (∀ l, (lockDir fs l).isSome → (lockDir fs' l).isSome) ∧
      ∀ j : Nat, (lockData fs' (.master (j + 1))).isSome →
        (lockData fs (.master (j + 1))).isSome ∧ (path = getMasterFilepath (i + 1) → j ≠ i) := by
  have hservice := ht.service_of_atParent hr
  rcases hpath with rfl | ⟨hp, hdir⟩
  · simp only [FSMemory.remove, FSMemory.atParent, hservice.lock_eq, bind, Except.bind, pure, Except.pure,
      ↓reduceIte, Except.ok.injEq, Prod.mk.injEq] at hr
    obtain ⟨rfl, -⟩ := hr
    refine ⟨⟨ht.coarse, ht.root, ht.dirs, ht.files⟩, fun _ hl => hl, fun j hj => ⟨hj, fun hn => ?_⟩⟩
    exact absurd hn.symm (Lock.path_ne_nil (.master (i + 1)))
  · obtain ⟨l, hl, rfl, hd⟩ : ∃ l : Lock, (l = .master (i + 1) ∨ l = .slave (i + 1) k) ∧ path = l.path ∧
        (lockDir fs l).isSome := by
      rcases hp with rfl | rfl
      · exact ⟨_, Or.inl rfl, rfl, hdir⟩
      · exact ⟨_, Or.inr rfl, rfl, hdir⟩
    obtain ⟨fs₁, code₁, hr₁, hfs⟩ := hservice.remove_eq hd
    rw [hr, Except.ok.injEq, Prod.mk.injEq] at hr₁
    obtain ⟨rfl, -⟩ := hr₁
    refine ⟨hfs.service.toLockTree, hfs.dirs, fun j hj => ?_⟩
    rw [hfs.data, Function.update_apply] at hj
    split_ifs at hj with he
    · simp at hj
    · refine ⟨hj, fun hm hji => he ?_⟩
      have : l = .master (i + 1) := Lock.path_inj hm
      rw [this, hji]

theorem SystemInv.proceed (hs : SystemInv s) (hp : s.proceed = .ok s') : SystemInv s' := by
  have hcheck := hs.check
  rw [CheckOk] at hcheck
  rw [System.proceed] at hp
  cases hpc : s.check with
  | idle =>
      rw [hpc] at hp
      cases hp
      exact hs
  | count i k =>
      rw [hpc] at hp hcheck
      cases hp
      exact hs.withZNode hcheck rfl (fun _ hz => hz) Or.inl (by simp [hpc])
  | test i k =>
      rw [hpc] at hp hcheck
      cases hp
      have hheld (i' : Nat) (k' : Int) (check : CheckPc) (hh : s.holdsLock i' k' = true) :
          ({ s with check } : System).holdsLock i' k' = true := by
        rw [System.holdsLock_iff] at hh ⊢
        refine hh.imp id (Or.imp id ?_)
        rintro ⟨hr, -⟩
        simp [hpc] at hr
      refine ⟨hs.tree, hs.paths, hs.handlers, hs.winners, ?_, fun i' hi' => ?_⟩
      · rw [CheckOk]
        split_ifs
        · exact hcheck
        · trivial
      · obtain ⟨k', hk'⟩ := hs.held i' hi'
        exact ⟨k', hheld i' k' _ hk'⟩
  | clear i k =>
      rw [hpc] at hp hcheck
      cases hp
      exact hs.withZNode hcheck rfl (fun _ hz => hz) (fun _ => Or.inr rfl) (by simp [hpc])
  | release i k =>
      rw [hpc] at hp hcheck
      simp only [bind, Except.bind, pure, Except.pure] at hp
      cases hr : s.coordinator.filesys.remove (s.zNode i k).path with
      | error x =>
          rw [hr] at hp
          cases hp
      | ok r =>
          obtain ⟨fs, code⟩ := r
          rw [hr] at hp
          cases hp
          obtain ⟨z, hz⟩ := Option.isSome_iff_exists.mp hcheck
          have hpath : PathOk s.coordinator i k (s.zNode i k).path := by
            rw [System.zNode, hz]
            exact hs.paths i k z hz
          obtain ⟨htree, hdirs, hdata⟩ := remove_cases hs.tree hpath hr
          have he : Extends s.coordinator (s.coordinator.withFilesys fs) := ⟨hdirs, fun _ _ hz => hz⟩
          refine ⟨htree, fun i' k' z' hz' => he.pathOk (hs.paths i' k' z' hz'),
            fun h hm => he.handlerOk (hs.handlers h hm), hs.winners, trivial, fun j hj => ?_⟩
          obtain ⟨hj', hne⟩ := hdata j hj
          obtain ⟨k', hk'⟩ := hs.held j hj'
          refine ⟨k', ?_⟩
          rw [System.holdsLock_iff] at hk' ⊢
          rcases hk' with hm | hwin | ⟨hrel, hpm⟩
          · exact Or.inl hm
          · exact Or.inr (Or.inl hwin)
          · rw [hpc, CheckPc.release.injEq] at hrel
            rw [← hrel.1, ← hrel.2] at hpm
            exact absurd hrel.1.symm (hne hpm)

end

end DistributedSns.Coordinator
