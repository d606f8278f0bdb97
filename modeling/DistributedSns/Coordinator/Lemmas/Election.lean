import DistributedSns.Coordinator.Lemmas.Expiry
import DistributedSns.Coordinator.Lemmas.Invariant

/-!
# A race for the master lock

Servers of one cluster without a master send one heartbeat each. If no handler calls `create` on a lock
which is there already, and none reads the lock before its holder has written its address, every reply is
usable.
-/

namespace DistributedSns.Coordinator

open Lib FSWrapper SNSCoordinator

/-! ## Races -/

/-- The handlers of a cluster without a master, one for each server which races. -/
structure Race (i : Nat) (s : System) : Prop where
  inv : Inv s.coordinator
  lt : i < s.coordinator.clusters.length
  noMaster : ¬ HasMaster s.coordinator i
  starting : ∀ h ∈ s.handlers, h.pc = .lookup ∧ h.info.clusterid = i + 1
  distinct : (s.handlers.map Handler.serverId).Nodup
  idle : s.check = .idle

/-- A step of a race is the next step of a handler. -/
def race (i : Nat) : Machine System Nat :=
  .ofFun (Race i) fun s n => s.step (.run n)

/-- The step calls `create` although the lock is there, or reads the lock before it has been written. -/
def System.losesRace (s : System) (n : Nat) : Bool :=
  match s.handlers[n]? with
  | some h =>
    match h.pc with
    | .createMaster _ => (masterData h s.coordinator).isSome
    | .readMaster => (masterData h s.coordinator) = some []
    | _ => false
  | none => false

/-- The reply is the master lock, or the sender's slave lock and the address of the lock's holder. -/
def UsableReply (s : System) (i : Nat) (serverId : Int) (path : Path) : Prop :=
  path.master = true ∧ path.path = getMasterFilepath (i + 1) ∨
  path.master = false ∧ path.path = getSlaveFilepath (i + 1) serverId ∧ path.path ≠ [] ∧
    path.syncAddress ≠ [] ∧ ∃ k, s.holdsLock i k = true ∧ path.syncAddress = (s.zNode i k).getAddress

/-- Every reply given is usable, and a path is only empty while a handler of its server runs. -/
structure Usable (s : System) (i : Nat) : Prop where
  replies : ∀ h ∈ s.handlers, ∀ path, h.pc = .returned .OK path → UsableReply s i h.serverId path
  paths : ∀ k z, s.coordinator.zNode? i k = some z → z.path = [] →
    ∃ h ∈ s.handlers, h.serverId = k ∧ h.pc.done = false

/-! ## The invariant -/

namespace Handler

/-- The address of the server which sent the message. -/
def address (h : Handler) : Str := h.info.hostname ++ ":".toList ++ h.info.port

/-- The handler has created the lock, whether or not it has returned since. -/
def won (h : Handler) : Bool :=
  match h.pc with
  | .returned status path => status.code = .ok && path.master
  | pc => pc.winning

/-- What holds of a handler by the step it is at, given its `zNode` and the data of the master lock. -/
def RaceOk (h : Handler) (i : Nat) (z : ZNode) (d : Option Str) : Prop :=
  match h.pc with
  | .lookup => z.master = false
  | .assign n => z.master = false ∧ (2 < n → z.hostname = h.info.hostname) ∧ (3 < n → z.port = h.info.port)
  | .testMaster | .getAddress => z.master = false ∧ z.getAddress = h.address
  | .testLock a | .createMaster a => z.master = false ∧ z.getAddress = h.address ∧ a = h.address
  | .writeSlave a => z.master = false ∧ z.getAddress = h.address ∧ a = h.address ∧ d.isSome
  | .readMaster => z.master = false ∧ z.getAddress = h.address ∧ d.isSome
  | .readWinner => False
  | .writeMaster a => z.master = false ∧ z.getAddress = h.address ∧ a = h.address ∧ d = some []
  | .findOther => z.master = false ∧ z.getAddress = h.address ∧ d = some h.address
  | .setPath _ true _ => z.master = false ∧ z.getAddress = h.address ∧ d = some h.address
  | .setMaster _ _ =>
    z.master = false ∧ z.getAddress = h.address ∧ d = some h.address ∧ z.path = getMasterFilepath (i + 1)
  | .setPath rawPath false sync =>
    z.master = false ∧ z.getAddress = h.address ∧ rawPath = getSlaveFilepath (i + 1) h.serverId ∧
      sync ≠ [] ∧ d = some sync
  | .returned status path =>
    status.code = .ok → z.path ≠ [] ∧ z.getAddress = h.address ∧
      (path.master = true ∧ path.path = getMasterFilepath (i + 1) ∧ z.master = true ∧
          z.path = getMasterFilepath (i + 1) ∧ d = some h.address ∨
        path.master = false ∧ path.path = getSlaveFilepath (i + 1) h.serverId ∧ path.syncAddress ≠ [] ∧
          d = some path.syncAddress)

end Handler

/-- The data of the master lock of the cluster with index `i`. -/
def lockOf (c : SNSCoordinator) (i : Nat) : Option Str := lockData c.filesys (.master (i + 1))

structure RaceInv (i : Nat) (s : System) : Prop where
  tree : LockTree s.coordinator.filesys
  idle : s.check = .idle
  same : ∀ h ∈ s.handlers, h.info.clusterid = i + 1
  distinct : (s.handlers.map Handler.serverId).Nodup
  ok : ∀ h ∈ s.handlers, HandlerOk h s.coordinator
  raceOk : ∀ h ∈ s.handlers, h.RaceOk i (h.server s.coordinator) (lockOf s.coordinator i)
  fresh : ∀ h ∈ s.handlers, h.pc = .lookup → ∀ z, s.coordinator.zNode? i h.serverId = some z → z.path ≠ []
  paths : ∀ k z, s.coordinator.zNode? i k = some z → z.path = [] →
    ∃ h ∈ s.handlers, h.serverId = k ∧ h.pc.done = false
  holder : (lockOf s.coordinator i).isSome → ∃ h ∈ s.handlers, h.won = true
  unique : ∀ h ∈ s.handlers, ∀ h' ∈ s.handlers, h.won = true → h'.won = true → h.serverId = h'.serverId

namespace Handler.RaceOk

variable {h : Handler} {i : Nat} {z : ZNode}

theorem won_of_none (hr : h.RaceOk i z none) : h.won = false := by
  obtain ⟨now, info, pc⟩ := h
  cases pc with
  | writeMaster a => simp [RaceOk] at hr
  | findOther => simp [RaceOk] at hr
  | setMaster r sync => simp [RaceOk] at hr
  | setPath r master sync =>
      cases master with
      | true => simp [RaceOk] at hr
      | false => rfl
  | returned status path =>
      rw [won, Bool.and_eq_false_imp]
      intro hst
      rcases (hr (by simpa using hst)).2.2 with ⟨-, -, -, -, hd⟩ | ⟨hm, -⟩
      · cases hd
      · exact hm
  | _ => rfl

/-- Creating the lock does not disturb the other handlers. -/
theorem create (hr : h.RaceOk i z none) : h.RaceOk i z (some []) := by
  obtain ⟨now, info, pc⟩ := h
  cases pc with
  | writeSlave a => simp [RaceOk] at hr
  | readMaster => simp [RaceOk] at hr
  | writeMaster a => simp [RaceOk] at hr
  | findOther => simp [RaceOk] at hr
  | setMaster r sync => simp [RaceOk] at hr
  | setPath r master sync => cases master <;> simp [RaceOk] at hr
  | returned status path =>
      intro hst
      rcases (hr hst).2.2 with ⟨-, -, -, -, hd⟩ | ⟨-, -, -, hd⟩ <;> cases hd
  | _ => exact hr

/-- Nor does writing the address to it. -/
theorem write (hr : h.RaceOk i z (some [])) (hw : h.won = false) (a : Str) : h.RaceOk i z (some a) := by
  obtain ⟨now, info, pc⟩ := h
  cases pc with
  | writeMaster a => simp [won, Pc.winning] at hw
  | findOther => simp [won, Pc.winning] at hw
  | setMaster r sync => simp [won, Pc.winning] at hw
  | setPath r master sync =>
      cases master with
      | true => simp [won, Pc.winning] at hw
      | false =>
          obtain ⟨-, -, -, hne, hd⟩ := hr
          exact absurd (Option.some.inj hd).symm hne
  | returned status path =>
      intro hst
      rcases (hr hst).2.2 with ⟨hm, -⟩ | ⟨-, -, hne, hd⟩
      · simp [won, hst, hm] at hw
      · exact absurd (Option.some.inj hd).symm hne
  | _ => exact hr

end Handler.RaceOk

/-! ## One handler moves -/

section

variable {i n : Nat} {s : System} {h : Handler} {r : SNSCoordinator × Pc}

theorem mem_moved_of_nodup (hd : (s.handlers.map Handler.serverId).Nodup) (hn : s.handlers[n]? = some h)
    {c : SNSCoordinator} {pc : Pc} {h' : Handler} (hm : h' ∈ (moved s n h c pc).handlers) :
    h' = { h with pc } ∨ h' ∈ s.handlers ∧ h'.serverId ≠ h.serverId := by
  obtain ⟨m, hm⟩ := List.mem_iff_getElem?.mp hm
  by_cases he : n = m
  · subst he
    have hlt := (List.getElem?_eq_some_iff.mp hn).1
    rw [moved, List.getElem?_set_self hlt, Option.some.injEq] at hm
    exact Or.inl hm.symm
  · rw [moved, List.getElem?_set_ne he] at hm
    refine Or.inr ⟨List.mem_of_getElem? hm, fun heq => he ?_⟩
    have h₁ : (s.handlers.map Handler.serverId)[n]? = some h.serverId := by rw [List.getElem?_map, hn]; rfl
    have h₂ : (s.handlers.map Handler.serverId)[m]? = some h.serverId := by
      rw [List.getElem?_map, hm, ← heq]; rfl
    have hlt := (List.getElem?_eq_some_iff.mp h₁).1
    exact (List.getElem?_inj hlt hd).mp (h₁.trans h₂.symm)

theorem map_serverId_moved (hn : s.handlers[n]? = some h) (c : SNSCoordinator) (pc : Pc) :
    (moved s n h c pc).handlers.map Handler.serverId = s.handlers.map Handler.serverId := by
  obtain ⟨hlt, hget⟩ := List.getElem?_eq_some_iff.mp hn
  have hset := List.set_getElem_self (i := n) (List.length_map Handler.serverId ▸ hlt)
  rw [List.getElem_map, hget] at hset
  rw [moved, List.map_set]
  exact hset

/-- What the moving handler has to show. -/
structure RaceStep (i : Nat) (s : System) (h : Handler) (r : SNSCoordinator × Pc) : Prop where
  keeps : HandlerKeeps h s.coordinator r
  zNodes : ∀ k, k ≠ h.serverId → r.1.zNode? i k = s.coordinator.zNode? i k
  self : ({ h with pc := r.2 } : Handler).RaceOk i (h.server r.1) (lockOf r.1 i)
  others : ∀ h' ∈ s.handlers, h'.serverId ≠ h.serverId → ∀ z, h'.RaceOk i z (lockOf s.coordinator i) →
    h'.RaceOk i z (lockOf r.1 i)
  looked : r.2 ≠ .lookup
  path : ∀ z, r.1.zNode? i h.serverId = some z → z.path = [] → r.2.done = false
  won : h.won = true → ({ h with pc := r.2 } : Handler).won = true
  lost : ({ h with pc := r.2 } : Handler).won = true → h.won = true ∨ lockOf s.coordinator i = none
  taken : (lockOf r.1 i).isSome → (lockOf s.coordinator i).isSome ∨ ({ h with pc := r.2 } : Handler).won = true

theorem RaceInv.clusterIdx (hs : RaceInv i s) {h : Handler} (hm : h ∈ s.handlers) : h.clusterIdx = i := by
  rw [Handler.clusterIdx, hs.same h hm]
  omega

theorem RaceInv.moved (hs : RaceInv i s) (hn : s.handlers[n]? = some h) (hr : RaceStep i s h r) :
    RaceInv i (moved s n h r.1 r.2) := by
  have hmem : h ∈ s.handlers := List.mem_of_getElem? hn
  have hcases {h' : Handler} (hm : h' ∈ (Coordinator.moved s n h r.1 r.2).handlers) :=
    mem_moved_of_nodup hs.distinct hn hm
  have hself := self_mem_moved hn r.1 r.2
  have hstay {h' : Handler} (hm : h' ∈ s.handlers) (hne : h'.serverId ≠ h.serverId) :
      h' ∈ (Coordinator.moved s n h r.1 r.2).handlers :=
    (mem_of_moved hn r.1 r.2 hm).resolve_left fun he => hne (he ▸ rfl)
  constructor
  · exact hr.keeps.tree
  · exact hs.idle
  · intro h' hm
    rcases hcases hm with rfl | ⟨hm, -⟩
    · exact hs.same h hmem
    · exact hs.same h' hm
  · rw [map_serverId_moved hn]
    exact hs.distinct
  · exact hr.keeps.handlers hs.ok
  · intro h' hm
    rcases hcases hm with rfl | ⟨hm, hne⟩
    · exact hr.self
    · have hserver : h'.server r.1 = h'.server s.coordinator := by
        rw [Handler.server, Handler.server, hs.clusterIdx hm, hr.zNodes _ hne]
      have := hr.others h' hm hne _ (hs.raceOk h' hm)
      rw [← hserver] at this
      exact this
  · intro h' hm hpc z hz
    rcases hcases hm with rfl | ⟨hm, hne⟩
    · exact absurd hpc hr.looked
    · exact hs.fresh h' hm hpc z ((hr.zNodes _ hne).symm.trans hz)
  · intro k z hz hp
    by_cases hk : k = h.serverId
    · subst hk
      exact ⟨_, hself, rfl, hr.path z hz hp⟩
    · obtain ⟨h', hm, hid, hdone⟩ := hs.paths k z ((hr.zNodes k hk).symm.trans hz) hp
      exact ⟨h', hstay hm (hid ▸ hk), hid, hdone⟩
  · intro ht
    rcases hr.taken ht with hold | hw
    · obtain ⟨h', hm, hw⟩ := hs.holder hold
      rcases mem_of_moved hn r.1 r.2 hm with rfl | hm
      · exact ⟨_, hself, hr.won hw⟩
      · exact ⟨h', hm, hw⟩
    · exact ⟨_, hself, hw⟩
  · have hnone (hd : lockOf s.coordinator i = none) (h' : Handler) (hm : h' ∈ s.handlers) : h'.won = false := by
      have := hs.raceOk h' hm
      rw [hd] at this
      exact this.won_of_none
    have hwon {h' : Handler} (hm : h' ∈ s.handlers) (hw : ({ h with pc := r.2 } : Handler).won = true)
        (hw' : h'.won = true) : h.serverId = h'.serverId := by
      rcases hr.lost hw with hw | hd
      · exact hs.unique h hmem h' hm hw hw'
      · rw [hnone hd h' hm] at hw'
        cases hw'
    intro h₁ hm₁ h₂ hm₂ hw₁ hw₂
    rcases hcases hm₁ with rfl | ⟨hm₁, -⟩
    · rcases hcases hm₂ with rfl | ⟨hm₂, -⟩
      · rfl
      · exact hwon hm₂ hw₁ hw₂
    · rcases hcases hm₂ with rfl | ⟨hm₂, -⟩
      · exact (hwon hm₁ hw₂ hw₁).symm
      · exact hs.unique h₁ hm₁ h₂ hm₂ hw₁ hw₂

theorem RaceInv.lockOf_eq (hs : RaceInv i s) {h : Handler} (hm : h ∈ s.handlers) (c : SNSCoordinator) :
    masterData h c = lockOf c i := by
  rw [masterData, hs.same h hm, lockOf]

/-- The step leaves the coordinator alone. -/
theorem RaceStep.silent {pc : Pc} (hk : HandlerKeeps h s.coordinator (s.coordinator, pc))
    (hself : ({ h with pc } : Handler).RaceOk i (h.server s.coordinator) (lockOf s.coordinator i))
    (hlooked : pc ≠ .lookup)
    (hpath : ∀ z, s.coordinator.zNode? i h.serverId = some z → z.path = [] → pc.done = false)
    (hwon : ({ h with pc } : Handler).won = h.won) : RaceStep i s h (s.coordinator, pc) where
  keeps := hk
  zNodes _ _ := rfl
  self := hself
  others _ _ _ _ hr := hr
  looked := hlooked
  path := hpath
  won hw := hwon.trans hw
  lost hw := Or.inl (hwon.symm.trans hw)
  taken := Or.inl

/-- The step changes the `zNode` of the handler's server. -/
theorem RaceStep.server {pc : Pc} {z : ZNode} (hi : h.clusterIdx = i)
    (hlt : h.clusterIdx < s.coordinator.clusters.length)
    (hk : HandlerKeeps h s.coordinator (h.setServer s.coordinator z, pc))
    (hself : ({ h with pc } : Handler).RaceOk i z (lockOf s.coordinator i)) (hlooked : pc ≠ .lookup)
    (hpath : z.path = [] → pc.done = false) (hwon : ({ h with pc } : Handler).won = h.won) :
    RaceStep i s h (h.setServer s.coordinator z, pc) where
  keeps := hk
  zNodes k hne := by
    rw [zNode?_setServer hlt, if_neg (fun he => hne he.2)]
  self := by
    rw [server_setServer hlt]
    exact hself
  others _ _ _ _ hr := hr
  looked := hlooked
  path z' hz := by
    rw [zNode?_setServer hlt, if_pos ⟨hi.symm, rfl⟩, Option.some.injEq] at hz
    exact hz ▸ hpath
  won hw := hwon.trans hw
  lost hw := Or.inl (hwon.symm.trans hw)
  taken := Or.inl

/-- The step changes the lock files only, and `d` is what the master lock holds then. -/
theorem RaceStep.files {pc : Pc} {fs : FSMemory} {d : Option Str}
    (hk : HandlerKeeps h s.coordinator (s.coordinator.withFilesys fs, pc))
    (hlock : lockOf (s.coordinator.withFilesys fs) i = d)
    (hself : ({ h with pc } : Handler).RaceOk i (h.server s.coordinator) d)
    (hothers : ∀ h' ∈ s.handlers, h'.serverId ≠ h.serverId → ∀ z, h'.RaceOk i z (lockOf s.coordinator i) →
      h'.RaceOk i z d)
    (hlooked : pc ≠ .lookup) (hdone : pc.done = false)
    (hwon : h.won = true → ({ h with pc } : Handler).won = true)
    (hlost : ({ h with pc } : Handler).won = true → h.won = true ∨ lockOf s.coordinator i = none)
    (htaken : d.isSome → (lockOf s.coordinator i).isSome ∨ ({ h with pc } : Handler).won = true) :
    RaceStep i s h (s.coordinator.withFilesys fs, pc) where
  keeps := hk
  zNodes _ _ := rfl
  self := hlock ▸ hself
  others := hlock ▸ hothers
  looked := hlooked
  path _ _ _ := hdone
  won := hwon
  lost := hlost
  taken := hlock ▸ htaken

theorem assigned_keeps {now : Int} {info : ServerInfo} {n : Nat} {f : ZNode → ZNode}
    (hf : (assignments now info)[n]? = some f) (z : ZNode) :
    (f z).master = z.master ∧
    ((2 < n → z.hostname = info.hostname) → 2 < n + 1 → (f z).hostname = info.hostname) ∧
    ((3 < n → z.port = info.port) → 3 < n + 1 → (f z).port = info.port) := by
  rcases n with _ | _ | _ | _ | _ | _ | _ | n
  all_goals
    simp only [assignments, List.getElem?_cons_zero, List.getElem?_cons_succ, List.getElem?_nil,
      Option.some.injEq, reduceCtorEq] at hf
  all_goals
    subst hf
    simp

theorem getAddress_of_assigned {now : Int} {info : ServerInfo} {n : Nat} {z : ZNode}
    (hn : (assignments now info)[n]? = none) (hh : 2 < n → z.hostname = info.hostname)
    (hp : 3 < n → z.port = info.port) (pc : Pc) : z.getAddress = Handler.address { now, info, pc } := by
  have hlen : 7 ≤ n := List.getElem?_eq_none_iff.mp hn
  show z.hostname ++ _ ++ z.port = info.hostname ++ _ ++ info.port
  rw [hh (by omega), hp (by omega)]

/-! ### The kinds of steps -/

section

variable (hs : RaceInv i s) (hmem : h ∈ s.handlers)
include hs hmem

/-- A rejected message leaves an empty path only with a handler which is not at its start. -/
theorem RaceInv.rejected {status : Status} (hpc : h.pc = .lookup) (hst : status.code ≠ .ok)
    (hk : HandlerKeeps h s.coordinator (s.coordinator, .returned status {})) :
    RaceStep i s h (s.coordinator, .returned status {}) := by
  refine .silent hk (fun hst' => absurd hst' hst) (by simp) (fun z hz hp => ?_) ?_
  · exact absurd hp (hs.fresh h hmem hpc z hz)
  · simp [Handler.won, hpc, Pc.winning, hst]

theorem RaceInv.slaveWritten {a : Str} {fs : FSMemory} (hpc : h.pc = .writeSlave a)
    (hfs : LockStep s.coordinator.filesys fs
      (Function.update (lockData s.coordinator.filesys) (.slave h.info.clusterid h.info.serverid) (some a)))
    (hk : HandlerKeeps h s.coordinator (s.coordinator.withFilesys fs, .readMaster)) :
    RaceStep i s h (s.coordinator.withFilesys fs, .readMaster) := by
  have hr := hs.raceOk h hmem
  rw [Handler.RaceOk, hpc] at hr
  have hlock : lockOf (s.coordinator.withFilesys fs) i = lockOf s.coordinator i := by
    rw [lockOf, filesys_withFilesys, hfs.data, Function.update_of_ne (by simp), lockOf]
  refine .files hk hlock ⟨hr.1, hr.2.1, hr.2.2.2⟩ (fun _ _ _ _ hr' => hr') (by simp) rfl ?_ ?_ Or.inl
  · simp [Handler.won, hpc, Pc.winning]
  · simp [Handler.won, Pc.winning]

/-- The lock is read after it has been written. -/
theorem RaceInv.masterRead (hpc : h.pc = .readMaster) (hlost : masterData h s.coordinator ≠ some [])
    (hk : HandlerKeeps h s.coordinator
      (s.coordinator, .setPath h.slaveFilepath false ((masterData h s.coordinator).getD []))) :
    RaceStep i s h (s.coordinator, .setPath h.slaveFilepath false ((masterData h s.coordinator).getD [])) := by
  have hr := hs.raceOk h hmem
  rw [Handler.RaceOk, hpc] at hr
  rw [hs.lockOf_eq hmem] at hlost hk ⊢
  obtain ⟨d, hd⟩ := Option.isSome_iff_exists.mp hr.2.2
  rw [hd] at hlost hk ⊢
  refine .silent hk ⟨hr.1, hr.2.1, ?_, ?_, hd⟩ (by simp) (fun _ _ _ => rfl) (by simp [Handler.won, hpc, Pc.winning])
  · rw [Handler.slaveFilepath, hs.same h hmem]
    rfl
  · simpa using hlost

theorem RaceInv.created {a : Str} {fs : FSMemory} (hpc : h.pc = .createMaster a)
    (hlock : masterData h s.coordinator = none)
    (hfs : LockStep s.coordinator.filesys fs
      (Function.update (lockData s.coordinator.filesys) (.master h.info.clusterid) (some [])))
    (hk : HandlerKeeps h s.coordinator (s.coordinator.withFilesys fs, .writeMaster a)) :
    RaceStep i s h (s.coordinator.withFilesys fs, .writeMaster a) := by
  have hr := hs.raceOk h hmem
  rw [Handler.RaceOk, hpc] at hr
  rw [hs.lockOf_eq hmem] at hlock
  have hlock' : lockOf (s.coordinator.withFilesys fs) i = some [] := by
    rw [lockOf, filesys_withFilesys, hfs.data, ← hs.same h hmem, Function.update_self]
  refine .files hk hlock' ⟨hr.1, hr.2.1, hr.2.2, rfl⟩ (fun h' _ _ z hr' => ?_) (by simp) rfl ?_
    (fun _ => Or.inr hlock) fun _ => Or.inr rfl
  · rw [hlock] at hr'
    exact hr'.create
  · simp [Handler.won, Pc.winning]

theorem RaceInv.masterWritten {a : Str} {fs : FSMemory} (hpc : h.pc = .writeMaster a)
    (hfs : LockStep s.coordinator.filesys fs
      (Function.update (lockData s.coordinator.filesys) (.master h.info.clusterid) (some a)))
    (hk : HandlerKeeps h s.coordinator (s.coordinator.withFilesys fs, .findOther)) :
    RaceStep i s h (s.coordinator.withFilesys fs, .findOther) := by
  have hr := hs.raceOk h hmem
  rw [Handler.RaceOk, hpc] at hr
  obtain ⟨hm, hz, rfl, hd⟩ := hr
  have hlock' : lockOf (s.coordinator.withFilesys fs) i = some h.address := by
    rw [lockOf, filesys_withFilesys, hfs.data, ← hs.same h hmem, Function.update_self]
  have hw : h.won = true := by simp [Handler.won, hpc, Pc.winning]
  refine .files hk hlock' ⟨hm, hz, rfl⟩ (fun h' hm' hne z hr' => ?_) (by simp) rfl (fun _ => rfl)
    (fun _ => Or.inl hw) fun _ => Or.inl (Option.isSome_of_eq_some hd)
  rw [hd] at hr'
  refine hr'.write ?_ _
  by_contra hw'
  exact hne (hs.unique h' hm' h hmem (by simpa using hw') hw)

/-- A slave gets its path and returns. -/
theorem RaceInv.pathSet {rawPath sync : Str} (hpc : h.pc = .setPath rawPath false sync)
    (hk : HandlerKeeps h s.coordinator (h.setServer s.coordinator { h.server s.coordinator with path := rawPath },
      .returned .OK { path := rawPath, master := false, syncAddress := sync })) :
    RaceStep i s h (h.setServer s.coordinator { h.server s.coordinator with path := rawPath },
      .returned .OK { path := rawPath, master := false, syncAddress := sync }) := by
  have hok := hs.ok h hmem
  have hr := hs.raceOk h hmem
  rw [HandlerOk, hpc] at hok
  rw [Handler.RaceOk, hpc] at hr
  obtain ⟨hm, hz, hp, hne, hd⟩ := hr
  have hpath : rawPath ≠ [] := by
    rw [hp]
    exact Lock.path_ne_nil (.slave (i + 1) h.serverId)
  exact .server (hs.clusterIdx hmem) hok.1.lt hk (fun _ => ⟨hpath, hz, Or.inr ⟨rfl, hp, hne, hd⟩⟩) (by simp)
    (fun hn => absurd hn hpath) (by simp [Handler.won, hpc, Pc.winning])

theorem RaceInv.masterPathSet {rawPath sync : Str} (hpc : h.pc = .setPath rawPath true sync)
    (hk : HandlerKeeps h s.coordinator
      (h.setServer s.coordinator { h.server s.coordinator with path := rawPath }, .setMaster rawPath sync)) :
    RaceStep i s h
      (h.setServer s.coordinator { h.server s.coordinator with path := rawPath }, .setMaster rawPath sync) := by
  have hok := hs.ok h hmem
  have hr := hs.raceOk h hmem
  rw [HandlerOk, hpc] at hok
  rw [Handler.RaceOk, hpc] at hr
  have hp : h.masterFilepath = getMasterFilepath (i + 1) := by rw [Handler.masterFilepath, hs.same h hmem]
  exact .server (hs.clusterIdx hmem) hok.1.lt hk ⟨hr.1, hr.2.1, hr.2.2, hok.2.1.trans hp⟩ (by simp) (fun _ => rfl)
    (by simp [Handler.won, hpc, Pc.winning])

/-- The master is one and returns. -/
theorem RaceInv.masterSet {rawPath sync : Str} (hpc : h.pc = .setMaster rawPath sync)
    (hk : HandlerKeeps h s.coordinator (h.setServer s.coordinator { h.server s.coordinator with master := true },
      .returned .OK { path := rawPath, master := true, syncAddress := sync })) :
    RaceStep i s h (h.setServer s.coordinator { h.server s.coordinator with master := true },
      .returned .OK { path := rawPath, master := true, syncAddress := sync }) := by
  have hok := hs.ok h hmem
  have hr := hs.raceOk h hmem
  rw [HandlerOk, hpc] at hok
  rw [Handler.RaceOk, hpc] at hr
  obtain ⟨hm, hz, hd, hzp⟩ := hr
  have hp : h.masterFilepath = getMasterFilepath (i + 1) := by rw [Handler.masterFilepath, hs.same h hmem]
  have hpath : (h.server s.coordinator).path ≠ [] := hzp ▸ Lock.path_ne_nil (.master (i + 1))
  exact .server (hs.clusterIdx hmem) hok.1.lt hk
    (fun _ => ⟨hpath, hz, Or.inl ⟨rfl, hok.2.1.trans hp, rfl, hzp, hd⟩⟩) (by simp)
    (fun hn => absurd hn hpath) (by simp [Handler.won, hpc, Pc.winning, Status.OK])

/-- A handler which has returned does nothing. -/
theorem RaceInv.returned {status : Status} {path : Path} (hpc : h.pc = .returned status path)
    (hk : HandlerKeeps h s.coordinator (s.coordinator, .returned status path)) :
    RaceStep i s h (s.coordinator, .returned status path) := by
  have hr := hs.raceOk h hmem
  have hpath (z : ZNode) (hz : s.coordinator.zNode? i h.serverId = some z) (hp : z.path = []) : False := by
    obtain ⟨h', hm', hid, hd⟩ := hs.paths _ z hz hp
    rw [List.inj_on_of_nodup_map hs.distinct hm' hmem hid, hpc] at hd
    cases hd
  obtain ⟨now, info, pc⟩ := h
  subst hpc
  exact .silent hk hr (by simp) (fun z hz hp => (hpath z hz hp).elim) rfl

end

theorem RaceInv.step (hs : RaceInv i s) (hn : s.handlers[n]? = some h) (hC : s.losesRace n = false)
    (ho : HandlerOutcome h s.coordinator r) : RaceStep i s h r := by
  have hmem : h ∈ s.handlers := List.mem_of_getElem? hn
  have hi := hs.clusterIdx hmem
  have hok := hs.ok h hmem
  have hr := hs.raceOk h hmem
  have hk := ho.keeps hs.tree hok
  simp only [System.losesRace, hn] at hC
  cases ho with
  | rejected hpc hst => exact hs.rejected hmem hpc hst hk
  | found hpc hlt _ =>
      rw [Handler.RaceOk, hpc] at hr
      exact .server hi hlt hk ⟨hr, by simp, by simp⟩ (by simp) (fun _ => rfl)
        (by simp [Handler.won, hpc, Pc.winning])
  | assigned hpc ha =>
      rw [HandlerOk, hpc] at hok
      rw [Handler.RaceOk, hpc] at hr
      obtain ⟨hm, hh, hp⟩ := assigned_keeps ha (h.server s.coordinator)
      exact .server hi hok.lt hk ⟨hm.trans hr.1, hh hr.2.1, hp hr.2.2⟩ (by simp) (fun _ => rfl)
        (by simp [Handler.won, hpc, Pc.winning])
  | assignedAll hpc ha =>
      rw [Handler.RaceOk, hpc] at hr
      exact .silent hk ⟨hr.1, getAddress_of_assigned ha hr.2.1 hr.2.2 _⟩ (by simp) (fun _ _ _ => rfl)
        (by simp [Handler.won, hpc, Pc.winning])
  | stillMaster hpc hm =>
      rw [Handler.RaceOk, hpc] at hr
      rw [hr.1] at hm
      cases hm
  | notMaster hpc _ =>
      rw [Handler.RaceOk, hpc] at hr
      exact .silent hk hr (by simp) (fun _ _ _ => rfl) (by simp [Handler.won, hpc, Pc.winning])
  | address hpc =>
      rw [Handler.RaceOk, hpc] at hr
      exact .silent hk ⟨hr.1, hr.2, hr.2⟩ (by simp) (fun _ _ _ => rfl) (by simp [Handler.won, hpc, Pc.winning])
  | lockFound hpc hlock =>
      rw [Handler.RaceOk, hpc] at hr
      rw [hs.lockOf_eq hmem] at hlock
      exact .silent hk ⟨hr.1, hr.2.1, hr.2.2, Option.isSome_of_eq_some hlock⟩ (by simp) (fun _ _ _ => rfl)
        (by simp [Handler.won, hpc, Pc.winning])
  | lockFree hpc _ =>
      rw [Handler.RaceOk, hpc] at hr
      exact .silent hk hr (by simp) (fun _ _ _ => rfl) (by simp [Handler.won, hpc, Pc.winning])
  | slaveWritten hpc hfs => exact hs.slaveWritten hmem hpc hfs hk
  | masterRead hpc =>
      rw [hpc] at hC
      exact hs.masterRead hmem hpc (by simpa using hC) hk
  | created hpc hlock hfs => exact hs.created hmem hpc hlock hfs hk
  | lost hpc hlock _ =>
      rw [hpc] at hC
      simp [hlock] at hC
  | winnerRead hpc =>
      rw [Handler.RaceOk, hpc] at hr
      exact hr.elim
  | masterWritten hpc hfs => exact hs.masterWritten hmem hpc hfs hk
  | otherFound hpc =>
      rw [Handler.RaceOk, hpc] at hr
      exact .silent hk hr (by simp) (fun _ _ _ => rfl) (by simp [Handler.won, hpc, Pc.winning])
  | pathSet hpc => exact hs.pathSet hmem hpc hk
  | masterPathSet hpc => exact hs.masterPathSet hmem hpc hk
  | masterSet hpc => exact hs.masterSet hmem hpc hk
  | idle hpc => exact hs.returned hmem hpc hk

end

/-! ## Runs -/

section

variable {i : Nat} {s s' : System}

theorem RaceInv.init (hs : Race i s) : RaceInv i s where
  tree := hs.inv.service.toLockTree
  idle := hs.idle
  same h hm := (hs.starting h hm).2
  distinct := hs.distinct
  ok h hm := by
    rw [HandlerOk, (hs.starting h hm).1]
    trivial
  raceOk h hm := by
    rw [Handler.RaceOk, (hs.starting h hm).1]
    have hi : h.clusterIdx = i := by
      rw [Handler.clusterIdx, (hs.starting h hm).2]
      omega
    by_contra hmaster
    cases hz : s.coordinator.zNode? h.clusterIdx h.serverId with
    | none => simp [Handler.server, hz] at hmaster
    | some z => exact hs.noMaster ⟨_, z, hi ▸ hz, by simpa [Handler.server, hz] using hmaster⟩
  fresh h _ _ z hz := by
    rcases (hs.inv.zNodes i _ z hz).path with hp | hp
    · exact hp ▸ Lock.path_ne_nil (.master (i + 1))
    · exact hp ▸ Lock.path_ne_nil (.slave (i + 1) h.serverId)
  paths k z hz hp := by
    rcases (hs.inv.zNodes i k z hz).path with hp' | hp'
    · exact absurd (hp'.symm.trans hp) (Lock.path_ne_nil (.master (i + 1)))
    · exact absurd (hp'.symm.trans hp) (Lock.path_ne_nil (.slave (i + 1) k))
  holder ht := absurd ((hs.inv.lock i hs.lt).mp ht) hs.noMaster
  unique h hm _ _ hw := by simp [Handler.won, (hs.starting h hm).1, Pc.winning] at hw

theorem RaceInv.usable (hs : RaceInv i s) : Usable s i := by
  refine ⟨fun h hm path hpc => ?_, hs.paths⟩
  have hr := hs.raceOk h hm
  rw [Handler.RaceOk, hpc] at hr
  obtain ⟨-, -, hr⟩ := hr rfl
  rcases hr with ⟨hmaster, hp, -⟩ | ⟨hmaster, hp, hne, hd⟩
  · exact Or.inl ⟨hmaster, hp⟩
  · refine Or.inr ⟨hmaster, hp, ?_, hne, ?_⟩
    · rw [hp]
      exact Lock.path_ne_nil (.slave (i + 1) h.serverId)
    · obtain ⟨h', hm', hw⟩ := hs.holder (Option.isSome_of_eq_some hd)
      have hi := hs.clusterIdx hm'
      have hserver : s.zNode i h'.serverId = h'.server s.coordinator := by
        rw [System.zNode, Handler.server, hi]
      have hr' := hs.raceOk h' hm'
      rw [Handler.RaceOk, hd] at hr'
      refine ⟨h'.serverId, ?_⟩
      rw [System.holdsLock_iff, hserver]
      cases hpc' : h'.pc with
      | writeMaster a =>
          rw [hpc'] at hr'
          exact absurd (Option.some.inj hr'.2.2.2) hne
      | findOther =>
          rw [hpc'] at hr'
          exact ⟨Or.inr (Or.inl ⟨h', hm', hi, rfl, by rw [hpc']; rfl⟩),
            (Option.some.inj hr'.2.2).trans hr'.2.1.symm⟩
      | setPath rawPath master sync =>
          rw [hpc'] at hr'
          cases master with
          | false => simp [Handler.won, hpc', Pc.winning] at hw
          | true =>
              exact ⟨Or.inr (Or.inl ⟨h', hm', hi, rfl, by rw [hpc']; rfl⟩),
                (Option.some.inj hr'.2.2).trans hr'.2.1.symm⟩
      | setMaster rawPath sync =>
          rw [hpc'] at hr'
          exact ⟨Or.inr (Or.inl ⟨h', hm', hi, rfl, by rw [hpc']; rfl⟩),
            (Option.some.inj hr'.2.2.1).trans hr'.2.1.symm⟩
      | returned status path' =>
          simp only [Handler.won, hpc', Bool.and_eq_true, decide_eq_true_eq] at hw
          rw [hpc'] at hr'
          obtain ⟨-, hz, ⟨-, -, hflag, hzp, hd'⟩ | ⟨hfalse, -⟩⟩ := hr' hw.1
          · exact ⟨Or.inl ⟨hflag, hzp⟩, (Option.some.inj hd').trans hz.symm⟩
          · rw [hw.2] at hfalse
            cases hfalse
      | _ => simp [Handler.won, hpc', Pc.winning] at hw

theorem RaceInv.run {n : Nat} (hs : RaceInv i s) (hC : s.losesRace n = false)
    (h : s.step (.run n) = .ok s') : RaceInv i s' := by
  rcases run_cases h with ⟨-, rfl⟩ | ⟨h₀, r, hn, hr, rfl⟩
  · exact hs
  · exact hs.moved hn (hs.step hn hC
      (handler_outcome hs.tree (hs.ok h₀ (List.mem_of_getElem? hn)) hr))

/-! ## Lost races -/

/-- The handler gives, or is bound to give, an empty path or an empty address. -/
def Handler.spoiled (h : Handler) : Bool :=
  match h.pc with
  | .readWinner => true
  | .setPath rawPath false sync => rawPath = [] || sync = []
  | .returned status path => status = .OK && !path.master && (path.path = [] || path.syncAddress = [])
  | _ => false

structure Orderly (s : System) : Prop where
  tree : LockTree s.coordinator.filesys
  ok : ∀ h ∈ s.handlers, HandlerOk h s.coordinator

theorem Orderly.run {n : Nat} (hs : Orderly s) (h : s.step (.run n) = .ok s') : Orderly s' := by
  rcases run_cases h with ⟨-, rfl⟩ | ⟨h₀, r, hn, hr, rfl⟩
  · exact hs
  · have hok := hs.ok h₀ (List.mem_of_getElem? hn)
    have hk := (handler_outcome hs.tree hok hr).keeps hs.tree hok
    exact ⟨hk.tree, hk.handlers hs.ok⟩

theorem spoiled_outcome {h : Handler} {c : SNSCoordinator} {r : SNSCoordinator × Pc}
    (ho : HandlerOutcome h c r) (hsp : h.spoiled = true) : ({ h with pc := r.2 } : Handler).spoiled = true := by
  cases ho with
  | winnerRead hpc => simp [Handler.spoiled]
  | pathSet hpc => simpa [Handler.spoiled, hpc] using hsp
  | idle hpc => simpa [Handler.spoiled, hpc] using hsp
  | _ hpc => simp [Handler.spoiled, hpc] at hsp

theorem spoiled_of_losesRace {n : Nat} {h : Handler} (hn : s.handlers[n]? = some h)
    (hC : s.losesRace n = true) {r : SNSCoordinator × Pc} (ho : HandlerOutcome h s.coordinator r) :
    ({ h with pc := r.2 } : Handler).spoiled = true := by
  simp only [System.losesRace, hn] at hC
  cases ho with
  | created hpc hlock _ => simp [hpc, hlock] at hC
  | lost hpc _ _ => rfl
  | masterRead hpc =>
      simp only [hpc, decide_eq_true_eq] at hC
      simp [Handler.spoiled, hC]
  | _ hpc => simp [hpc] at hC

/-- Once a step has spoiled the race, some handler stays spoiled. -/
theorem spoiled_run {n : Nat} (hs : Orderly s) (h : s.step (.run n) = .ok s')
    (hsp : s.losesRace n = true ∨ ∃ h ∈ s.handlers, h.spoiled = true) :
    ∃ h ∈ s'.handlers, h.spoiled = true := by
  rcases run_cases h with ⟨hn, rfl⟩ | ⟨h₀, r, hn, hr, rfl⟩
  · refine hsp.resolve_left fun hC => ?_
    simp [System.losesRace, hn] at hC
  · have ho := handler_outcome hs.tree (hs.ok h₀ (List.mem_of_getElem? hn)) hr
    have hself := self_mem_moved hn r.1 r.2
    rcases hsp with hC | ⟨h', hm, hsp⟩
    · exact ⟨_, hself, spoiled_of_losesRace hn hC ho⟩
    · rcases mem_of_moved hn r.1 r.2 hm with rfl | hm
      · exact ⟨_, hself, spoiled_outcome ho hsp⟩
      · exact ⟨h', hm, hsp⟩

theorem spoiled_or_kept {s₀ : System} {tr : List (System × Nat)} (hr : (race i).Run s₀ tr s)
    (h₀ : Orderly s₀) :
    Orderly s ∧ ((∀ x ∈ tr, x.1.losesRace x.2 = false) ∨ ∃ h ∈ s.handlers, h.spoiled = true) := by
  induction hr with
  | nil => exact ⟨h₀, Or.inl (by simp)⟩
  | @snoc tr s n s' _ hstep ih =>
      obtain ⟨hs, hkept⟩ := ih
      refine ⟨hs.run hstep, ?_⟩
      cases hC : s.losesRace n with
      | true => exact Or.inr (spoiled_run hs hstep (Or.inl hC))
      | false =>
          rcases hkept with hkept | hsp
          · left
            intro x hx
            rcases List.mem_append.mp hx with hx | hx
            · exact hkept x hx
            · rw [List.mem_singleton.mp hx]
              exact hC
          · exact Or.inr (spoiled_run hs hstep (Or.inr hsp))

theorem Usable.not_spoiled (hu : Usable s i) (hq : s.Quiescent) : ¬ ∃ h ∈ s.handlers, h.spoiled = true := by
  rintro ⟨h, hm, hsp⟩
  cases hpc : h.pc with
  | returned status path =>
      simp only [Handler.spoiled, hpc, Bool.and_eq_true, decide_eq_true_eq, Bool.not_eq_true',
        Bool.or_eq_true] at hsp
      obtain ⟨⟨rfl, hmaster⟩, hempty⟩ := hsp
      rcases hu.replies h hm path hpc with ⟨ht, -⟩ | ⟨-, -, hp, hne, -⟩
      · rw [hmaster] at ht
        cases ht
      · exact hempty.elim hp hne
  | _ =>
      have hdone := hq.1 h hm
      simp [hpc, Pc.done] at hdone

end

end DistributedSns.Coordinator
