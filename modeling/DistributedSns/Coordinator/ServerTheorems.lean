import DistributedSns.Coordinator.Lemmas.Invariant

/-!
# The server of a client

A client keeps its server while this server is master. Otherwise it gets the master of the first cluster which has one,
and the search begins at the client's id and goes around all clusters once.
-/

namespace DistributedSns.Coordinator

open Lib SNSCoordinator

variable {numClusters : Int} {c : SNSCoordinator} {id : Int} {ref : ZRef} {r : SNSCoordinator × Status × ServerInfo}

/-- The server which is recorded for a client. -/
def recorded (c : SNSCoordinator) (id : Int) : Option ZRef := (c.clientAssignments.find? id).join

def IsMaster (c : SNSCoordinator) (ref : ZRef) : Prop := ∃ z, c.deref ref = some z ∧ z.master = true

/-- The client's server need not be searched for. -/
def Sticky (c : SNSCoordinator) (id : Int) (ref : ZRef) : Prop := recorded c id = some ref ∧ IsMaster c ref

/-- The only master of the first cluster that has one, in cyclic order from `start` on. -/
structure FirstMaster (c : SNSCoordinator) (start : Nat) (ref : ZRef) : Prop where
  master : IsMaster c ref
  only : ∀ k, IsMaster c { ref with serverId := k } → k = ref.serverId
  first : ∃ s < c.clusters.length, ref.clusterIdx = (start + s) % c.clusters.length ∧
    ∀ t < s, ¬ HasMaster c ((start + t) % c.clusters.length)

/-- The reply is about a master, which is the client's recorded server now. -/
structure Serves (r : SNSCoordinator × Status × ServerInfo) (id : Int) (ref : ZRef) (changed : Bool) : Prop where
  status : r.2.1 = .OK
  recorded : recorded r.1 id = some ref
  info : ∃ z, r.1.deref ref = some z ∧ z.master = true ∧ r.2.2 = { z.setServerInfo {} with changed }

/-! ## The search -/

theorem hasMaster_of_isMaster (h : IsMaster c ref) : HasMaster c ref.clusterIdx := by
  obtain ⟨z, hz, hm⟩ := h
  exact ⟨ref.serverId, z, hz, hm⟩

theorem searchMaster_spec (c : SNSCoordinator) (n : Nat) {j : Nat} (hj : j < c.clusters.length) :
    (c.searchMaster n j = none ∧ ∀ t < n, ¬ HasMaster c ((j + t) % c.clusters.length)) ∨
    ∃ s ref, s < n ∧ c.searchMaster n j = some ref ∧ IsMaster c ref ∧
      ref.clusterIdx = (j + s) % c.clusters.length ∧ ∀ t < s, ¬ HasMaster c ((j + t) % c.clusters.length) := by
  induction n generalizing j with
  | zero => exact Or.inl ⟨rfl, by simp⟩
  | succ n ih =>
      have hstart : (j + 0) % c.clusters.length = j := Nat.mod_eq_of_lt hj
      cases hmaster : c.clusters[j]?.bind masterOf with
      | some e =>
          obtain ⟨k, z⟩ := e
          refine Or.inr ⟨0, ⟨j, k⟩, Nat.succ_pos n, by rw [searchMaster, hmaster], ?_, hstart.symm, by simp⟩
          obtain ⟨cluster, hc, hfound⟩ := Option.bind_eq_some_iff.mp hmaster
          obtain ⟨hz, hm⟩ := find?_of_masterOf hfound
          exact ⟨z, by rw [SNSCoordinator.deref, zNode?, hc]; exact hz, hm⟩
      | none =>
          have hno : ¬ HasMaster c j := by
            rw [hasMaster_iff, hmaster]
            simp
          have hnext (t : Nat) : ((j + 1) % c.clusters.length + t) % c.clusters.length =
              (j + (t + 1)) % c.clusters.length := by
            rw [Nat.mod_add_mod, add_right_comm, add_assoc]
          have hnone (s : Nat) (h : ∀ t < s, ¬ HasMaster c (((j + 1) % c.clusters.length + t) % c.clusters.length)) :
              ∀ t < s + 1, ¬ HasMaster c ((j + t) % c.clusters.length) := by
            intro t ht
            cases t with
            | zero => rwa [hstart]
            | succ t =>
                rw [← hnext]
                exact h t (by omega)
          rw [searchMaster, hmaster]
          rcases ih (Nat.mod_lt _ (by omega)) with ⟨hsearch, hrest⟩ | ⟨s, ref, hs, hsearch, hm, hidx, hrest⟩
          · exact Or.inl ⟨hsearch, hnone n hrest⟩
          · exact Or.inr ⟨s + 1, ref, by omega, hsearch, hm, by rw [hidx, hnext], hnone s hrest⟩

/-- All clusters are on the way around. -/
theorem exists_step {n j i : Nat} (hj : j < n) (hi : i < n) : ∃ t < n, (j + t) % n = i := by
  by_cases h : j ≤ i
  · exact ⟨i - j, by omega, by rw [Nat.add_sub_cancel' h, Nat.mod_eq_of_lt hi]⟩
  · refine ⟨i + n - j, by omega, ?_⟩
    have hsum : j + (i + n - j) = i + n := by omega
    rw [hsum, Nat.add_mod_right, Nat.mod_eq_of_lt hi]

theorem lt_of_hasMaster {i : Nat} (h : HasMaster c i) : i < c.clusters.length := by
  obtain ⟨k, z, hz, -⟩ := h
  exact lt_length_of_zNode? hz

theorem getActiveMaster_spec (h : Inv c) (hn : 0 < c.clusters.length) (hid : 0 ≤ id) :
    (c.getActiveMaster id = .ok none ∧ ¬ ∃ i, HasMaster c i) ∨
    ∃ ref, c.getActiveMaster id = .ok (some ref) ∧ FirstMaster c (id.toNat % c.clusters.length) ref := by
  have hstart : (id.tmod c.clusters.length).toNat = id.toNat % c.clusters.length := by
    rw [Int.tmod_eq_emod_of_nonneg hid, Int.toNat_emod hid (by omega), Int.toNat_natCast]
  have hlt : id.toNat % c.clusters.length < c.clusters.length := Nat.mod_lt _ hn
  have hsearch : c.getActiveMaster id = .ok (c.searchMaster c.clusters.length (id.toNat % c.clusters.length)) := by
    have hneg : ¬ id.tmod c.clusters.length < 0 := by
      rw [Int.tmod_eq_emod_of_nonneg hid]
      exact not_lt.mpr (Int.emod_nonneg _ (by omega))
    simp only [getActiveMaster, hn.ne', hneg, ↓reduceIte, hstart]
  rw [hsearch]
  rcases searchMaster_spec c c.clusters.length hlt with ⟨hnone, hrest⟩ | ⟨s, ref, hs, hsome, hm, hidx, hrest⟩
  · refine Or.inl ⟨by rw [hnone], ?_⟩
    rintro ⟨i, hi⟩
    obtain ⟨t, ht, rfl⟩ := exists_step hlt (lt_of_hasMaster hi)
    exact hrest t ht hi
  · refine Or.inr ⟨ref, by rw [hsome], hm, ?_, s, hs, hidx, hrest⟩
    rintro k ⟨z, hz, hzm⟩
    obtain ⟨z', hz', hzm'⟩ := hm
    exact h.unique ref.clusterIdx k ref.serverId z z' hz hz' hzm hzm'

/-! ## The reply -/

/-- The coordinator with another entry for the client. -/
def assign (c : SNSCoordinator) (id : Int) (assigned : Option ZRef) : SNSCoordinator :=
  { c with clientAssignments := c.clientAssignments.insert id assigned }

theorem find?_assign (c : SNSCoordinator) (id : Int) (assigned : Option ZRef) (id' : Int) :
    (assign c id assigned).clientAssignments.find? id' =
      if id' = id then some assigned else c.clientAssignments.find? id' :=
  OrdMap.find?_insert _ _ _ _

theorem recorded_assign (c : SNSCoordinator) (id : Int) (assigned : Option ZRef) :
    recorded (assign c id assigned) id = assigned := by
  rw [recorded, find?_assign, if_pos rfl]
  rfl

inductive GetServerOutcome (c : SNSCoordinator) (id : Int) : SNSCoordinator × Status × ServerInfo → Prop
  | kept {ref : ZRef} (hs : Sticky c id ref) :
      GetServerOutcome c id (assign c id (some ref), .OK, c.serverReply ref false)
  | assigned {ref : ZRef} (hno : ¬ ∃ ref, Sticky c id ref)
      (hfirst : FirstMaster c (id.toNat % c.clusters.length) ref) :
      GetServerOutcome c id (assign (assign c id (recorded c id)) id (some ref), .OK, c.serverReply ref true)
  | unavailable (hno : ¬ ∃ ref, Sticky c id ref) (hnone : ¬ ∃ i, HasMaster c i) :
      GetServerOutcome c id (assign c id (recorded c id), noServersAvailable, {})

theorem isMaster_iff : ((c.deref ref).map (·.master)).getD false = true ↔ IsMaster c ref := by
  rw [IsMaster]
  cases c.deref ref with
  | none => simp
  | some z => simp

theorem getServer_spec (h : Inv c) (hn : 0 < c.clusters.length) (hid : 0 ≤ id) :
    ∃ r, c.getServer id = .ok r ∧ GetServerOutcome c id r := by
  have hinv : Inv (assign c id (recorded c id)) := h.congr rfl rfl
  simp only [getServer]
  split
  next server hfilter =>
      obtain ⟨hrecorded, hm⟩ := Option.filter_eq_some_iff.mp hfilter
      refine ⟨_, rfl, ?_⟩
      rw [hrecorded]
      exact .kept ⟨hrecorded, isMaster_iff.mp hm⟩
  next hfilter =>
      have hno : ¬ ∃ ref, Sticky c id ref := by
        rintro ⟨ref, hrecorded, hm⟩
        exact Option.filter_eq_none_iff.mp hfilter ref hrecorded (isMaster_iff.mpr hm)
      rcases getActiveMaster_spec hinv hn hid with ⟨hr, hnone⟩ | ⟨ref, hr, hfirst⟩
      · exact ⟨_, bind_eq_ok.mpr ⟨none, hr, rfl⟩, .unavailable hno hnone⟩
      · exact ⟨_, bind_eq_ok.mpr ⟨some ref, hr, rfl⟩, .assigned hno ⟨hfirst.master, hfirst.only, hfirst.first⟩⟩

/-- `GetServer` succeeds exactly if there is a master. It keeps the client's server while this one is master, assigns
the first master of the cyclic order otherwise, and changes the entry of no other client. -/
theorem getServer_correct (h : (SNSCoordinator.machine numClusters).Reachable c) (hn : 0 < c.clusters.length)
    (hid : 0 ≤ id) : ∃ r, c.getServer id = .ok r ∧ (r.2.1.code = .ok ↔ ∃ i, HasMaster c i) ∧
      (∀ ref, Sticky c id ref → Serves r id ref false) ∧
      ((¬ ∃ ref, Sticky c id ref) → r.2.1.code = .ok →
        ∃ ref, FirstMaster c (id.toNat % c.clusters.length) ref ∧ Serves r id ref true) ∧
      (∀ id' ≠ id, r.1.clientAssignments.find? id' = c.clientAssignments.find? id') ∧
      r.1.clusters = c.clusters := by
  obtain ⟨r, hr, ho⟩ := getServer_spec (.of_reachable h) hn hid
  refine ⟨r, hr, ?_⟩
  have hserves {ref : ZRef} (hm : IsMaster c ref) (c' : SNSCoordinator) (hc' : c'.clusters = c.clusters)
      (changed : Bool) : Serves (assign c' id (some ref), .OK, c.serverReply ref changed) id ref changed := by
    obtain ⟨z, hz, hzm⟩ := hm
    refine ⟨rfl, recorded_assign c' id _, z, ?_, hzm, ?_⟩
    · rw [← hz, SNSCoordinator.deref, SNSCoordinator.deref, zNode?, zNode?, assign, hc']
    · rw [serverReply, hz]
      rfl
  cases ho with
  | @kept ref hs =>
      refine ⟨iff_of_true rfl ⟨_, hasMaster_of_isMaster hs.2⟩, ?_, ?_, ?_, rfl⟩
      · intro ref' hs'
        obtain rfl : ref' = ref := Option.some.inj (hs'.1.symm.trans hs.1)
        exact hserves hs.2 c rfl false
      · intro hno
        exact absurd ⟨ref, hs⟩ hno
      · intro id' hid'
        rw [find?_assign, if_neg hid']
  | @assigned ref hno hfirst =>
      refine ⟨iff_of_true rfl ⟨_, hasMaster_of_isMaster hfirst.master⟩, ?_, ?_, ?_, rfl⟩
      · intro ref' hs'
        exact absurd ⟨ref', hs'⟩ hno
      · intro _ _
        exact ⟨ref, hfirst, hserves hfirst.master (assign c id (recorded c id)) rfl true⟩
      · intro id' hid'
        rw [find?_assign, if_neg hid', find?_assign, if_neg hid']
  | unavailable hno hnone =>
      have hcode : noServersAvailable.code ≠ .ok := by simp [noServersAvailable]
      refine ⟨iff_of_false hcode hnone, ?_, ?_, ?_, rfl⟩
      · intro ref hs
        exact absurd ⟨ref, hs⟩ hno
      · intro _ hok
        exact absurd hok hcode
      · intro id' hid'
        rw [find?_assign, if_neg hid']

/-- The only master is in the second of three clusters. -/
def oneMaster : List SNSCoordinator.Event :=
  [.heartbeat 0 { serverid := 4, clusterid := 2, hostname := ['h'], port := ['1'] }]

/-- The search for the client with id 5 begins at the third cluster and comes to this master. -/
theorem getServer_correct_oneMaster : ∃ c r ref, oneMaster.foldlM SNSCoordinator.handle (.init 3) = .ok c ∧
    c.getServer 5 = .ok r ∧ FirstMaster c 2 ref ∧ Serves r 5 ref true := by
  obtain ⟨c, hc, hlength, hmaster, hnew⟩ : ∃ c, oneMaster.foldlM SNSCoordinator.handle (.init 3) = .ok c ∧
      c.clusters.length = 3 ∧ (c.clusters[1]?.bind masterOf).isSome ∧ recorded c 5 = none :=
    ⟨_, rfl, rfl, by decide +kernel, rfl⟩
  have hreach : (SNSCoordinator.machine 3).Reachable c := Machine.reachable_of_foldlM rfl hc
  have hno : ¬ ∃ ref, Sticky c 5 ref := by simp [Sticky, hnew]
  obtain ⟨r, hr, hok, -, hassigned, -⟩ := @getServer_correct 3 c 5 hreach (by omega) (by decide)
  obtain ⟨ref, hfirst, hserves⟩ := hassigned hno (hok.mpr ⟨1, hasMaster_iff.mpr hmaster⟩)
  rw [hlength] at hfirst
  exact ⟨c, r, ref, hc, hr, hfirst, hserves⟩

end DistributedSns.Coordinator
