import DistributedSns.Coordinator.Lemmas.Invariant

/-!
# Passes of `checkHeartbeats`

A pass goes through the servers one after the other, and each turn changes the server's `zNode` and the lock files. The
turns do not disturb each other: a pass checks every server once, and releases the locks of those which miss their
second heartbeat.
-/

namespace DistributedSns.Coordinator

open Lib FSWrapper

variable {numClusters : Int} {c c' : SNSCoordinator} {time : Nat → Int → Int}

def ZNode.isLate (z : ZNode) (now : Int) : Bool := now - z.lastHeartbeat > maxHeartbeatDelay

/-- A `zNode` which has missed as many heartbeats more. -/
def ZNode.miss (z : ZNode) (n : Nat) : ZNode :=
  { z with missedHeartbeats := z.missedHeartbeats + n, master := z.master && z.missedHeartbeats + n < 2 }

/-- The number of passes which find the server late. -/
def misses (passes : List (Nat → Int → Int)) (i : Nat) (k : Int) (z : ZNode) : Nat :=
  passes.countP fun time => z.isLate (time i k)

/-- The lock belongs to a server which misses its second heartbeat in these passes. -/
def Released (c : SNSCoordinator) (passes : List (Nat → Int → Int)) (l : Lock) : Prop :=
  ∃ i k z, c.zNode? i k = some z ∧ l = z.lock i k ∧ z.missedHeartbeats < 2 ∧
    2 ≤ z.missedHeartbeats + misses passes i k z

/-! ## One turn -/

variable {i : Nat} {k : Int} {z : ZNode}

theorem ZNodeOk.miss_eq {fs : FSMemory} (h : ZNodeOk fs i k z) {n : Nat} (hn : n = 0 ∨ z.missedHeartbeats + n ≠ 2)
    (hle : n ≤ 1) : z.miss n = { z with missedHeartbeats := z.missedHeartbeats + n } := by
  have hmaster : (z.master && decide (z.missedHeartbeats + n < 2)) = z.master := by
    cases hm : z.master with
    | false => rfl
    | true =>
        have := (h.master hm).2
        simp only [Bool.true_and, decide_eq_true_eq]
        omega
  rw [ZNode.miss, hmaster]

/-- The effect of one turn, for a server which is there. -/
structure Turn (c : SNSCoordinator) (now : Int) (i : Nat) (k : Int) (z : ZNode) (c' : SNSCoordinator) : Prop where
  clients : c'.clientAssignments = c.clientAssignments
  clusters : c'.clusters.length = c.clusters.length
  zNode : ∀ i' k', c'.zNode? i' k' =
    if i' = i ∧ k' = k then some (z.miss (if z.isLate now then 1 else 0)) else c.zNode? i' k'
  locks : ∀ l, lockData c'.filesys l =
    if z.isLate now = true ∧ z.missedHeartbeats = 1 ∧ l = z.lock i k then none else lockData c.filesys l

theorem isLate_iff {now : Int} : z.isLate now = true ↔ now - z.lastHeartbeat > maxHeartbeatDelay := by
  rw [ZNode.isLate, decide_eq_true_eq]

theorem checkServer_of_not_late (hz : c.zNode? i k = some z) {now : Int} (hlate : z.isLate now = false) :
    c.checkServer now i k = .ok c := by
  rw [SNSCoordinator.checkServer, hz]
  simp only [← isLate_iff, hlate, Bool.false_eq_true, ↓reduceIte]

theorem checkServer_of_late (hz : c.zNode? i k = some z) {now : Int} (hlate : z.isLate now = true)
    (hone : z.missedHeartbeats ≠ 1) :
    c.checkServer now i k = .ok (c.setZNode i k { z with missedHeartbeats := z.missedHeartbeats + 1 }) := by
  have hne : z.missedHeartbeats + 1 ≠ 2 := by omega
  rw [SNSCoordinator.checkServer, hz]
  simp only [← isLate_iff, hlate, hne, ↓reduceIte]
  rfl

theorem checkServer_of_second (hz : c.zNode? i k = some z) {now : Int} (hlate : z.isLate now = true)
    (hone : z.missedHeartbeats = 1) {fs : FSMemory} {code : Int} (hr : c.filesys.remove z.path = .ok (fs, code)) :
    c.checkServer now i k =
      .ok ((c.withFilesys fs).setZNode i k { z with missedHeartbeats := 2, master := false }) := by
  rw [SNSCoordinator.checkServer, hz]
  simp only [← isLate_iff, hlate, hone, ↓reduceIte, hr, ok_bind]
  rfl

theorem turn_spec (h : Inv c) (hz : c.zNode? i k = some z) (now : Int) :
    ∃ c', c.checkServer now i k = .ok c' ∧ Inv c' ∧ Turn c now i k z c' := by
  have hzok := h.zNodes i k z hz
  have hi := c.lt_length_of_zNode? hz
  suffices hturn : ∃ c', c.checkServer now i k = .ok c' ∧ Turn c now i k z c' by
    obtain ⟨c', hc, ht⟩ := hturn
    exact ⟨c', hc, h.check (check_outcome hc), ht⟩
  cases hlate : z.isLate now with
  | false =>
      refine ⟨c, checkServer_of_not_late hz hlate, rfl, rfl, ?_, ?_⟩
      · intro i' k'
        rw [hlate, if_neg Bool.false_ne_true, hzok.miss_eq (Or.inl rfl) (Nat.zero_le 1)]
        split_ifs with he
        · rw [he.1, he.2, hz]
          rfl
        · rfl
      · intro l
        rw [if_neg (by simp [hlate])]
  | true =>
      by_cases hone : z.missedHeartbeats = 1
      · obtain ⟨fs, code, hr, hfs⟩ := h.remove_eq hz hone
        refine ⟨_, checkServer_of_second hz hlate hone hr, rfl, by simp, ?_, ?_⟩
        · intro i' k'
          rw [c.zNode?_withFilesys_setZNode hi]
          simp [hlate, ZNode.miss, hone]
        · intro l
          rw [SNSCoordinator.filesys_setZNode, SNSCoordinator.filesys_withFilesys, hfs.data, Function.update_apply]
          simp [hlate, hone]
      · refine ⟨_, checkServer_of_late hz hlate hone, rfl, by simp, ?_, ?_⟩
        · intro i' k'
          rw [c.zNode?_setZNode hi, if_pos hlate, hzok.miss_eq (Or.inr (by omega)) le_rfl]
        · intro l
          rw [if_neg (by simp [hone])]
          rfl

/-! ## One pass -/

/-- The server misses its second heartbeat in its turn, and the lock is its own. -/
def LosesLock (c : SNSCoordinator) (time : Nat → Int → Int) (l : Lock) (turn : Nat × Int) : Prop :=
  ∃ z, c.zNode? turn.1 turn.2 = some z ∧ z.isLate (time turn.1 turn.2) = true ∧ z.missedHeartbeats = 1 ∧
    l = z.lock turn.1 turn.2

/-- What has been done once the servers of a list had their turns. -/
structure Checked (c : SNSCoordinator) (time : Nat → Int → Int) (turns : List (Nat × Int)) (c' : SNSCoordinator) :
    Prop where
  inv : Inv c'
  clients : c'.clientAssignments = c.clientAssignments
  clusters : c'.clusters.length = c.clusters.length
  zNode : ∀ i k, c'.zNode? i k = if (i, k) ∈ turns then
    (c.zNode? i k).map fun z => z.miss (if z.isLate (time i k) then 1 else 0) else c.zNode? i k
  released : ∀ l, (∃ turn ∈ turns, LosesLock c time l turn) → lockData c'.filesys l = none
  locks : ∀ l, (¬ ∃ turn ∈ turns, LosesLock c time l turn) → lockData c'.filesys l = lockData c.filesys l

theorem Checked.nil (h : Inv c) : Checked c time [] c where
  inv := h
  clients := rfl
  clusters := rfl
  zNode i k := by rw [if_neg List.not_mem_nil]
  released l hl := by
    obtain ⟨turn, hturn, -⟩ := hl
    cases hturn
  locks _ _ := rfl

theorem exists_mem_concat {turns : List (Nat × Int)} {p : Nat × Int → Prop} :
    (∃ turn ∈ turns ++ [(i, k)], p turn) ↔ (∃ turn ∈ turns, p turn) ∨ p (i, k) := by
  simp only [List.mem_append, List.mem_singleton, or_and_right, exists_or, exists_eq_left]

/-- The turn of one more server. -/
theorem Checked.turn {turns : List (Nat × Int)} (h : Checked c time turns c') (hnew : (i, k) ∉ turns) :
    ∃ c'', c'.checkServer (time i k) i k = .ok c'' ∧ Checked c time (turns ++ [(i, k)]) c'' := by
  have hsame : c'.zNode? i k = c.zNode? i k := by rw [h.zNode, if_neg hnew]
  cases hz : c.zNode? i k with
  | none =>
      rw [hz] at hsame
      refine ⟨c', by rw [SNSCoordinator.checkServer, hsame], h.inv, h.clients, h.clusters, ?_, ?_, ?_⟩
      · intro i' k'
        rw [h.zNode]
        by_cases he : (i', k') = (i, k)
        · cases he
          simp [hz]
        · simp [he]
      · intro l hl
        rcases exists_mem_concat.mp hl with hl | ⟨z, hz', -⟩
        · exact h.released l hl
        · rw [hz] at hz'
          cases hz'
      · intro l hl
        exact h.locks l fun hl' => hl (exists_mem_concat.mpr (Or.inl hl'))
  | some z =>
      rw [hz] at hsame
      obtain ⟨c'', hc, hinv, ht⟩ := turn_spec h.inv hsame (time i k)
      refine ⟨c'', hc, hinv, ht.clients.trans h.clients, ht.clusters.trans h.clusters, ?_, ?_, ?_⟩
      · intro i' k'
        rw [ht.zNode, h.zNode]
        by_cases he : (i', k') = (i, k)
        · cases he
          simp [hz]
        · have hne : ¬ (i' = i ∧ k' = k) := fun h => he (Prod.ext h.1 h.2)
          simp only [hne, ↓reduceIte, List.mem_append, List.mem_singleton, he, or_false]
      · intro l hl
        rw [ht.locks]
        split_ifs with hnow
        · rfl
        · rcases exists_mem_concat.mp hl with hl | ⟨z', hz', hlate, hone, hlock⟩
          · exact h.released l hl
          · rw [hz] at hz'
            cases hz'
            exact absurd ⟨hlate, hone, hlock⟩ hnow
      · intro l hl
        rw [exists_mem_concat, not_or] at hl
        rw [ht.locks, if_neg fun hnow => hl.2 ⟨z, hz, hnow⟩]
        exact h.locks l hl.1

theorem Checked.turns {done turns : List (Nat × Int)} (h : Checked c time done c') (hnodup : (done ++ turns).Nodup) :
    ∃ c'', turns.foldlM (fun c turn => c.checkServer (time turn.1 turn.2) turn.1 turn.2) c' = .ok c'' ∧
      Checked c time (done ++ turns) c'' := by
  induction turns generalizing done c' with
  | nil => exact ⟨c', rfl, by rwa [List.append_nil]⟩
  | cons turn turns ih =>
      obtain ⟨i, k⟩ := turn
      have hnew : (i, k) ∉ done := fun hmem => (List.nodup_append.mp hnodup).2.2 _ hmem _ List.mem_cons_self rfl
      obtain ⟨c₁, hc₁, h₁⟩ := h.turn hnew
      have happend : done ++ (i, k) :: turns = done ++ [(i, k)] ++ turns := by simp
      rw [happend] at hnodup ⊢
      obtain ⟨c₂, hc₂, h₂⟩ := ih h₁ hnodup
      exact ⟨c₂, by rw [List.foldlM_cons, hc₁]; exact hc₂, h₂⟩

/-- The turns of a pass. -/
def SNSCoordinator.turns (c : SNSCoordinator) : List (Nat × Int) :=
  c.clusters.zipIdx.flatMap fun (cluster, i) => cluster.entries.map fun entry => (i, entry.1)

theorem checkHeartbeats_eq (c : SNSCoordinator) (time : Nat → Int → Int) : c.checkHeartbeats time =
    c.turns.foldlM (fun c turn => c.checkServer (time turn.1 turn.2) turn.1 turn.2) c := by
  have hloops (l : List (OrdMap Int ZNode × Nat)) (c : SNSCoordinator) :
      l.foldlM (fun c (x : OrdMap Int ZNode × Nat) =>
        x.1.entries.foldlM (fun c entry => c.checkServer (time x.2 entry.1) x.2 entry.1) c) c =
      (l.flatMap fun x => x.1.entries.map fun entry => (x.2, entry.1)).foldlM
        (fun c turn => c.checkServer (time turn.1 turn.2) turn.1 turn.2) c := by
    induction l generalizing c with
    | nil => rfl
    | cons x l ih =>
        rw [List.foldlM_cons, List.flatMap_cons, List.foldlM_append, List.foldlM_map]
        exact congrArg _ (funext ih)
  exact hloops c.clusters.zipIdx c

/-- A pass is a run of checks. -/
theorem checkHeartbeats_reachable (h : (SNSCoordinator.machine numClusters).Reachable c)
    (hc : c.checkHeartbeats time = .ok c') : (SNSCoordinator.machine numClusters).Reachable c' := by
  rw [checkHeartbeats_eq] at hc
  exact h.foldlM (fun _ turn _ hr hs => hr.step (e := .check (time turn.1 turn.2) turn.1 turn.2) hs) hc

theorem mem_turns : (i, k) ∈ c.turns ↔ (c.zNode? i k).isSome := by
  rw [SNSCoordinator.zNode?]
  simp only [SNSCoordinator.turns, List.mem_flatMap, List.mem_map, Prod.mk.injEq, Prod.exists]
  constructor
  · rintro ⟨cluster, j, hcluster, k', z, hz, rfl, rfl⟩
    rw [List.mem_zipIdx_iff_getElem?] at hcluster
    rw [hcluster, Option.bind_some, OrdMap.mem_entries_iff.mp hz]
    rfl
  · intro h
    obtain ⟨z, hz⟩ := Option.isSome_iff_exists.mp h
    obtain ⟨cluster, hcluster, hfound⟩ := Option.bind_eq_some_iff.mp hz
    exact ⟨cluster, i, List.mem_zipIdx_iff_getElem?.mpr hcluster, k, z, OrdMap.mem_entries_iff.mpr hfound, rfl, rfl⟩

/-- A pass comes to every server once. -/
theorem nodup_turns (c : SNSCoordinator) : c.turns.Nodup := by
  rw [SNSCoordinator.turns, List.nodup_flatMap]
  constructor
  · rintro ⟨cluster, j⟩ -
    refine List.pairwise_map.mpr (cluster.sorted.imp fun hlt heq => ?_)
    exact hlt.ne (Prod.mk.inj heq).2
  · refine (List.pairwise_map.mp (List.nodup_zipIdx_map_snd c.clusters)).imp fun hne => ?_
    rw [Function.onFun, List.disjoint_left]
    intro turn h₁ h₂
    obtain ⟨_, -, rfl⟩ := List.mem_map.mp h₁
    obtain ⟨_, -, heq⟩ := List.mem_map.mp h₂
    exact hne (Prod.mk.inj heq).1.symm

/-- A pass checks every server at its time. -/
theorem pass_spec (h : Inv c) (time : Nat → Int → Int) :
    ∃ c', c.checkHeartbeats time = .ok c' ∧ Checked c time c.turns c' := by
  rw [checkHeartbeats_eq]
  exact (Checked.nil h).turns (nodup_turns c)

theorem Checked.zNode_pass (h : Checked c time c.turns c') (i : Nat) (k : Int) :
    c'.zNode? i k = (c.zNode? i k).map fun z => z.miss (misses [time] i k z) := by
  rw [h.zNode]
  cases hz : c.zNode? i k with
  | none => simp
  | some z =>
      rw [if_pos (mem_turns.mpr (by rw [hz]; rfl))]
      simp [misses, List.countP_singleton]

/-! ## Any number of passes -/

theorem misses_cons (passes : List (Nat → Int → Int)) (i : Nat) (k : Int) (z : ZNode) :
    misses (time :: passes) i k z = misses [time] i k z + misses passes i k z := by
  rw [misses, misses, misses, ← List.countP_append]
  rfl

theorem misses_miss (passes : List (Nat → Int → Int)) (i : Nat) (k : Int) (z : ZNode) (n : Nat) :
    misses passes i k (z.miss n) = misses passes i k z := rfl

theorem ZNode.miss_miss (z : ZNode) (m n : Nat) : (z.miss m).miss n = z.miss (m + n) := by
  have hmaster : (z.master && decide (z.missedHeartbeats + m < 2) && decide (z.missedHeartbeats + (m + n) < 2)) =
      (z.master && decide (z.missedHeartbeats + (m + n) < 2)) := by
    rw [Bool.and_assoc, ← Bool.decide_and]
    congr 2
    rw [eq_iff_iff]
    omega
  rw [miss, miss, miss]
  simp only [Nat.add_assoc, hmaster]

theorem ZNodeOk.miss_zero {fs : FSMemory} (h : ZNodeOk fs i k z) : z.miss 0 = z :=
  h.miss_eq (Or.inl rfl) (Nat.zero_le 1)

/-- A server keeps its lock as long as it has missed fewer than two heartbeats. -/
theorem ZNode.lock_miss {n : Nat} (hn : z.missedHeartbeats + n < 2) : (z.miss n).lock i k = z.lock i k := by
  simp [lock, miss, hn]

theorem misses_singleton (i : Nat) (k : Int) (z : ZNode) :
    misses [time] i k z = if z.isLate (time i k) = true then 1 else 0 := by
  simp [misses, List.countP_singleton]

/-- A lock is released in the first pass or in those which follow. -/
theorem Checked.released_cons (h : Checked c time c.turns c') {passes : List (Nat → Int → Int)} {l : Lock} :
    Released c (time :: passes) l ↔ (∃ turn ∈ c.turns, LosesLock c time l turn) ∨ Released c' passes l := by
  constructor
  · rintro ⟨i, k, z, hz, rfl, hfew, hmany⟩
    rw [misses_cons] at hmany
    by_cases hnow : z.missedHeartbeats + misses [time] i k z < 2
    · right
      refine ⟨i, k, z.miss (misses [time] i k z), by rw [h.zNode_pass, hz]; rfl, (ZNode.lock_miss hnow).symm, hnow, ?_⟩
      rw [misses_miss, ZNode.miss, Nat.add_assoc]
      exact hmany
    · left
      rw [misses_singleton] at hnow
      split_ifs at hnow with hlate
      · exact ⟨(i, k), mem_turns.mpr (by rw [hz]; rfl), z, hz, hlate, by omega, rfl⟩
      · exact absurd hfew hnow
  · rintro (⟨⟨i, k⟩, -, z, hz, hlate, hone, rfl⟩ | ⟨i, k, z', hz', rfl, hfew, hmany⟩)
    · refine ⟨i, k, z, hz, rfl, by omega, ?_⟩
      rw [misses_cons, misses_singleton, if_pos hlate]
      omega
    · rw [h.zNode_pass] at hz'
      obtain ⟨z, hz, rfl⟩ := Option.map_eq_some_iff.mp hz'
      rw [misses_miss, ZNode.miss, Nat.add_assoc, ← misses_cons] at hmany
      have hfew' : z.missedHeartbeats + misses [time] i k z < 2 := hfew
      exact ⟨i, k, z, hz, ZNode.lock_miss hfew', by omega, hmany⟩

/-- Whatever has happened before, any number of passes without a heartbeat in between comes to an end. Every server is
counted as many misses as there are passes which find it late, a master is one as long as these are fewer than two in
all, and exactly the locks of the servers which come to two are released. -/
theorem passes_exact (h : (SNSCoordinator.machine numClusters).Reachable c) (passes : List (Nat → Int → Int)) :
    ∃ c', passes.foldlM SNSCoordinator.checkHeartbeats c = .ok c' ∧
      c'.clientAssignments = c.clientAssignments ∧ c'.clusters.length = c.clusters.length ∧
      (∀ i k, c'.zNode? i k = (c.zNode? i k).map fun z => z.miss (misses passes i k z)) ∧
      (∀ l, Released c passes l → lockData c'.filesys l = none) ∧
      ∀ l, ¬ Released c passes l → lockData c'.filesys l = lockData c.filesys l := by
  have hinv := Inv.of_reachable h
  clear h
  induction passes generalizing c with
  | nil =>
      refine ⟨c, rfl, rfl, rfl, ?_, ?_, fun _ _ => rfl⟩
      · intro i k
        cases hz : c.zNode? i k with
        | none => rfl
        | some z => exact congrArg some (hinv.zNodes i k z hz).miss_zero.symm
      · rintro l ⟨i, k, z, -, -, hfew, hmany⟩
        exact absurd hmany (not_le.mpr hfew)
  | cons time passes ih =>
      obtain ⟨c₁, hc₁, h₁⟩ := pass_spec hinv time
      obtain ⟨c₂, hc₂, hclients, hclusters, hzNode, hreleased, hlocks⟩ := ih h₁.inv
      refine ⟨c₂, by rw [List.foldlM_cons, hc₁]; exact hc₂, hclients.trans h₁.clients, hclusters.trans h₁.clusters,
        ?_, ?_, ?_⟩
      · intro i k
        rw [hzNode, h₁.zNode_pass]
        cases c.zNode? i k with
        | none => rfl
        | some z =>
            simp only [Option.map_some, misses_miss, ZNode.miss_miss]
            rw [← misses_cons]
      · intro l hl
        by_cases hlater : Released c₁ passes l
        · exact hreleased l hlater
        · rw [hlocks l hlater]
          exact h₁.released l ((h₁.released_cons.mp hl).resolve_right hlater)
      · intro l hl
        rw [h₁.released_cons, not_or] at hl
        rw [hlocks l hl.2, h₁.locks l hl.1]

/-- Two passes find the only server late. -/
theorem passes_exact_twoPasses : ∃ c c' z,
    [SNSCoordinator.Event.heartbeat 0 { serverid := 1, clusterid := 1 }].foldlM SNSCoordinator.handle (.init 1) = .ok c ∧
    [fun _ _ => 11, fun _ _ => 14].foldlM SNSCoordinator.checkHeartbeats c = .ok c' ∧
    c.zNode? 0 1 = some z ∧ z.master = true ∧ c'.zNode? 0 1 = some (z.miss 2) ∧
    (lockData c.filesys (.master 1)).isSome ∧ lockData c'.filesys (.master 1) = none := by
  obtain ⟨c, z, hc, hz, hmaster, hmisses, hfew, hlock⟩ : ∃ c z,
      [SNSCoordinator.Event.heartbeat 0 { serverid := 1, clusterid := 1 }].foldlM SNSCoordinator.handle (.init 1) =
        .ok c ∧ c.zNode? 0 1 = some z ∧ z.master = true ∧ misses [fun _ _ => 11, fun _ _ => 14] 0 1 z = 2 ∧
      z.missedHeartbeats = 0 ∧ (lockData c.filesys (.master 1)).isSome :=
    ⟨_, _, rfl, rfl, by decide +kernel, by decide +kernel, by decide +kernel, by decide +kernel⟩
  have hreach : (SNSCoordinator.machine 1).Reachable c := Machine.reachable_of_foldlM rfl hc
  obtain ⟨c', hc', -, -, hzNode, hreleased, -⟩ := passes_exact hreach [fun _ _ => 11, fun _ _ => 14]
  refine ⟨c, c', z, hc, hc', hz, hmaster, ?_, hlock, hreleased _ ⟨0, 1, z, hz, ?_, by omega, by omega⟩⟩
  · rw [hzNode, hz, Option.map_some, hmisses]
  · rw [ZNode.lock, if_pos hmaster]
    rfl

end DistributedSns.Coordinator
