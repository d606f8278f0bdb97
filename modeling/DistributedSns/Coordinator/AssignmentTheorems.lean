import DistributedSns.Coordinator.Lemmas.Invariant

/-!
# Client ids

The next client id is the size of the map of assignments. `GetServer` makes an entry for any id it is sent, so the
next id may be one which is in the map already. Then the next call returns this id once more.
-/

namespace DistributedSns.Coordinator

open Lib

variable {numClusters : Int} {c c' : SNSCoordinator} {e : SNSCoordinator.Event}
  {tr : List (SNSCoordinator × SNSCoordinator.Event)}

/-- The id which is returned in this step. -/
def issuedIn (c : SNSCoordinator) : SNSCoordinator.Event → Option Int
  | .getUniqueClientID => some c.getUniqueClientID.2
  | _ => none

def issued (tr : List (SNSCoordinator × SNSCoordinator.Event)) : List Int :=
  tr.filterMap fun x => issuedIn x.1 x.2

/-- When a new id is asked for, the map has no entry at its size. -/
def NextFree (c : SNSCoordinator) (e : SNSCoordinator.Event) : Prop :=
  e = .getUniqueClientID → c.clientAssignments.find? c.rawId = none

/-- If the event issues an id, every entry of the map is kept. -/
def KeepsAssignments (c : SNSCoordinator) (e : SNSCoordinator.Event) : Prop :=
  e = .getUniqueClientID → ∀ id assigned, c.clientAssignments.find? id = some assigned →
    c.getUniqueClientID.1.clientAssignments.find? id = some assigned

/-! ## The map of assignments -/

theorem isSome_getServer {rawId : Int} {r : SNSCoordinator × Status × ServerInfo} (h : c.getServer rawId = .ok r)
    {id : Int} (hid : (c.clientAssignments.find? id).isSome) : (r.1.clientAssignments.find? id).isSome := by
  simp only [SNSCoordinator.getServer, bind, Except.bind, pure, Except.pure] at h
  split at h
  · cases h
    exact OrdMap.isSome_find?_insert hid _
  · split at h
    · cases h
    · split at h
      · cases h
        exact OrdMap.isSome_find?_insert hid _
      · cases h
        exact OrdMap.isSome_find?_insert (OrdMap.isSome_find?_insert hid _) _

/-- No entry is ever removed. -/
theorem isSome_handle (h : Inv c) (he : c.handle e = .ok c') {id : Int}
    (hid : (c.clientAssignments.find? id).isSome) : (c'.clientAssignments.find? id).isSome := by
  cases e with
  | heartbeat now info =>
      obtain ⟨r, hr, he⟩ := bind_eq_ok.mp he
      cases he
      cases heartbeat_outcome h.service hr <;> exact hid
  | check now i k => cases check_outcome he <;> exact hid
  | getCounterparts info =>
      obtain ⟨l, -, he⟩ := bind_eq_ok.mp he
      cases he
      exact hid
  | getOtherClusterMasters info =>
      obtain ⟨l, -, he⟩ := bind_eq_ok.mp he
      cases he
      exact hid
  | getUniqueClientID =>
      cases he
      exact OrdMap.isSome_find?_insert hid _
  | getServer rawId =>
      obtain ⟨r, hr, he⟩ := bind_eq_ok.mp he
      cases he
      exact isSome_getServer hr hid

theorem snd_getUniqueClientID (c : SNSCoordinator) : c.getUniqueClientID.2 = c.rawId := rfl

theorem assignments_getUniqueClientID (c : SNSCoordinator) :
    c.getUniqueClientID.1.clientAssignments = c.clientAssignments.insert c.rawId none := rfl

theorem find?_getUniqueClientID (c : SNSCoordinator) (id : Int) :
    c.getUniqueClientID.1.clientAssignments.find? id =
      if id = c.rawId then some none else c.clientAssignments.find? id := by
  rw [assignments_getUniqueClientID, OrdMap.find?_insert]

theorem keepsAssignments (h : NextFree c e) : KeepsAssignments c e := by
  intro he id assigned hid
  rw [find?_getUniqueClientID, if_neg]
  · exact hid
  · intro hraw
    have hnone : c.clientAssignments.find? c.rawId = none := h he
    rw [← hraw, hid] at hnone
    cases hnone

/-- An id which is in the map already is issued again by the next call. -/
theorem rawId_getUniqueClientID (h : (c.clientAssignments.find? c.rawId).isSome) :
    c.getUniqueClientID.1.rawId = c.rawId := by
  have hsize : c.getUniqueClientID.1.clientAssignments.size = c.clientAssignments.size := by
    rw [assignments_getUniqueClientID, OrdMap.size_insert_of_isSome h]
  unfold SNSCoordinator.rawId
  rw [hsize]

/-! ## Runs -/

theorem issuedIn_of_ne (h : e ≠ .getUniqueClientID) : issuedIn c e = none := by
  cases e with
  | getUniqueClientID => exact absurd rfl h
  | _ => rfl

theorem issued_concat : issued (tr ++ [(c, e)]) = issued tr ++ (issuedIn c e).toList := by
  rw [issued, List.filterMap_append]
  cases h : issuedIn c e with
  | none => simp [h, issued]
  | some id => simp [h, issued]

/-- The ids issued so far are distinct and all in the map. -/
structure IssuedInv (tr : List (SNSCoordinator × SNSCoordinator.Event)) (c : SNSCoordinator) : Prop where
  inv : Inv c
  present : ∀ id ∈ issued tr, (c.clientAssignments.find? id).isSome
  nodup : (issued tr).Nodup

theorem IssuedInv.step (h : IssuedInv tr c) (hfree : NextFree c e) (he : c.handle e = .ok c') :
    IssuedInv (tr ++ [(c, e)]) c' := by
  have hold (id : Int) (hid : id ∈ issued tr) : (c'.clientAssignments.find? id).isSome :=
    isSome_handle h.inv he (h.present id hid)
  cases e with
  | getUniqueClientID =>
      have hnone : c.clientAssignments.find? c.rawId = none := hfree rfl
      have hissued : issued (tr ++ [(c, .getUniqueClientID)]) = issued tr ++ [c.rawId] := by
        rw [issued_concat, issuedIn, snd_getUniqueClientID, Option.toList_some]
      constructor
      · exact h.inv.handle he
      · rw [hissued]
        intro id hid
        rcases List.mem_append.mp hid with hid | hid
        · exact hold id hid
        · cases he
          rw [List.mem_singleton.mp hid, find?_getUniqueClientID, if_pos rfl]
          rfl
      · rw [hissued]
        apply h.nodup.append (List.nodup_singleton _)
        rw [List.disjoint_singleton]
        intro hid
        have := h.present _ hid
        rw [hnone] at this
        cases this
  | _ =>
      constructor
      · exact h.inv.handle he
      · rw [issued_concat, issuedIn_of_ne (by nofun), Option.toList_none, List.append_nil]
        exact hold
      · rw [issued_concat, issuedIn_of_ne (by nofun), Option.toList_none, List.append_nil]
        exact h.nodup

theorem issuedInv_of_run (hrun : (SNSCoordinator.machine numClusters).Run (.init numClusters) tr c)
    (hfree : ∀ x ∈ tr, NextFree x.1 x.2) : IssuedInv tr c := by
  induction hrun with
  | nil =>
      constructor
      · exact .init numClusters
      · intro id hid
        cases hid
      · exact List.nodup_nil
  | snoc _ hs ih =>
      have hlast := hfree _ (List.mem_append_right _ List.mem_cons_self)
      exact (ih fun x hx => hfree x (List.mem_append_left _ hx)).step hlast hs

/-- If no new id is asked for while the map has an entry at its size, the ids are distinct and no entry is reset.
In a state where it has one, two more calls return the same id. -/
theorem clientIDs_unique (hrun : (SNSCoordinator.machine numClusters).Run (.init numClusters) tr c) :
    ((∀ x ∈ tr, NextFree x.1 x.2) → (issued tr).Nodup ∧ ∀ x ∈ tr, KeepsAssignments x.1 x.2) ∧
    (¬ NextFree c .getUniqueClientID → ∃ c₁ c₂,
      (SNSCoordinator.machine numClusters).Run (.init numClusters)
        (tr ++ [(c, .getUniqueClientID)] ++ [(c₁, .getUniqueClientID)]) c₂ ∧
      ¬ (issued (tr ++ [(c, .getUniqueClientID)] ++ [(c₁, .getUniqueClientID)])).Nodup) := by
  constructor
  · intro hfree
    exact ⟨(issuedInv_of_run hrun hfree).nodup, fun x hx => keepsAssignments (hfree x hx)⟩
  · intro hused
    have hsome : (c.clientAssignments.find? c.rawId).isSome := by
      rw [← Option.ne_none_iff_isSome]
      exact fun hnone => hused fun _ => hnone
    have hstep (c : SNSCoordinator) :
        (SNSCoordinator.machine numClusters).step c .getUniqueClientID c.getUniqueClientID.1 := rfl
    refine ⟨c.getUniqueClientID.1, c.getUniqueClientID.1.getUniqueClientID.1,
      (hrun.snoc (hstep c)).snoc (hstep c.getUniqueClientID.1), ?_⟩
    rw [issued_concat, issued_concat, issuedIn, issuedIn, snd_getUniqueClientID, snd_getUniqueClientID,
      rawId_getUniqueClientID hsome, List.append_assoc]
    intro hnodup
    have htail := (List.nodup_append.mp hnodup).2.1
    simp at htail

def newServer : ServerInfo := { serverid := 1, clusterid := 1, hostname := ['h'], port := ['1'] }

/-- Two clients get their ids and ask for their servers. -/
def twoClients : List SNSCoordinator.Event :=
  [.heartbeat 0 newServer, .getUniqueClientID, .getServer 0, .getUniqueClientID, .getServer 1]

theorem clientIDs_unique_twoClients : ∃ c, twoClients.foldlM SNSCoordinator.handle (.init 1) = .ok c ∧
    (issued (Machine.history SNSCoordinator.handle (.init 1) twoClients)).Nodup := by
  obtain ⟨c, hc, hfree⟩ : ∃ c, twoClients.foldlM SNSCoordinator.handle (.init 1) = .ok c ∧
      ∀ x ∈ Machine.history SNSCoordinator.handle (.init 1) twoClients,
        (x.1.clientAssignments.find? x.1.rawId).isNone ∨
          (issuedIn x.1 x.2).isNone := by
    refine ⟨_, rfl, by decide +kernel⟩
  have hrun : (SNSCoordinator.machine 1).Run (.init 1) _ c := Machine.run_of_foldlM hc
  refine ⟨c, hc, ((clientIDs_unique hrun).1 ?_).1⟩
  rintro x hx he
  rcases hfree x hx with hnone | hnone
  · exact Option.isNone_iff_eq_none.mp hnone
  · rw [he] at hnone
    cases hnone

/-- After a restart a client comes back with its old id 1 and is assigned to the server. -/
def oldClient : List SNSCoordinator.Event :=
  [.heartbeat 0 newServer, .getServer 1, .getUniqueClientID, .getUniqueClientID]

/-- Then id 1 is issued twice, and its assignment is reset. -/
theorem clientIDs_repeated : ∃ c, oldClient.foldlM SNSCoordinator.handle (.init 1) = .ok c ∧
    issued (Machine.history SNSCoordinator.handle (.init 1) oldClient) = [1, 1] ∧
    ∃ c₁, (oldClient.take 2).foldlM SNSCoordinator.handle (.init 1) = .ok c₁ ∧
      c₁.clientAssignments.find? 1 = some (some { clusterIdx := 0, serverId := 1 }) ∧
      c₁.getUniqueClientID.1.clientAssignments.find? 1 = some none :=
  ⟨_, rfl, by decide +kernel, _, rfl, by decide +kernel, by decide +kernel⟩

end DistributedSns.Coordinator
