import Mathlib

/-!
# Ordered finite maps

A finite map kept as an association list with strictly increasing keys, so that iterating over it visits
the keys in order. The laws of `lookup` hold for the bare lists; the order is only needed to read an entry
of the list back as a lookup.
-/

namespace DistributedSns.Lib

variable {κ α : Type*} [LinearOrder κ]

/-! ## Association lists -/

namespace Assoc

/-- Adds the entry `(k, a)` in key order and replaces the value of a key which is already there. -/
def insert (k : κ) (a : α) : List (κ × α) → List (κ × α)
  | [] => [(k, a)]
  | (k', a') :: m =>
    if k < k' then (k, a) :: (k', a') :: m
    else if k = k' then (k, a) :: m
    else (k', a') :: insert k a m

/-- Drops every entry of the key `k`. -/
def erase (k : κ) (m : List (κ × α)) : List (κ × α) :=
  m.filter (fun e => e.1 ≠ k)

/-- The keys are strictly increasing. -/
def Sorted (m : List (κ × α)) : Prop :=
  m.Pairwise (fun e e' => e.1 < e'.1)

variable [BEq κ] [LawfulBEq κ]

@[simp] theorem lookup_insert_self (k : κ) (a : α) (m : List (κ × α)) :
    (insert k a m).lookup k = some a := by
  induction m with
  | nil => simp [insert]
  | cons e m ih =>
      obtain ⟨k', a'⟩ := e
      rw [insert]
      split_ifs with hlt heq
      · simp
      · simp
      · rw [List.lookup_cons, beq_false_of_ne heq]
        exact ih

theorem lookup_insert_of_ne {k k' : κ} (h : k' ≠ k) (a : α) (m : List (κ × α)) :
    (insert k a m).lookup k' = m.lookup k' := by
  induction m with
  | nil => simp [insert, h]
  | cons e m ih =>
      obtain ⟨k₁, a₁⟩ := e
      rw [insert]
      split_ifs with hlt heq
      · rw [List.lookup_cons, beq_false_of_ne h]
      · subst heq
        rw [List.lookup_cons, List.lookup_cons, beq_false_of_ne h]
      · rw [List.lookup_cons, List.lookup_cons, ih]

@[simp] theorem lookup_erase_self (k : κ) (m : List (κ × α)) : (erase k m).lookup k = none := by
  simp only [List.lookup_eq_none_iff, bne_iff_ne]
  intro e he
  have hne := (List.mem_filter.mp he).2
  exact fun h => by simp [h] at hne

theorem lookup_erase_of_ne {k k' : κ} (h : k' ≠ k) (m : List (κ × α)) :
    (erase k m).lookup k' = m.lookup k' := by
  induction m with
  | nil => rfl
  | cons e m ih =>
      obtain ⟨k₁, a₁⟩ := e
      by_cases hk : k₁ = k
      · subst hk
        have : erase k₁ ((k₁, a₁) :: m) = erase k₁ m := by simp [erase]
        rw [this, ih, List.lookup_cons, beq_false_of_ne h]
      · have : erase k ((k₁, a₁) :: m) = (k₁, a₁) :: erase k m := by simp [erase, hk]
        rw [this, List.lookup_cons, List.lookup_cons, ih]

omit [BEq κ] [LawfulBEq κ] in
/-- The later of two insertions at a key counts. -/
@[simp] theorem insert_insert (k : κ) (a b : α) (m : List (κ × α)) :
    insert k b (insert k a m) = insert k b m := by
  induction m with
  | nil => simp [insert]
  | cons e m ih =>
      obtain ⟨k', a'⟩ := e
      by_cases hlt : k < k'
      · simp [insert, hlt]
      · by_cases heq : k = k'
        · simp [insert, heq]
        · simp [insert, hlt, heq, ih]

omit [BEq κ] [LawfulBEq κ] in
theorem mem_insert {k : κ} {a : α} {m : List (κ × α)} {e : κ × α} (h : e ∈ insert k a m) :
    e = (k, a) ∨ e ∈ m := by
  induction m with
  | nil => simpa [insert] using h
  | cons e' m ih =>
      obtain ⟨k', a'⟩ := e'
      rw [insert] at h
      split_ifs at h with hlt heq
      · simpa using h
      · rcases List.mem_cons.mp h with h | h
        · exact Or.inl h
        · exact Or.inr (List.mem_cons_of_mem _ h)
      · rcases List.mem_cons.mp h with h | h
        · exact Or.inr (h ▸ List.mem_cons_self)
        · exact (ih h).imp_right (List.mem_cons_of_mem _)

omit [BEq κ] [LawfulBEq κ] in
theorem Sorted.insert {m : List (κ × α)} (h : Sorted m) (k : κ) (a : α) :
    Sorted (Assoc.insert k a m) := by
  induction m with
  | nil => exact List.pairwise_singleton _ _
  | cons e m ih =>
      obtain ⟨k', a'⟩ := e
      obtain ⟨hhead, htail⟩ := List.pairwise_cons.mp h
      rw [Assoc.insert]
      split_ifs with hlt heq
      · refine List.pairwise_cons.mpr ⟨fun e he => ?_, h⟩
        rcases List.mem_cons.mp he with rfl | he
        · exact hlt
        · exact hlt.trans (hhead e he)
      · subst heq
        exact List.pairwise_cons.mpr ⟨hhead, htail⟩
      · refine List.pairwise_cons.mpr ⟨fun e he => ?_, ih htail⟩
        rcases mem_insert he with rfl | he
        · exact lt_of_le_of_ne (not_lt.mp hlt) (Ne.symm heq)
        · exact hhead e he

omit [BEq κ] [LawfulBEq κ] in
theorem Sorted.erase {m : List (κ × α)} (h : Sorted m) (k : κ) : Sorted (Assoc.erase k m) :=
  h.sublist List.filter_sublist

theorem mem_of_lookup {m : List (κ × α)} {k : κ} {a : α} (h : m.lookup k = some a) : (k, a) ∈ m := by
  induction m with
  | nil => cases h
  | cons e m ih =>
      obtain ⟨k', a'⟩ := e
      rw [List.lookup_cons] at h
      by_cases hk : k = k'
      · subst hk
        rw [beq_self_eq_true] at h
        cases h
        exact List.mem_cons_self
      · rw [beq_false_of_ne hk] at h
        exact List.mem_cons_of_mem _ (ih h)

theorem length_insert_of_isSome {m : List (κ × α)} (h : Sorted m) {k : κ} (hk : (m.lookup k).isSome) (a : α) :
    (insert k a m).length = m.length := by
  induction m with
  | nil => cases hk
  | cons e m ih =>
      obtain ⟨k', a'⟩ := e
      obtain ⟨hhead, htail⟩ := List.pairwise_cons.mp h
      rw [insert]
      split_ifs with hlt heq
      · obtain ⟨b, hb⟩ := Option.isSome_iff_exists.mp hk
        rcases List.mem_cons.mp (mem_of_lookup hb) with he | he
        · cases he
          exact absurd hlt (lt_irrefl _)
        · exact absurd (hlt.trans (hhead _ he)) (lt_irrefl _)
      · rfl
      · rw [List.lookup_cons, beq_false_of_ne heq] at hk
        rw [List.length_cons, List.length_cons, ih htail hk]

theorem length_insert_of_none {m : List (κ × α)} {k : κ} (h : m.lookup k = none) (a : α) :
    (insert k a m).length = m.length + 1 := by
  induction m with
  | nil => rfl
  | cons e m ih =>
      obtain ⟨k', a'⟩ := e
      have hne : k ≠ k' := by
        rintro rfl
        simp at h
      rw [List.lookup_cons, beq_false_of_ne hne] at h
      rw [insert, if_neg hne]
      split_ifs
      · rfl
      · rw [List.length_cons, ih h, List.length_cons]

theorem erase_of_none {m : List (κ × α)} {k : κ} (h : m.lookup k = none) : erase k m = m := by
  rw [List.lookup_eq_none_iff] at h
  refine List.filter_eq_self.mpr fun e he => ?_
  exact decide_eq_true (bne_iff_ne.mp (h e he)).symm

theorem length_erase_of_some {m : List (κ × α)} (h : Sorted m) {k : κ} {a : α} (hk : m.lookup k = some a) :
    (erase k m).length + 1 = m.length := by
  induction m with
  | nil => cases hk
  | cons e m ih =>
      obtain ⟨k', a'⟩ := e
      obtain ⟨hhead, htail⟩ := List.pairwise_cons.mp h
      by_cases heq : k = k'
      · subst heq
        have hnone : m.lookup k = none := by
          rw [List.lookup_eq_none_iff]
          intro e he
          simpa using (hhead e he).ne
        have hdrop : erase k ((k, a') :: m) = erase k m := by simp [erase]
        rw [hdrop, erase_of_none hnone, List.length_cons]
      · have hkeep : erase k ((k', a') :: m) = (k', a') :: erase k m := by simp [erase, Ne.symm heq]
        rw [List.lookup_cons, beq_false_of_ne heq] at hk
        rw [hkeep, List.length_cons, List.length_cons, ih htail hk]

/-- Writing back what is there changes nothing. -/
theorem insert_of_lookup {m : List (κ × α)} (h : Sorted m) {k : κ} {a : α} (hk : m.lookup k = some a) :
    insert k a m = m := by
  induction m with
  | nil => cases hk
  | cons e m ih =>
      obtain ⟨k', a'⟩ := e
      obtain ⟨hhead, htail⟩ := List.pairwise_cons.mp h
      rw [List.lookup_cons] at hk
      rw [insert]
      by_cases heq : k = k'
      · subst heq
        rw [beq_self_eq_true] at hk
        cases hk
        rw [if_neg (lt_irrefl k), if_pos rfl]
      · rw [beq_false_of_ne heq] at hk
        have hlt := hhead _ (mem_of_lookup hk)
        rw [if_neg hlt.not_gt, if_neg heq, ih htail hk]

theorem lookup_eq_some_iff_mem {m : List (κ × α)} (h : Sorted m) {k : κ} {a : α} :
    m.lookup k = some a ↔ (k, a) ∈ m := by
  induction m with
  | nil => simp
  | cons e m ih =>
      obtain ⟨k', a'⟩ := e
      obtain ⟨hhead, htail⟩ := List.pairwise_cons.mp h
      rw [List.lookup_cons]
      by_cases hk : k = k'
      · subst hk
        have hnot : (k, a) ∉ m := fun hm => lt_irrefl k (hhead (k, a) hm)
        simp [hnot, eq_comm]
      · rw [beq_false_of_ne hk]
        simp [hk, ih htail]

/-- Two maps are the same if they have the same entries. -/
theorem Sorted.ext {m m' : List (κ × α)} (h : Sorted m) (h' : Sorted m') (heq : ∀ k, m.lookup k = m'.lookup k) :
    m = m' := by
  have hmem (e : κ × α) : e ∈ m ↔ e ∈ m' := by
    rw [← lookup_eq_some_iff_mem h, ← lookup_eq_some_iff_mem h', heq]
  have hnodup {l : List (κ × α)} (hl : Sorted l) : l.Nodup := by
    refine List.Pairwise.imp ?_ hl
    rintro e _ hlt rfl
    exact lt_irrefl _ hlt
  have hperm : m.Perm m' := (List.perm_ext_iff_of_nodup (hnodup h) (hnodup h')).mpr hmem
  exact hperm.eq_of_pairwise (fun _ _ _ _ hab hba => absurd hab hba.asymm) h h'

omit [LinearOrder κ] [LawfulBEq κ] in
theorem lookup_map {β : Type*} (f : α → β) (m : List (κ × α)) (k : κ) :
    (m.map fun e => (e.1, f e.2)).lookup k = (m.lookup k).map f := by
  induction m with
  | nil => rfl
  | cons e m ih =>
      obtain ⟨k', a⟩ := e
      rw [List.map_cons, List.lookup_cons, List.lookup_cons, ih]
      cases k == k' <;> rfl

/-- Two maps have the same values after `f`, in the same order, if they have at every key. -/
theorem Sorted.map_ext {β : Type*} {m m' : List (κ × α)} (h : Sorted m) (h' : Sorted m') {f : α → β}
    (heq : ∀ k, (m.lookup k).map f = (m'.lookup k).map f) : m.map (fun e => f e.2) = m'.map (fun e => f e.2) := by
  have hsorted {l : List (κ × α)} (hl : Sorted l) : Sorted (l.map fun e => (e.1, f e.2)) :=
    List.pairwise_map.mpr hl
  have hentries := (hsorted h).ext (hsorted h') fun k => by rw [lookup_map, lookup_map, heq]
  simpa only [List.map_map, Function.comp_def] using congrArg (List.map Prod.snd) hentries

end Assoc

/-! ## The map type -/

/-- A finite map whose entries are listed in the order of their keys. -/
structure OrdMap (κ α : Type*) [LinearOrder κ] where
  entries : List (κ × α)
  sorted : Assoc.Sorted entries

namespace OrdMap

def empty : OrdMap κ α := ⟨[], List.Pairwise.nil⟩

instance : Inhabited (OrdMap κ α) := ⟨empty⟩

def find? (m : OrdMap κ α) (k : κ) : Option α := m.entries.lookup k

def insert (m : OrdMap κ α) (k : κ) (a : α) : OrdMap κ α :=
  ⟨Assoc.insert k a m.entries, m.sorted.insert k a⟩

def size (m : OrdMap κ α) : Nat := m.entries.length

@[simp] theorem find?_empty (k : κ) : (empty : OrdMap κ α).find? k = none := rfl

@[simp] theorem find?_insert_self (m : OrdMap κ α) (k : κ) (a : α) :
    (m.insert k a).find? k = some a :=
  Assoc.lookup_insert_self k a m.entries

theorem find?_insert_of_ne (m : OrdMap κ α) {k k' : κ} (h : k' ≠ k) (a : α) :
    (m.insert k a).find? k' = m.find? k' :=
  Assoc.lookup_insert_of_ne h a m.entries

theorem find?_insert (m : OrdMap κ α) (k k' : κ) (a : α) :
    (m.insert k a).find? k' = if k' = k then some a else m.find? k' := by
  split_ifs with h
  · rw [h, find?_insert_self]
  · exact m.find?_insert_of_ne h a

theorem isSome_find?_insert {m : OrdMap κ α} {k k' : κ} (h : (m.find? k').isSome) (a : α) :
    ((m.insert k a).find? k').isSome := by
  rw [find?_insert]
  split_ifs
  · rfl
  · exact h

/-- A value at a key which is there already does not add an entry. -/
theorem size_insert_of_isSome {m : OrdMap κ α} {k : κ} (h : (m.find? k).isSome) (a : α) :
    (m.insert k a).size = m.size :=
  Assoc.length_insert_of_isSome m.sorted h a

theorem mem_entries_iff {m : OrdMap κ α} {k : κ} {a : α} :
    (k, a) ∈ m.entries ↔ m.find? k = some a :=
  (Assoc.lookup_eq_some_iff_mem m.sorted).symm

end OrdMap

end DistributedSns.Lib
