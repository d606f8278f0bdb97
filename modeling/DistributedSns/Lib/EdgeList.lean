import Mathlib

/-!
# Relations as lists of edges

A finite relation kept in the order in which its pairs were added. Seen from one of its points it is a list of
neighbours, and adding or erasing a pair is adding or erasing a neighbour at both of its ends.
-/

namespace DistributedSns.Lib

abbrev EdgeList (α : Type*) := List (α × α)

namespace EdgeList

variable {α : Type*} [DecidableEq α]

def successors (l : EdgeList α) (a : α) : List α := (l.filter (·.1 = a)).map (·.2)

def predecessors (l : EdgeList α) (b : α) : List α := (l.filter (·.2 = b)).map (·.1)

variable {l : EdgeList α} {a b x : α}

theorem mem_successors : b ∈ l.successors a ↔ (a, b) ∈ l := by simp [successors]

theorem mem_predecessors : a ∈ l.predecessors b ↔ (a, b) ∈ l := by simp [predecessors]

theorem successors_concat (l : EdgeList α) (a b x : α) :
    successors (l ++ [(a, b)]) x = if x = a then l.successors x ++ [b] else l.successors x := by
  by_cases hx : x = a
  · simp [successors, hx]
  · simp [successors, hx, Ne.symm hx]

/-! ## Erasing a pair -/

section

variable [BEq α] [LawfulBEq α]

theorem successors_erase (l : EdgeList α) (a b x : α) :
    successors (l.erase (a, b)) x = if x = a then (l.successors x).erase b else l.successors x := by
  induction l with
  | nil => simp [successors]
  | cons e l ih =>
      obtain ⟨c, d⟩ := e
      unfold successors at *
      by_cases he : (c, d) = (a, b)
      · obtain ⟨rfl, rfl⟩ := Prod.mk.inj he
        by_cases hx : x = c
        · simp [hx]
        · simp [hx, Ne.symm hx]
      · rw [List.erase_cons_tail (by simpa using he)]
        by_cases hc : c = x
        · subst hc
          simp only [List.filter_cons, decide_true, ↓reduceIte, List.map_cons, ih]
          split_ifs with ha
          · have hd : d ≠ b := fun hd => he (by rw [ha, hd])
            rw [List.erase_cons_tail (by simpa using hd)]
          · rfl
        · simpa [hc] using ih

end

/-! ## From the other end -/

theorem predecessors_eq (l : EdgeList α) (b : α) : l.predecessors b = successors (l.map Prod.swap) b := by
  simp [predecessors, successors, List.filter_map, Function.comp_def]

theorem predecessors_concat (l : EdgeList α) (a b x : α) :
    predecessors (l ++ [(a, b)]) x = if x = b then l.predecessors x ++ [a] else l.predecessors x := by
  rw [predecessors_eq, predecessors_eq, List.map_append]
  exact successors_concat (l.map Prod.swap) b a x

theorem predecessors_erase [BEq α] [LawfulBEq α] (l : EdgeList α) (a b x : α) :
    predecessors (l.erase (a, b)) x = if x = b then (l.predecessors x).erase a else l.predecessors x := by
  rw [predecessors_eq, predecessors_eq, List.map_erase Prod.swap_injective]
  exact successors_erase (l.map Prod.swap) b a x

end EdgeList

end DistributedSns.Lib
