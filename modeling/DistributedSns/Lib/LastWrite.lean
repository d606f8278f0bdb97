import Mathlib

/-!
# Stores written by events

A store maps keys to values, and an event writes at most one key. After a list of events a key holds what the
last event on it wrote, so two stores which start equal agree on it again if and only if the last writes agree.
-/

namespace DistributedSns.Lib

variable {κ β ε : Type*} [DecidableEq κ] (w : ε → Option (κ × β))

/-- What an event writes to a key. -/
def writeTo (k : κ) (e : ε) : Option β :=
  (w e).bind fun x => if x.1 = k then some x.2 else none

def update (f : κ → β) (e : ε) : κ → β := fun k => (writeTo w k e).getD (f k)

def lastWrite (k : κ) (l : List ε) : Option β := (l.filterMap (writeTo w k)).getLast?

/-! ## One event -/

theorem update_of_none {e : ε} (h : w e = none) (f : κ → β) : update w f e = f := by
  funext k
  simp [update, writeTo, h]

theorem update_of_some {e : ε} {k : κ} {v : β} (h : w e = some (k, v)) (f : κ → β) :
    update w f e = Function.update f k v := by
  funext k'
  by_cases hk : k' = k
  · simp [update, writeTo, h, hk]
  · simp [update, writeTo, h, hk, Ne.symm hk]

theorem update_congr {e e' : ε} (h : w e = w e') (f : κ → β) : update w f e = update w f e' := by
  funext k
  simp only [update, writeTo, h]

/-- The same event a second time writes nothing new. -/
@[simp] theorem update_update (f : κ → β) (e : ε) : update w (update w f e) e = update w f e := by
  funext k
  simp only [update]
  cases writeTo w k e <;> rfl

/-! ## Lists of events -/

@[simp] theorem lastWrite_nil (k : κ) : lastWrite w k [] = none := rfl

theorem lastWrite_concat (k : κ) (l : List ε) (e : ε) :
    lastWrite w k (l ++ [e]) = (writeTo w k e).or (lastWrite w k l) := by
  rw [lastWrite, List.filterMap_append]
  cases h : writeTo w k e with
  | none => simp [h, lastWrite]
  | some v => simp [h]

theorem foldl_update (f : κ → β) (l : List ε) (k : κ) :
    l.foldl (update w) f k = (lastWrite w k l).getD (f k) := by
  induction l using List.reverseRecOn with
  | nil => rfl
  | append_singleton l e ih =>
      rw [List.foldl_concat, lastWrite_concat, update, ih]
      cases writeTo w k e <;> rfl

theorem lastWrite_isSome {k : κ} {l : List ε} :
    (lastWrite w k l).isSome ↔ ∃ e ∈ l, (writeTo w k e).isSome := by
  rw [← Option.ne_none_iff_isSome, lastWrite, ne_eq, List.getLast?_eq_none_iff, List.filterMap_eq_nil_iff]
  simp [← Option.ne_none_iff_isSome]

/-- Whether a key is written at all does not depend on the order of the events. -/
theorem lastWrite_isSome_perm {k : κ} {l l' : List ε} (h : l.Perm l') :
    (lastWrite w k l).isSome = (lastWrite w k l').isSome := by
  rw [Bool.eq_iff_iff, lastWrite_isSome, lastWrite_isSome]
  simp only [h.mem_iff]

theorem exists_of_lastWrite {k : κ} {l : List ε} {v : β} (h : lastWrite w k l = some v) :
    ∃ e ∈ l, writeTo w k e = some v :=
  List.mem_filterMap.mp (List.mem_of_getLast? h)

/-- After the same events in two orders a key holds the same value if and only if the last writes agree. -/
theorem foldl_update_eq_iff (f : κ → β) {l l' : List ε} (h : l.Perm l') (k : κ) :
    l.foldl (update w) f k = l'.foldl (update w) f k ↔ lastWrite w k l = lastWrite w k l' := by
  have hsome := lastWrite_isSome_perm w (k := k) h
  rw [foldl_update, foldl_update]
  cases hl : lastWrite w k l with
  | none =>
      rw [hl] at hsome
      cases hl' : lastWrite w k l' with
      | none => simp
      | some v' => rw [hl'] at hsome; cases hsome
  | some v =>
      rw [hl] at hsome
      cases hl' : lastWrite w k l' with
      | none => rw [hl'] at hsome; cases hsome
      | some v' => simp

end DistributedSns.Lib
