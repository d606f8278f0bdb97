import Mathlib

/-!
# State machines and their runs

A run keeps its history: for every step the state the step was taken in and its label. So a statement
about runs can speak of what happened earlier, and a condition on the steps of a run is a condition on
the entries of its history.
-/

namespace DistributedSns.Lib

/-- The states a machine may start in, and its labelled steps. -/
structure Machine (σ ε : Type*) where
  init : σ → Prop
  step : σ → ε → σ → Prop

namespace Machine

variable {σ ε φ : Type*} {M : Machine σ ε}

/-- A run from `s₀` to the last index, with its history, oldest step first. -/
inductive Run (M : Machine σ ε) (s₀ : σ) : List (σ × ε) → σ → Prop
  | nil : Run M s₀ [] s₀
  | snoc {tr s e s'} : Run M s₀ tr s → M.step s e s' → Run M s₀ (tr ++ [(s, e)]) s'

def Reachable (M : Machine σ ε) (s : σ) : Prop :=
  ∃ s₀ tr, M.init s₀ ∧ M.Run s₀ tr s

theorem Reachable.init {s : σ} (h : M.init s) : M.Reachable s :=
  ⟨s, [], h, .nil⟩

theorem Reachable.step {s s' : σ} {e : ε} (h : M.Reachable s) (hs : M.step s e s') :
    M.Reachable s' := by
  obtain ⟨s₀, tr, h₀, hr⟩ := h
  exact ⟨s₀, tr ++ [(s, e)], h₀, hr.snoc hs⟩

/-! ## Invariants -/

/-- What every step meeting the condition `C` preserves holds at the end of a run whose steps all meet it. -/
theorem Run.invariant_of {P : σ → Prop} {C : σ → ε → Prop} {s₀ s : σ} {tr : List (σ × ε)}
    (h : M.Run s₀ tr s) (hC : ∀ x ∈ tr, C x.1 x.2) (h₀ : P s₀)
    (hstep : ∀ s e s', P s → C s e → M.step s e s' → P s') : P s := by
  induction h with
  | nil => exact h₀
  | snoc hr hs ih =>
      have hP := ih (fun x hx => hC x (List.mem_append_left _ hx))
      exact hstep _ _ _ hP (hC _ (List.mem_append_right _ List.mem_cons_self)) hs

theorem Run.invariant {P : σ → Prop} {s₀ s : σ} {tr : List (σ × ε)} (h : M.Run s₀ tr s) (h₀ : P s₀)
    (hstep : ∀ s e s', P s → M.step s e s' → P s') : P s :=
  h.invariant_of (C := fun _ _ => True) (fun _ _ => trivial) h₀ (fun s e s' hP _ => hstep s e s' hP)

theorem Reachable.invariant {P : σ → Prop} {s : σ} (h : M.Reachable s) (h₀ : ∀ s, M.init s → P s)
    (hstep : ∀ s e s', P s → M.step s e s' → P s') : P s := by
  obtain ⟨s₀, tr, hi, hr⟩ := h
  exact hr.invariant (h₀ s₀ hi) hstep

/-! ## What a history says last -/

/-- What the last step yields among those which yield anything. -/
def latest {α : Type*} (f : σ → ε → Option α) (tr : List (σ × ε)) : Option α :=
  (tr.filterMap fun x => f x.1 x.2).getLast?

section

variable {α : Type*} {f : σ → ε → Option α} {tr : List (σ × ε)}

@[simp] theorem latest_nil : latest f [] = none := rfl

theorem latest_concat (s : σ) (e : ε) : latest f (tr ++ [(s, e)]) = (f s e).or (latest f tr) := by
  rw [latest, List.filterMap_append]
  cases h : f s e with
  | none => simp [h, latest]
  | some a => simp [h]

theorem exists_of_latest {a : α} (h : latest f tr = some a) : ∃ x ∈ tr, f x.1 x.2 = some a :=
  List.mem_filterMap.mp (List.mem_of_getLast? h)

end

/-! ## Machines given by a function -/

/-- The machine of a step function that may fail; a failing event has no successor state. -/
def ofFun (init : σ → Prop) (f : σ → ε → Except φ σ) : Machine σ ε where
  init := init
  step s e s' := f s e = .ok s'

/-- Handling the elements of a list one after the other stays among the reachable states if each step does. -/
theorem Reachable.foldlM {α : Type*} {g : σ → α → Except φ σ}
    (hg : ∀ s a s', M.Reachable s → g s a = .ok s' → M.Reachable s') {l : List α} {s s' : σ}
    (h : M.Reachable s) (hl : l.foldlM g s = .ok s') : M.Reachable s' := by
  induction l generalizing s with
  | nil => cases hl; exact h
  | cons a l ih =>
      rw [List.foldlM_cons] at hl
      cases hs : g s a with
      | error x => rw [hs] at hl; cases hl
      | ok s₁ =>
          rw [hs] at hl
          exact ih (hg s a s₁ h hs) hl

theorem reachable_of_foldlM {init : σ → Prop} {f : σ → ε → Except φ σ} {s s' : σ} {l : List ε}
    (hi : init s) (h : l.foldlM f s = .ok s') : (ofFun init f).Reachable s' :=
  (Reachable.init (M := ofFun init f) hi).foldlM (fun _ _ _ hr hs => hr.step hs) h

/-- The states passed through while the events are handled in turn. -/
def history (f : σ → ε → Except φ σ) : σ → List ε → List (σ × ε)
  | _, [] => []
  | s, e :: es =>
    match f s e with
    | .ok s' => (s, e) :: history f s' es
    | .error _ => []

/-- The events of the history are among the handled ones. -/
theorem mem_of_history {f : σ → ε → Except φ σ} {s : σ} {l : List ε} {x : σ × ε} (h : x ∈ history f s l) :
    x.2 ∈ l := by
  induction l generalizing s with
  | nil => cases h
  | cons e l ih =>
      rw [history] at h
      split at h
      · rcases List.mem_cons.mp h with rfl | h
        · exact List.mem_cons_self
        · exact List.mem_cons_of_mem _ (ih h)
      · cases h

theorem Run.cons {s s' s'' : σ} {e : ε} {tr : List (σ × ε)} (hs : M.step s e s')
    (h : M.Run s' tr s'') : M.Run s ((s, e) :: tr) s'' := by
  induction h with
  | nil => exact Run.snoc .nil hs
  | snoc _ hs' ih => exact Run.snoc ih hs'

/-- Handling the events one after the other is a run. -/
theorem run_of_foldlM {init : σ → Prop} {f : σ → ε → Except φ σ} {s s' : σ} {l : List ε}
    (h : l.foldlM f s = .ok s') : (ofFun init f).Run s (history f s l) s' := by
  induction l generalizing s with
  | nil => cases h; exact .nil
  | cons e l ih =>
      rw [List.foldlM_cons] at h
      cases hf : f s e with
      | error x => rw [hf] at h; cases h
      | ok s₁ =>
          rw [hf] at h
          have htail := ih (s := s₁) h
          simpa only [history, hf] using Run.cons (M := ofFun init f) hf htail

end Machine

end DistributedSns.Lib
