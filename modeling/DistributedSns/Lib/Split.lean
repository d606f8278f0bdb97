import Mathlib

/-!
# Splitting a list at a delimiter

The delimiter is a list. Its occurrences are taken from left to right, and the search goes on behind the
occurrence found before, so that no two of them overlap.
-/

namespace DistributedSns.Lib

variable {α : Type*} {d s a b : List α} {ps qs : List (List α)}

/-- `ps` are the parts of the list before, between and behind the occurrences of `d`. -/
inductive Splits (d : List α) : List α → List (List α) → Prop
  | last {s : List α} (h : ¬ d <:+: s) : Splits d s [s]
  | cons {a s : List α} {ps : List (List α)} (h : ¬ d <:+: (a ++ d).dropLast) (hs : Splits d s ps) :
      Splits d (a ++ d ++ s) (a :: ps)

/-! ## The leftmost occurrence -/

theorem dropLast_append_delim (hd : d ≠ []) : (a ++ d).dropLast = a ++ d.dropLast :=
  List.dropLast_append_of_ne_nil hd

/-- The delimiter does not occur in a part of itself. -/
theorem not_infix_dropLast (hd : d ≠ []) : ¬ d <:+: ([] ++ d).dropLast := by
  intro hin
  have hle := hin.length_le
  have hpos := List.length_pos_iff.mpr hd
  rw [List.nil_append, List.length_dropLast] at hle
  omega

theorem dropLast_prefix_append (a d t : List α) : a ++ d.dropLast <+: a ++ d ++ t := by
  rw [List.append_assoc]
  exact (List.prefix_append_right_inj a).mpr ((List.dropLast_prefix d).trans (List.prefix_append d t))

theorem exists_leftmost (hd : d ≠ []) (h : d <:+: s) :
    ∃ a t, s = a ++ d ++ t ∧ ¬ d <:+: (a ++ d).dropLast := by
  induction s with
  | nil => exact absurd (List.infix_nil.mp h) hd
  | cons x s ih =>
      by_cases hp : d <+: x :: s
      · obtain ⟨t, ht⟩ := hp
        exact ⟨[], t, ht.symm, not_infix_dropLast hd⟩
      · obtain ⟨a, t, rfl, hnot⟩ := ih ((List.infix_cons_iff.mp h).resolve_left hp)
        refine ⟨x :: a, t, rfl, ?_⟩
        rw [dropLast_append_delim hd] at hnot ⊢
        intro hin
        rcases List.infix_cons_iff.mp hin with hpre | hin
        · exact hp (hpre.trans ((List.prefix_cons_inj x).mpr (dropLast_prefix_append a d t)))
        · exact hnot hin

theorem not_shorter {t u : List α} (ha : ¬ d <:+: (b ++ d).dropLast) (heq : a ++ d ++ t = b ++ d ++ u) :
    b.length ≤ a.length := by
  by_contra hlt
  have hpre : a ++ d <+: (b ++ d).dropLast := by
    refine List.prefix_of_prefix_length_le (List.prefix_append _ t)
      (heq ▸ (List.dropLast_prefix _).trans (List.prefix_append _ u)) ?_
    simp only [List.length_append, List.length_dropLast]
    omega
  exact ha ((List.suffix_append a d).isInfix.trans hpre.isInfix)

/-- Two occurrences which are both leftmost are one. -/
theorem leftmost_unique {t u : List α} (ha : ¬ d <:+: (a ++ d).dropLast) (hb : ¬ d <:+: (b ++ d).dropLast)
    (heq : a ++ d ++ t = b ++ d ++ u) : a = b ∧ t = u := by
  have hlen : a.length = b.length := le_antisymm (not_shorter ha heq.symm) (not_shorter hb heq)
  rw [List.append_assoc, List.append_assoc] at heq
  obtain ⟨hab, hrest⟩ := List.append_inj heq hlen
  exact ⟨hab, List.append_cancel_left hrest⟩

/-! ## The split -/

theorem exists_splits (hd : d ≠ []) (s : List α) : ∃ ps, Splits d s ps := by
  induction hn : s.length using Nat.strong_induction_on generalizing s with
  | _ n ih =>
      by_cases h : d <:+: s
      · obtain ⟨a, t, rfl, hnot⟩ := exists_leftmost hd h
        have hpos := List.length_pos_iff.mpr hd
        simp only [List.length_append] at hn
        obtain ⟨ps, hps⟩ := ih t.length (by omega) t rfl
        exact ⟨a :: ps, .cons hnot hps⟩
      · exact ⟨[s], .last h⟩

/-- No part contains the delimiter. -/
theorem Splits.not_infix (h : Splits d s ps) (hd : d ≠ []) : ∀ p ∈ ps, ¬ d <:+: p := by
  induction h with
  | last h => simpa using h
  | @cons a s ps h _ ih =>
      intro p hp
      rcases List.mem_cons.mp hp with rfl | hp
      · rw [dropLast_append_delim hd] at h
        exact fun hin => h (hin.trans (List.prefix_append _ _).isInfix)
      · exact ih p hp

theorem Splits.unique (h : Splits d s ps) (h' : Splits d s qs) : ps = qs := by
  induction h generalizing qs with
  | last hnot =>
      cases h' with
      | last => rfl
      | @cons a s qs =>
          exact absurd ((List.suffix_append a d).isInfix.trans (List.prefix_append _ s).isInfix) hnot
  | @cons a s ps hleft _ ih =>
      generalize heq : a ++ d ++ s = t at h'
      cases h' with
      | last hnot =>
          subst heq
          exact absurd ((List.suffix_append a d).isInfix.trans (List.prefix_append _ s).isInfix) hnot
      | @cons b t qs hleft' ht =>
          obtain ⟨rfl, rfl⟩ := leftmost_unique hleft hleft' heq
          rw [ih ht]

/-! ## Runs of one element -/

section

variable [DecidableEq α] {c : α} {m : Nat}

/-- The runs of `c`, also the empty ones at the ends and between other elements. -/
def runs (c : α) (s : List α) : List (List α) := s.splitOnP (· != c)

@[simp] theorem runs_nil (c : α) : runs c [] = [[]] := by simp [runs]

theorem runs_cons_self (c : α) (s : List α) : runs c (c :: s) = (runs c s).modifyHead (c :: ·) := by
  simp [runs, List.splitOnP_cons_eq_if_modifyHead]

theorem runs_cons_of_ne {x : α} (h : x ≠ c) (s : List α) : runs c (x :: s) = [] :: runs c s := by
  simp [runs, List.splitOnP_cons_eq_if_modifyHead, h]

theorem runs_append_of_ne {x : α} (h : x ≠ c) (s t : List α) : runs c (s ++ x :: t) = runs c s ++ runs c t :=
  List.splitOnP_append_cons s t (by simpa using h)

theorem runs_ne_nil (c : α) (s : List α) : runs c s ≠ [] := List.splitOnP_ne_nil _ s

theorem runs_replicate_append (c : α) (m : Nat) (s : List α) :
    runs c (List.replicate m c ++ s) = (runs c s).modifyHead (List.replicate m c ++ ·) := by
  induction m with
  | zero =>
      obtain ⟨r, rs, hr⟩ := List.exists_cons_of_ne_nil (runs_ne_nil c s)
      simp [hr]
  | succ m ih => rw [List.replicate_succ, List.cons_append, runs_cons_self, ih, List.modifyHead_modifyHead]; rfl

/-- The first run is what the list begins with. -/
theorem replicate_prefix_iff {r : List α} {rs : List (List α)} (h : runs c s = r :: rs) :
    List.replicate m c <+: s ↔ m ≤ r.length := by
  induction s generalizing m r with
  | nil =>
      obtain ⟨rfl, rfl⟩ : [] = r ∧ [] = rs := by simpa using h
      simp
  | cons x s ih =>
      by_cases hx : x = c
      · subst hx
        obtain ⟨r', rs', hr⟩ := List.exists_cons_of_ne_nil (runs_ne_nil x s)
        rw [runs_cons_self, hr, List.modifyHead_cons] at h
        obtain ⟨rfl, rfl⟩ := List.cons.inj h
        cases m with
        | zero => simp
        | succ m => simp [List.replicate_succ, ih hr]
      · rw [runs_cons_of_ne hx] at h
        obtain ⟨rfl, rfl⟩ := List.cons.inj h
        cases m with
        | zero => simp
        | succ m => simp [List.replicate_succ, Ne.symm hx]

theorem replicate_infix_iff : List.replicate m c <:+: s ↔ ∃ r ∈ runs c s, m ≤ r.length := by
  induction s with
  | nil => simp
  | cons x s ih =>
      rw [List.infix_cons_iff, ih]
      by_cases hx : x = c
      · subst hx
        obtain ⟨r, rs, hr⟩ := List.exists_cons_of_ne_nil (runs_ne_nil x s)
        have hcons : runs x (x :: s) = (x :: r) :: rs := by rw [runs_cons_self, hr, List.modifyHead_cons]
        rw [replicate_prefix_iff hcons, hcons, hr]
        simp only [List.mem_cons, exists_eq_or_imp, List.length_cons]
        refine ⟨?_, ?_⟩
        · rintro (h | h | h)
          · exact Or.inl h
          · exact Or.inl (by omega)
          · exact Or.inr h
        · rintro (h | h)
          · exact Or.inl h
          · exact Or.inr (Or.inr h)
      · rw [replicate_prefix_iff (runs_cons_of_ne hx s), runs_cons_of_ne hx]
        simp only [List.mem_cons, exists_eq_or_imp]

end

end DistributedSns.Lib
