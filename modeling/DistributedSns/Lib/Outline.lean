import Mathlib

/-!
# Outlines of labelled trees

An outline has one line for every node. The lines of a child stand below that of its parent behind a marker: one for
its first line, which also tells the last child from the others, and one for the lines below the child.
-/

namespace DistributedSns.Lib

inductive Outline (α : Type*) where
  | node (label : List α) (children : List (Outline α))

namespace Outline

variable {α : Type*}

structure Markers (α : Type*) where
  /-- before a child which is not the last one, and before the lines below it -/
  inner : List α
  through : List α
  /-- before the last child, and before the lines below it -/
  last : List α
  blank : List α

/-- Markers of one width, which show where a child begins and whether it is the last one. -/
structure Markers.Distinct (m : Markers α) : Prop where
  through_length : m.through.length = m.inner.length
  last_length : m.last.length = m.inner.length
  blank_length : m.blank.length = m.inner.length
  inner_ne_last : m.inner ≠ m.last
  through_ne_inner : m.through ≠ m.inner
  through_ne_last : m.through ≠ m.last
  blank_ne_inner : m.blank ≠ m.inner
  blank_ne_last : m.blank ≠ m.last

/-- The lines of a child behind its markers. -/
def block (first rest : List α) : List (List α) → List (List α)
  | [] => []
  | line :: lines => (first ++ line) :: lines.map (rest ++ ·)

mutual
def lines (m : Markers α) : Outline α → List (List α)
  | .node label children => label :: linesBelow m children

def linesBelow (m : Markers α) : List (Outline α) → List (List α)
  | [] => []
  | [child] => block m.last m.blank (lines m child)
  | child :: next :: children =>
    block m.inner m.through (lines m child) ++ linesBelow m (next :: children)
end

/-! ## Lines which begin a child -/

section

variable {m : Markers α} {line first rest : List α} {ls ls' xs ys : List (List α)}

/-- The line is the first one of a child. -/
def Begins (m : Markers α) (line : List α) : Prop := m.inner <+: line ∨ m.last <+: line

theorem not_begins {marker : List α} (h : m.Distinct) (hlen : marker.length = m.inner.length)
    (hinner : marker ≠ m.inner) (hlast : marker ≠ m.last) (line : List α) : ¬ Begins m (marker ++ line) := by
  rintro (hp | hp)
  · have := List.prefix_of_prefix_length_le hp (List.prefix_append marker line) hlen.ge
    exact hinner (this.eq_of_length hlen.symm).symm
  · have hle : m.last.length = marker.length := h.last_length.trans hlen.symm
    have := List.prefix_of_prefix_length_le hp (List.prefix_append marker line) hle.le
    exact hlast (this.eq_of_length hle).symm

/-- Nothing, or lines of which the first begins a child. -/
def StartsChild (m : Markers α) : List (List α) → Prop
  | [] => True
  | line :: _ => Begins m line

theorem linesBelow_startsChild (m : Markers α) : (children : List (Outline α)) → StartsChild m (linesBelow m children)
  | [] => trivial
  | [.node label _] => Or.inr (List.prefix_append m.last label)
  | .node label _ :: _ :: _ => Or.inl (List.prefix_append m.inner label)

/-- The lines below a child end where the next one begins. -/
theorem append_inj_of_startsChild (hls : ∀ line ∈ ls, ¬ Begins m line) (hls' : ∀ line ∈ ls', ¬ Begins m line)
    (hx : StartsChild m xs) (hy : StartsChild m ys) (h : ls ++ xs = ls' ++ ys) : ls = ls' ∧ xs = ys := by
  induction ls generalizing ls' with
  | nil =>
      cases ls' with
      | nil => exact ⟨rfl, h⟩
      | cons line ls' =>
          rw [List.nil_append] at h
          rw [h] at hx
          exact absurd hx (hls' line List.mem_cons_self)
  | cons line ls ih =>
      cases ls' with
      | nil =>
          rw [List.nil_append] at h
          rw [← h] at hy
          exact absurd hy (hls line List.mem_cons_self)
      | cons line' ls' =>
          obtain ⟨hline, htail⟩ := List.cons.inj h
          obtain ⟨rfl, rfl⟩ := ih (fun l hl => hls l (List.mem_cons_of_mem _ hl))
            (fun l hl => hls' l (List.mem_cons_of_mem _ hl)) htail
          exact ⟨congrArg (· :: ls) hline, rfl⟩

theorem map_append_inj (h : ls.map (rest ++ ·) = ls'.map (rest ++ ·)) : ls = ls' :=
  List.map_injective_iff.mpr (fun _ _ => List.append_cancel_left) h

/-- A child's block is read back together with the lines behind it. -/
theorem block_append_inj (hrest : ∀ line, ¬ Begins m (rest ++ line)) (hx : StartsChild m xs) (hy : StartsChild m ys)
    {l l' : List α} (h : block first rest (l :: ls) ++ xs = block first rest (l' :: ls') ++ ys) :
    l :: ls = l' :: ls' ∧ xs = ys := by
  obtain ⟨hl, htail⟩ := List.cons.inj h
  have hbelow {ks : List (List α)} : ∀ line ∈ ks.map (rest ++ ·), ¬ Begins m line := by
    intro line hline
    obtain ⟨k, -, rfl⟩ := List.mem_map.mp hline
    exact hrest k
  obtain ⟨hls, rfl⟩ := append_inj_of_startsChild hbelow hbelow hx hy htail
  rw [List.append_cancel_left hl, map_append_inj hls]
  exact ⟨rfl, rfl⟩

end

/-! ## The outline read back -/

section

variable {m : Markers α}

theorem Markers.Distinct.through_not_begins (h : m.Distinct) (line : List α) : ¬ Begins m (m.through ++ line) :=
  not_begins h h.through_length h.through_ne_inner h.through_ne_last line

theorem Markers.Distinct.blank_not_begins (h : m.Distinct) (line : List α) : ¬ Begins m (m.blank ++ line) :=
  not_begins h h.blank_length h.blank_ne_inner h.blank_ne_last line

theorem lines_eq_cons (m : Markers α) (t : Outline α) : ∃ label ls, lines m t = label :: ls := by
  cases t with
  | node label children => exact ⟨label, linesBelow m children, rfl⟩

/-- An inner child's block is not a last child's block. -/
theorem inner_block_ne_last_block (h : m.Distinct) {t u : Outline α} {xs : List (List α)} :
    block m.inner m.through (lines m t) ++ xs ≠ block m.last m.blank (lines m u) := by
  obtain ⟨l, ls, ht⟩ := lines_eq_cons m t
  obtain ⟨l', ls', hu⟩ := lines_eq_cons m u
  rw [ht, hu]
  intro heq
  exact h.inner_ne_last (List.append_inj (List.cons.inj heq).1 h.last_length.symm).1

mutual
/-- A tree is read back from its outline. -/
theorem lines_injective (h : m.Distinct) : (t u : Outline α) → lines m t = lines m u → t = u
  | .node label children, .node label' children', heq => by
      obtain ⟨rfl, hbelow⟩ := List.cons.inj heq
      rw [linesBelow_injective h children children' hbelow]

theorem linesBelow_injective (h : m.Distinct) :
    (ts us : List (Outline α)) → linesBelow m ts = linesBelow m us → ts = us
  | [], [], _ => rfl
  | [], [.node _ _], heq => by cases heq
  | [], .node _ _ :: _ :: _, heq => by cases heq
  | [.node _ _], [], heq => by cases heq
  | .node _ _ :: _ :: _, [], heq => by cases heq
  | [t], [u], heq => by
      obtain ⟨l, ls, ht⟩ := lines_eq_cons m t
      obtain ⟨l', ls', hu⟩ := lines_eq_cons m u
      have hlines : lines m t = lines m u := by
        simp only [linesBelow, ht, hu] at heq ⊢
        have heq' : block m.last m.blank (l :: ls) ++ [] = block m.last m.blank (l' :: ls') ++ [] := by
          rw [heq]
        have hnone : StartsChild m [] := trivial
        exact (block_append_inj h.blank_not_begins hnone hnone heq').1
      rw [lines_injective h t u hlines]
  | t :: t' :: ts, [u], heq => absurd heq (inner_block_ne_last_block h)
  | [t], u :: u' :: us, heq => absurd heq.symm (inner_block_ne_last_block h)
  | t :: t' :: ts, u :: u' :: us, heq => by
      obtain ⟨l, ls, ht⟩ := lines_eq_cons m t
      obtain ⟨l', ls', hu⟩ := lines_eq_cons m u
      have hsplit : lines m t = lines m u ∧ linesBelow m (t' :: ts) = linesBelow m (u' :: us) := by
        simp only [linesBelow, ht, hu] at heq ⊢
        exact block_append_inj h.through_not_begins (linesBelow_startsChild m (t' :: ts))
          (linesBelow_startsChild m (u' :: us)) heq
      rw [lines_injective h t u hsplit.1, linesBelow_injective h (t' :: ts) (u' :: us) hsplit.2]
end

end

/-! ## Lines in a text -/

section

variable {m : Markers α} {c : α}

/-- `c` occurs in no label. -/
inductive Free (c : α) : Outline α → Prop
  | node {label : List α} {children : List (Outline α)} (label_free : c ∉ label)
      (below : ∀ child ∈ children, Free c child) : Free c (.node label children)

structure Markers.Free (m : Markers α) (c : α) : Prop where
  inner : c ∉ m.inner
  through : c ∉ m.through
  last : c ∉ m.last
  blank : c ∉ m.blank

theorem not_mem_block {first rest : List α} {ls : List (List α)} (hfirst : c ∉ first) (hrest : c ∉ rest)
    (h : ∀ line ∈ ls, c ∉ line) : ∀ line ∈ block first rest ls, c ∉ line := by
  cases ls with
  | nil => simp [block]
  | cons l ls =>
      have hl := h l List.mem_cons_self
      intro line hline
      rcases List.mem_cons.mp hline with rfl | hline
      · simp [hfirst, hl]
      · obtain ⟨k, hk, rfl⟩ := List.mem_map.mp hline
        simp [hrest, h k (List.mem_cons_of_mem _ hk)]

mutual
theorem not_mem_lines (hm : m.Free c) : (t : Outline α) → t.Free c → ∀ line ∈ lines m t, c ∉ line
  | .node label children, .node hlabel hbelow => by
      intro line hline
      rcases List.mem_cons.mp hline with rfl | hline
      · exact hlabel
      · exact not_mem_linesBelow hm children hbelow line hline

theorem not_mem_linesBelow (hm : m.Free c) :
    (ts : List (Outline α)) → (∀ t ∈ ts, t.Free c) → ∀ line ∈ linesBelow m ts, c ∉ line
  | [], _ => by simp [linesBelow]
  | [t], h => not_mem_block hm.last hm.blank (not_mem_lines hm t (h t List.mem_cons_self))
  | t :: t' :: ts, h => by
      intro line hline
      rcases List.mem_append.mp hline with hline | hline
      · exact not_mem_block hm.inner hm.through (not_mem_lines hm t (h t List.mem_cons_self)) line hline
      · exact not_mem_linesBelow hm (t' :: ts) (fun u hu => h u (List.mem_cons_of_mem _ hu)) line hline
end

/-- The lines are read back from the text in which each of them ends with `c`. -/
theorem lines_of_text [DecidableEq α] {ls ls' : List (List α)} (h : ∀ line ∈ ls, c ∉ line)
    (h' : ∀ line ∈ ls', c ∉ line) (heq : ls.flatMap (· ++ [c]) = ls'.flatMap (· ++ [c])) : ls = ls' := by
  have hsplit {ls : List (List α)} (h : ∀ line ∈ ls, c ∉ line) :
      (ls.flatMap (· ++ [c])).splitOn c = ls ++ [[]] := by
    induction ls with
    | nil => simp
    | cons line ls ih =>
        rw [List.flatMap_cons, List.append_assoc, List.singleton_append, List.splitOn_append_cons_self,
          List.splitOn_eq_singleton (h line List.mem_cons_self), ih fun l hl => h l (List.mem_cons_of_mem _ hl)]
        rfl
  have := hsplit h
  rw [heq, hsplit h'] at this
  exact (List.append_cancel_right this).symm

end

end Outline

end DistributedSns.Lib
