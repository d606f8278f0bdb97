import DistributedSns.FSWrapper.Lemmas.Split
import DistributedSns.Lib.Split

/-!
# `splitString` and `splitFilepath`

The scan of `splitString` goes on one character behind the start of a match. It therefore treats every character
at which the delimiter occurs as a separator, also where the occurrence overlaps the one before.
-/

namespace DistributedSns.FSWrapper

open Lib

/-! ## What the scan finds -/

theorem findFrom_of_absent {d s : Str} (h : ¬ d <:+: s) : findFrom d s 0 = none := by
  induction s with
  | nil =>
      have hd : d ≠ [] := by
        rintro rfl
        exact h List.nil_infix
      simp [findFrom, hd]
  | cons x s ih =>
      rw [List.infix_cons_iff, not_or] at h
      have hp : d.isPrefixOf (x :: s) = false := by
        rw [← Bool.not_eq_true, List.isPrefixOf_iff_prefix]
        exact h.1
      simp [findFrom, findFrom_add d s 1, hp, ih h.2]

theorem findFrom_leftmost {d a : Str} (hd : d ≠ []) (h : ¬ d <:+: (a ++ d).dropLast) (s : Str) :
    findFrom d (a ++ d ++ s) 0 = some a.length := by
  induction a with
  | nil =>
      obtain ⟨x, d, rfl⟩ := List.exists_cons_of_ne_nil hd
      simp [findFrom]
  | cons x a ih =>
      rw [dropLast_append_delim hd, List.cons_append, List.infix_cons_iff, not_or] at h
      have hp : d.isPrefixOf (x :: (a ++ d ++ s)) = false := by
        by_contra htrue
        rw [Bool.not_eq_false, List.isPrefixOf_iff_prefix] at htrue
        refine h.1 (List.prefix_of_prefix_length_le htrue ?_ ?_)
        · exact (List.prefix_cons_inj x).mpr (dropLast_prefix_append a d s)
        · simp only [List.length_cons, List.length_append, List.length_dropLast]
          omega
      have hrest := ih (by rw [dropLast_append_delim hd]; exact h.2)
      simp only [List.cons_append, findFrom, hp, Bool.false_eq_true, ↓reduceIte]
      rw [findFrom_add, hrest]
      rfl

theorem pieces_of_absent {d s : Str} (h : ¬ d <:+: s) : pieces d s = pushToken [] s :=
  pieces_of_none (findFrom_of_absent h)

/-- The scan goes on behind the first character of the match. -/
theorem pieces_leftmost {d a : Str} (hd : d ≠ []) (h : ¬ d <:+: (a ++ d).dropLast) (s : Str) :
    pieces d (a ++ d ++ s) = pushToken [] a ++ pieces d (d.tail ++ s) := by
  rw [pieces_of_some hd (findFrom_leftmost hd h s)]
  obtain ⟨x, d, rfl⟩ := List.exists_cons_of_ne_nil hd
  simp

/-- A character at which the delimiter occurs is dropped. -/
theorem pieces_cons_of_prefix {d s : Str} {x : Char} (hd : d ≠ []) (h : d <+: x :: s) :
    pieces d (x :: s) = pieces d s := by
  obtain ⟨t, ht⟩ := h
  have := pieces_leftmost hd (not_infix_dropLast hd) t
  obtain ⟨y, d, rfl⟩ := List.exists_cons_of_ne_nil hd
  obtain ⟨rfl, rfl⟩ := List.cons.inj ht
  exact this

/-- Every other character is kept. -/
theorem flatten_pieces_cons {d s : Str} {x : Char} (hd : d ≠ []) (h : ¬ d <+: x :: s) :
    (pieces d (x :: s)).flatten = x :: (pieces d s).flatten := by
  have hpush : ∀ t : Str, (pushToken [] t).flatten = t := by
    intro t
    by_cases ht : t = [] <;> simp [pushToken, ht]
  by_cases hin : d <:+: s
  · obtain ⟨a, t, rfl, hleft⟩ := exists_leftmost hd hin
    have hleft' : ¬ d <:+: (x :: a ++ d).dropLast := by
      rw [dropLast_append_delim hd, List.cons_append, List.infix_cons_iff, not_or,
        ← dropLast_append_delim hd]
      refine ⟨fun hp => h (hp.trans ?_), hleft⟩
      exact (List.prefix_cons_inj x).mpr ((List.dropLast_prefix _).trans (List.prefix_append _ t))
    have hx := pieces_leftmost hd hleft' t
    rw [List.cons_append, List.cons_append] at hx
    rw [hx, pieces_leftmost hd hleft, List.flatten_append, List.flatten_append, hpush, hpush]
    rfl
  · have hx : ¬ d <:+: x :: s := by
      rw [List.infix_cons_iff, not_or]
      exact ⟨h, hin⟩
    rw [pieces_of_absent hx, pieces_of_absent hin, hpush, hpush]

/-! ## Where the scan loses its step -/

/-- The delimiter occurs at every character of `t` in `t ++ s`. -/
def OccursAll (d : Str) : Str → Str → Prop
  | [], _ => True
  | x :: t, s => d <+: x :: (t ++ s) ∧ OccursAll d t s

theorem pieces_of_occursAll {d t s : Str} (hd : d ≠ []) (h : OccursAll d t s) :
    pieces d (t ++ s) = pieces d s := by
  induction t with
  | nil => rfl
  | cons x t ih => rw [List.cons_append, pieces_cons_of_prefix hd h.1, ih h.2]

theorem length_flatten_le {d : Str} (hd : d ≠ []) (t s : Str) :
    (pieces d s).flatten.length ≤ (pieces d (t ++ s)).flatten.length := by
  induction t with
  | nil => exact le_rfl
  | cons x t ih =>
      by_cases hp : d <+: x :: (t ++ s)
      · rwa [List.cons_append, pieces_cons_of_prefix hd hp]
      · rw [List.cons_append, flatten_pieces_cons hd hp, List.length_cons]
        omega

theorem length_flatten_lt {d t s : Str} (hd : d ≠ []) (h : ¬ OccursAll d t s) :
    (pieces d s).flatten.length < (pieces d (t ++ s)).flatten.length := by
  induction t with
  | nil => exact absurd trivial h
  | cons x t ih =>
      by_cases hp : d <+: x :: (t ++ s)
      · have hrest : ¬ OccursAll d t s := fun hrest => h ⟨hp, hrest⟩
        rw [List.cons_append, pieces_cons_of_prefix hd hp]
        exact ih hrest
      · have hle := length_flatten_le hd t s
        rw [List.cons_append, flatten_pieces_cons hd hp, List.length_cons]
        omega

theorem filter_cons_eq (a : Str) (ps : List Str) :
    (a :: ps).filter (· ≠ []) = pushToken [] a ++ ps.filter (· ≠ []) := by
  by_cases h : a = [] <;> simp [pushToken, h]

/-- The scan never keeps less than the split does. -/
theorem length_flatten_filter_le {d s : Str} {ps : List Str} (hd : d ≠ []) (h : Splits d s ps) :
    (ps.filter (· ≠ [])).flatten.length ≤ (pieces d s).flatten.length := by
  induction h with
  | last h =>
      rw [filter_cons_eq, pieces_of_absent h, List.filter_nil, List.append_nil]
  | @cons a s ps h _ ih =>
      have hle := length_flatten_le hd d.tail s
      rw [filter_cons_eq, pieces_leftmost hd h, List.flatten_append, List.flatten_append, List.length_append,
        List.length_append]
      omega

theorem pieces_eq_iff_cons {d a s : Str} {ps : List Str} (hd : d ≠ []) (h : ¬ d <:+: (a ++ d).dropLast)
    (hs : Splits d s ps) :
    pieces d (a ++ d ++ s) = (a :: ps).filter (· ≠ []) ↔
      OccursAll d d.tail s ∧ pieces d s = ps.filter (· ≠ []) := by
  rw [filter_cons_eq, pieces_leftmost hd h, List.append_cancel_left_eq]
  by_cases hall : OccursAll d d.tail s
  · rw [pieces_of_occursAll hd hall]
    exact (and_iff_right hall).symm
  · refine iff_of_false ?_ fun hboth => hall hboth.1
    intro heq
    have hlt := length_flatten_lt hd hall
    have hle := length_flatten_filter_le hd hs
    rw [heq] at hlt
    omega

/-! ## Delimiters of one character -/

theorem eq_replicate_of_prefix {x : Char} {t s : Str} (h : x :: t <+: t ++ s) : t = List.replicate t.length x := by
  induction t generalizing x with
  | nil => rfl
  | cons y t ih =>
      obtain ⟨rfl, hrest⟩ := List.cons_prefix_cons.mp h
      rw [List.length_cons, List.replicate_succ, ← ih hrest]

theorem occursAll_replicate (c : Char) (k m : Nat) (s : Str) :
    OccursAll (List.replicate (m + 1) c) (List.replicate k c) s ↔ k = 0 ∨ List.replicate m c <+: s := by
  induction k with
  | zero => simp [OccursAll]
  | succ k ih =>
      simp only [List.replicate_succ, OccursAll, List.prefix_cons_inj]
      rw [← List.replicate_succ, ih]
      refine ⟨?_, ?_⟩
      · rintro ⟨hp, rfl | hs⟩
        · exact Or.inr (by simpa using hp)
        · exact Or.inr hs
      · rintro (h | hs)
        · omega
        · obtain ⟨t, rfl⟩ := hs
          refine ⟨?_, Or.inr (List.prefix_append _ t)⟩
          rw [← List.append_assoc, List.replicate_append_replicate, Nat.add_comm, ← List.replicate_append_replicate,
            List.append_assoc]
          exact List.prefix_append _ _

/-- No character is lost after a match exactly if the delimiter repeats one character and the rest of the string goes
on with it. -/
theorem occursAll_tail_iff {d s : Str} (hd : d ≠ []) :
    OccursAll d d.tail s ↔
      ∃ c, d = List.replicate d.length c ∧ List.replicate (d.length - 1) c <+: s := by
  obtain ⟨x, t, rfl⟩ := List.exists_cons_of_ne_nil hd
  refine ⟨?_, ?_⟩
  · intro h
    have ht : t = List.replicate t.length x := by
      cases t with
      | nil => rfl
      | cons y t => exact eq_replicate_of_prefix h.1
    refine ⟨x, by rw [List.length_cons, List.replicate_succ, ← ht], ?_⟩
    have hdelim : x :: t = List.replicate (t.length + 1) x := by rw [List.replicate_succ, ← ht]
    rw [hdelim, List.tail_replicate, Nat.add_sub_cancel, occursAll_replicate] at h
    rw [List.length_cons, Nat.add_sub_cancel]
    rcases h with h | h
    · rw [h]
      exact List.nil_prefix
    · exact h
  · rintro ⟨c, hc, hp⟩
    rw [List.length_cons, Nat.add_sub_cancel] at hp
    rw [hc, List.length_cons, List.tail_replicate, Nat.add_sub_cancel, occursAll_replicate]
    exact Or.inr hp

/-! ## When `splitString` splits -/

/-- Every run of the character in which the delimiter `c … c` of length `m` occurs is one short of a multiple of
`m`. -/
def RunsFit (c : Char) (m : Nat) (s : Str) : Prop :=
  ∀ r ∈ runs c s, m ≤ r.length → m ∣ r.length + 1

theorem runsFit_of_absent {c : Char} {m : Nat} {s : Str} (h : ¬ List.replicate m c <:+: s) : RunsFit c m s :=
  fun r hr hle => absurd (replicate_infix_iff.mpr ⟨r, hr, hle⟩) h

theorem runsFit_append {c : Char} {m : Nat} {a s : Str}
    (h : ¬ List.replicate (m + 1) c <:+: (a ++ List.replicate (m + 1) c).dropLast) :
    RunsFit c (m + 1) (a ++ s) ↔ RunsFit c (m + 1) s := by
  rw [dropLast_append_delim (by simp), List.dropLast_replicate, Nat.add_sub_cancel] at h
  cases a using List.reverseRecOn with
  | nil => rfl
  | append_singleton a x =>
      have hx : x ≠ c := by
        rintro rfl
        refine h ?_
        rw [List.append_assoc, List.singleton_append, ← List.replicate_succ]
        exact (List.suffix_append a _).isInfix
      have ha : ¬ List.replicate (m + 1) c <:+: a := fun hin =>
        h (hin.trans (by rw [List.append_assoc]; exact (List.prefix_append a _).isInfix))
      rw [List.append_assoc, List.singleton_append, RunsFit, runs_append_of_ne hx]
      simp only [List.mem_append, or_imp, forall_and]
      exact and_iff_right (runsFit_of_absent ha)

theorem runsFit_replicate_append (c : Char) (m : Nat) (s : Str) :
    RunsFit c (m + 1) (List.replicate (m + 1) c ++ s) ↔
      List.replicate m c <+: s ∧ RunsFit c (m + 1) s := by
  obtain ⟨r, rs, hr⟩ := List.exists_cons_of_ne_nil (runs_ne_nil c s)
  rw [RunsFit, RunsFit, runs_replicate_append, replicate_prefix_iff hr, hr, List.modifyHead_cons]
  simp only [List.forall_mem_cons, List.length_append, List.length_replicate]
  rw [← and_assoc]
  refine and_congr_left fun _ => ?_
  have hshift : m + 1 ∣ m + 1 + r.length + 1 ↔ m + 1 ∣ r.length + 1 := by
    rw [Nat.add_assoc, Nat.dvd_add_right (dvd_refl _)]
  rw [hshift]
  refine ⟨?_, ?_⟩
  · intro h
    have hdvd := h (by omega)
    have := Nat.le_of_dvd (by omega) hdvd
    exact ⟨by omega, fun _ => hdvd⟩
  · rintro ⟨hle, hdvd⟩ _
    by_cases heq : m = r.length
    · rw [heq]
    · exact hdvd (by omega)

theorem pieces_eq_iff_replicate {c : Char} {m : Nat} {s : Str} {ps : List Str}
    (h : Splits (List.replicate (m + 1) c) s ps) :
    pieces (List.replicate (m + 1) c) s = ps.filter (· ≠ []) ↔ RunsFit c (m + 1) s := by
  have hd : List.replicate (m + 1) c ≠ [] := by simp
  induction h with
  | last h =>
      refine iff_of_true ?_ (runsFit_of_absent h)
      rw [pieces_of_absent h, filter_cons_eq, List.filter_nil, List.append_nil]
  | @cons a s ps h hs ih =>
      refine (pieces_eq_iff_cons hd h hs).trans ?_
      rw [List.append_assoc, runsFit_append h, runsFit_replicate_append, List.tail_replicate, Nat.add_sub_cancel,
        occursAll_replicate]
      refine and_congr (or_iff_right_of_imp ?_) ih
      rintro rfl
      exact List.nil_prefix

theorem pieces_eq_iff {d s : Str} {ps : List Str} (hd : d ≠ []) (h : Splits d s ps) :
    pieces d s = ps.filter (· ≠ []) ↔
      ¬ d <:+: s ∨ ∃ c, d = List.replicate d.length c ∧ RunsFit c d.length s := by
  by_cases hone : ∃ c, d = List.replicate d.length c
  · obtain ⟨c, hc⟩ := hone
    obtain ⟨m, hm⟩ := Nat.exists_eq_succ_of_ne_zero (List.length_pos_iff.mpr hd).ne'
    rw [hm] at hc
    subst hc
    rw [pieces_eq_iff_replicate h, List.length_replicate]
    refine ⟨fun hfit => Or.inr ⟨c, rfl, hfit⟩, ?_⟩
    rintro (hnot | ⟨c', hc', hfit⟩)
    · exact runsFit_of_absent hnot
    · rw [List.replicate_succ, List.replicate_succ] at hc'
      obtain ⟨rfl, -⟩ := List.cons.inj hc'
      exact hfit
  · rw [or_iff_left (fun ⟨c, hc, _⟩ => hone ⟨c, hc⟩)]
    cases h with
    | last h =>
        refine iff_of_true ?_ h
        rw [pieces_of_absent h, filter_cons_eq, List.filter_nil, List.append_nil]
    | @cons a s ps h hs =>
        rw [pieces_eq_iff_cons hd h hs]
        refine iff_of_false ?_ (not_not.mpr ((List.suffix_append a d).isInfix.trans (List.prefix_append _ s).isInfix))
        rintro ⟨hall, -⟩
        obtain ⟨c, hc, -⟩ := (occursAll_tail_iff hd).mp hall
        exact hone ⟨c, hc⟩

/-- `splitString` always returns. It returns the non-empty parts of the split, none of which contains the delimiter,
exactly if the delimiter does not occur or repeats one character whose runs fit it. -/
theorem splitString_splits_iff {s d : Str} (hd : d ≠ []) :
    (∃ tokens, splitString s d = .ok tokens) ∧
      ((∃ ps, Splits d s ps ∧ (∀ p ∈ ps, ¬ d <:+: p) ∧ splitString s d = .ok (ps.filter (· ≠ []))) ↔
        ¬ d <:+: s ∨ ∃ c, d = List.replicate d.length c ∧ RunsFit c d.length s) := by
  refine ⟨⟨_, splitString_eq s hd⟩, ?_⟩
  obtain ⟨ps, hps⟩ := exists_splits hd s
  rw [← pieces_eq_iff hd hps, splitString_eq s hd]
  refine ⟨?_, fun heq => ⟨ps, hps, hps.not_infix hd, by rw [heq]⟩⟩
  rintro ⟨qs, hqs, -, heq⟩
  rw [hps.unique hqs]
  exact Except.ok.inj heq

/-- Two posts behind each other in a file of posts. -/
def postsText : Str := "a\n\nb".toList

theorem postsText_splits : Splits ['\n', '\n'] postsText [['a'], ['b']] :=
  .cons (by decide : ¬ ['\n', '\n'] <:+: (['a'] ++ ['\n', '\n']).dropLast) (.last (by decide))

theorem splitString_splits_iff_single :
    (∃ ps, Splits ['/'] "/a//b".toList ps ∧ (∀ p ∈ ps, ¬ ['/'] <:+: p) ∧
      splitString "/a//b".toList ['/'] = .ok (ps.filter (· ≠ []))) :=
  (splitString_splits_iff (by decide)).2.mpr (Or.inr ⟨'/', rfl, fun _ _ _ => one_dvd _⟩)

theorem splitString_keeps_newline :
    ¬ ∀ s d : Str, d ≠ [] →
      ∃ ps, Splits d s ps ∧ (∀ p ∈ ps, ¬ d <:+: p) ∧ splitString s d = .ok (ps.filter (· ≠ [])) := by
  intro h
  obtain ⟨ps, hps, -, heq⟩ := h postsText ['\n', '\n'] (by decide)
  rw [hps.unique postsText_splits] at heq
  have hcode : splitString postsText ['\n', '\n'] = .ok [['a'], ['\n', 'b']] := rfl
  rw [hcode] at heq
  exact absurd (Except.ok.inj heq) (by decide)

/-! ## Paths -/

def slashes (n : Nat) : Str := List.replicate n '/'

/-- The names joined by slashes: `lead` slashes at the start, and behind every name as many more as it says. -/
def joined (lead : Nat) : List (Str × Nat) → Str
  | [] => slashes lead
  | (name, extra) :: rest => slashes lead ++ name ++ joined (if rest.isEmpty then extra else extra + 1) rest

theorem joined_zero (names : List Str) : joined 0 (names.map (·, 0)) = ['/'].intercalate names := by
  have hstep (name : Str) (names : List Str) :
      joined 1 ((name :: names).map (·, 0)) = ['/'] ++ joined 0 ((name :: names).map (·, 0)) := by
    simp [joined, slashes]
  induction names with
  | nil => rfl
  | cons name names ih =>
      cases names with
      | nil => simp [joined, slashes]
      | cons name' names =>
          have hcons : joined 0 ((name :: name' :: names).map (·, 0)) = name ++ joined 1 ((name' :: names).map (·, 0)) :=
            rfl
          rw [hcons, hstep, ih, List.intercalate_cons_cons, List.append_assoc]

theorem components_slashes_append (n : Nat) (s : Str) : components (slashes n ++ s) = components s := by
  induction n with
  | zero => rfl
  | succ n ih => rw [slashes, List.replicate_succ, List.cons_append, components_slash]; exact ih

theorem components_joined (lead : Nat) {parts : List (Str × Nat)} (h : ∀ part ∈ parts, IsComponent part.1) :
    components (joined lead parts) = parts.map (·.1) := by
  induction parts generalizing lead with
  | nil => simpa [joined] using components_slashes_append lead []
  | cons part parts ih =>
      obtain ⟨name, extra⟩ := part
      have hname := components_of_isComponent (h (name, extra) List.mem_cons_self)
      have hrest := fun lead => ih lead fun p hp => h p (List.mem_cons_of_mem _ hp)
      -- the name ends at a slash or at the end of the path
      have hcut (n : Nat) (s : Str) (hs : n = 0 → s = []) :
          components (name ++ (slashes n ++ s)) = name :: components (slashes n ++ s) := by
        cases n with
        | zero => simp [hs rfl, slashes, hname]
        | succ n =>
            have hslash : slashes (n + 1) ++ s = '/' :: (slashes n ++ s) := rfl
            rw [hslash, components_append, hname, components_slash]
            rfl
      rw [joined, List.append_assoc, components_slashes_append]
      cases parts with
      | nil =>
          have := hcut extra [] fun _ => rfl
          rw [List.append_nil] at this
          exact this.trans (congrArg _ (hrest extra))
      | cons part parts =>
          rw [List.map_cons, ← hrest (extra + 1)]
          simp only [List.isEmpty_cons, Bool.false_eq_true, ↓reduceIte, joined, List.append_assoc]
          exact hcut (extra + 1) _ (by omega)

/-- Splitting a path takes a slash to the concatenation, returns names without slashes, and forgets all but one of
the slashes between two names. -/
theorem splitFilepath_homomorphism :
    (∀ a b, ∃ as bs, splitFilepath a = .ok as ∧ splitFilepath b = .ok bs ∧
      splitFilepath (a ++ ['/'] ++ b) = .ok (as ++ bs)) ∧
    (∀ filepath tokens, splitFilepath filepath = .ok tokens → ∀ token ∈ tokens, token ≠ [] ∧ '/' ∉ token) ∧
    (∀ lead (parts : List (Str × Nat)), (∀ part ∈ parts, part.1 ≠ [] ∧ '/' ∉ part.1) →
      splitFilepath (joined lead parts) = .ok (parts.map (·.1))) := by
  refine ⟨?_, ?_, ?_⟩
  · intro a b
    refine ⟨_, _, splitFilepath_eq a, splitFilepath_eq b, ?_⟩
    rw [splitFilepath_eq, List.append_assoc, List.singleton_append, components_append]
  · intro filepath tokens h token htoken
    rw [splitFilepath_eq] at h
    cases h
    have hcomponent := isComponent_of_mem htoken
    exact ⟨hcomponent.ne_nil, hcomponent.slash⟩
  · intro lead parts h
    rw [splitFilepath_eq, components_joined lead fun part hpart => ⟨(h part hpart).1, (h part hpart).2⟩]

theorem splitFilepath_homomorphism_doubled :
    splitFilepath "//a/b///c/".toList = .ok [['a'], ['b'], ['c']] ∧ ∀ token ∈ [['a'], ['b'], ['c']], '/' ∉ token := by
  have hsplit := splitFilepath_homomorphism.2.2 2 [(['a'], 0), (['b'], 2), (['c'], 1)] (by decide)
  exact ⟨hsplit, fun token h => (splitFilepath_homomorphism.2.1 _ _ hsplit token h).2⟩

end DistributedSns.FSWrapper
