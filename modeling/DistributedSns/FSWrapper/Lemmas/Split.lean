import DistributedSns.FSWrapper.Utils

/-!
# What `splitString` returns

The scan of `splitString` only looks at the part of the string behind its position. `pieces` is the same
scan written as a recursion over that part. For a delimiter of one character it is the split of the string
at the delimiter without the empty pieces.
-/

namespace DistributedSns.FSWrapper

/-! ## `find` -/

theorem findFrom_add (delim s : Str) (pos : Nat) :
    findFrom delim s pos = (findFrom delim s 0).map (· + pos) := by
  induction s generalizing pos with
  | nil => by_cases h : delim = [] <;> simp [findFrom, h]
  | cons c s ih =>
      by_cases h : delim.isPrefixOf (c :: s)
      · simp [findFrom, h]
      · rw [findFrom, findFrom, ih (pos + 1), ih (0 + 1)]
        simp only [h, Bool.false_eq_true, ↓reduceIte, Option.map_map]
        congr 1
        funext k
        simp only [Function.comp_apply]
        omega

theorem find_eq {s delim : Str} {pos : Nat} (h : pos ≤ s.length) :
    find s delim pos = (findFrom delim (s.drop pos) 0).map (· + pos) := by
  rw [find, if_pos h, findFrom_add]

/-- A match lies inside the string and leaves room for the delimiter. -/
theorem findFrom_bound {delim s : Str} {k : Nat} (h : findFrom delim s 0 = some k) :
    k + delim.length ≤ s.length := by
  induction s generalizing k with
  | nil =>
      by_cases hd : delim = []
      · simp only [findFrom, hd, ↓reduceIte, Option.some.injEq] at h
        simp [← h, hd]
      · simp [findFrom, hd] at h
  | cons c s ih =>
      by_cases hp : delim.isPrefixOf (c :: s)
      · simp only [findFrom, hp, ↓reduceIte, Option.some.injEq] at h
        have hle := (List.isPrefixOf_iff_prefix.mp hp).length_le
        omega
      · rw [findFrom, if_neg hp, findFrom_add] at h
        obtain ⟨j, hj, rfl⟩ := Option.map_eq_some_iff.mp h
        have := ih hj
        simp only [List.length_cons]
        omega

/-! ## The scan as a recursion -/

/-- The tokens found in what is left of the string. -/
def pieces (delim : Str) (s : Str) : List Str :=
  if s = [] then []
  else
    match findFrom delim s 0 with
    | none => pushToken [] s
    | some k => pushToken [] (s.take k) ++ pieces delim (s.drop (k + 1))
termination_by s.length
decreasing_by
  rename_i hne
  have := List.length_pos_iff.mpr hne
  simp only [List.length_drop]
  omega

theorem pushToken_eq (tokens : List Str) (token : Str) :
    pushToken tokens token = tokens ++ pushToken [] token := by
  by_cases h : token = [] <;> simp [pushToken, h]

@[simp] theorem pieces_nil (delim : Str) : pieces delim [] = [] := by
  rw [pieces, if_pos rfl]

theorem pieces_of_none {delim s : Str} (h : findFrom delim s 0 = none) :
    pieces delim s = pushToken [] s := by
  by_cases hs : s = []
  · subst hs
    rw [pieces_nil]
    rfl
  · rw [pieces, if_neg hs, h]

theorem pieces_of_some {delim s : Str} (hd : delim ≠ []) {k : Nat} (h : findFrom delim s 0 = some k) :
    pieces delim s = pushToken [] (s.take k) ++ pieces delim (s.drop (k + 1)) := by
  have hs : s ≠ [] := by
    rintro rfl
    simp [findFrom, hd] at h
  rw [pieces, if_neg hs, h]

theorem splitLoop_eq {s delim : Str} (hd : delim ≠ []) (fuel pos : Nat) (tokens : List Str)
    (hpos : pos ≤ s.length) (hfuel : s.length - pos + 1 ≤ fuel) :
    splitLoop s delim fuel pos (find s delim pos) tokens = .ok (tokens ++ pieces delim (s.drop pos)) := by
  induction fuel generalizing pos tokens with
  | zero => omega
  | succ fuel ih =>
      rw [find_eq hpos]
      cases hf : findFrom delim (s.drop pos) 0 with
      | none =>
          simp only [Option.map_none, splitLoop, substr, if_pos hpos, pieces_of_none hf]
          rw [← pushToken_eq tokens]
          rfl
      | some k =>
          have hk := findFrom_bound hf
          have hdl := List.length_pos_iff.mpr hd
          simp only [List.length_drop] at hk
          have hnext := ih (k + pos + 1) (pushToken tokens ((s.drop pos).take k)) (by omega) (by omega)
          have hdrop : (s.drop pos).drop (k + 1) = s.drop (k + pos + 1) := by
            rw [List.drop_drop]
            congr 1
            omega
          simp only [Option.map_some, splitLoop, substrCount, if_pos hpos, Nat.add_sub_cancel_right,
            pieces_of_some hd hf, hdrop]
          rw [← List.append_assoc, ← pushToken_eq tokens]
          exact hnext

/-- `splitString` returns for every string and every delimiter which is not empty. -/
theorem splitString_eq (s : Str) {delim : Str} (hd : delim ≠ []) :
    splitString s delim = .ok (pieces delim s) := by
  have := splitLoop_eq (s := s) hd (s.length + 2) 0 [] (Nat.zero_le _) (by omega)
  simpa only [splitString, List.nil_append, List.drop_zero] using this

/-! ## Delimiters of one character -/

theorem findFrom_char {c : Char} {s : Str} :
    (findFrom [c] s 0 = none ∧ c ∉ s) ∨
      ∃ k, findFrom [c] s 0 = some k ∧ c ∉ s.take k ∧ s = s.take k ++ c :: s.drop (k + 1) := by
  induction s with
  | nil => exact Or.inl ⟨rfl, List.not_mem_nil⟩
  | cons a s ih =>
      by_cases ha : c = a
      · subst ha
        exact Or.inr ⟨0, by simp [findFrom], by simp, by simp⟩
      · have hstep : findFrom [c] (a :: s) 0 = (findFrom [c] s 0).map (· + 1) := by
          rw [findFrom, findFrom_add]
          simp [ha]
        rcases ih with ⟨hn, hc⟩ | ⟨k, hk, hc, heq⟩
        · exact Or.inl ⟨by rw [hstep, hn]; rfl, by simp [ha, hc]⟩
        · refine Or.inr ⟨k + 1, by rw [hstep, hk]; rfl, by simp [ha, hc], ?_⟩
          simp only [List.take_succ_cons, List.drop_succ_cons, List.cons_append]
          rw [← heq]

theorem pieces_char (c : Char) (s : Str) : pieces [c] s = (s.splitOn c).filter (· ≠ []) := by
  have hpush : ∀ t : Str, pushToken [] t = [t].filter (· ≠ []) := by
    intro t
    by_cases h : t = [] <;> simp [pushToken, h]
  induction hn : s.length using Nat.strong_induction_on generalizing s with
  | _ n ih =>
      rcases findFrom_char (c := c) (s := s) with ⟨hf, hc⟩ | ⟨k, hf, hc, heq⟩
      · rw [pieces_of_none hf, List.splitOn_eq_singleton hc, hpush]
      · have hlt : (s.drop (k + 1)).length < n := by
          have := findFrom_bound hf
          simp only [List.length_singleton] at this
          simp only [List.length_drop]
          omega
        rw [pieces_of_some (by simp) hf, ih _ hlt _ rfl, hpush]
        conv => rhs; rw [heq]
        rw [List.splitOn_append_cons_self, List.splitOn_eq_singleton hc, List.filter_append]

/-! ## Paths -/

/-- The components of a path. -/
def components (filepath : Str) : List Str :=
  (filepath.splitOn '/').filter (· ≠ [])

theorem splitFilepath_eq (filepath : Str) : splitFilepath filepath = .ok (components filepath) := by
  rw [splitFilepath, splitString_eq filepath (by simp), pieces_char, components]

/-- A slash separates the components on its two sides. -/
theorem components_append (a b : Str) : components (a ++ '/' :: b) = components a ++ components b := by
  simp only [components, List.splitOn_append_cons_self, List.filter_append]

@[simp] theorem components_nil : components [] = [] := by
  simp [components]

theorem components_slash (b : Str) : components ('/' :: b) = components b := by
  simpa using components_append [] b

theorem components_of_slashFree {a : Str} (h : '/' ∉ a) (hne : a ≠ []) : components a = [a] := by
  simp [components, List.splitOn_eq_singleton h, hne]

/-- What can stand between the slashes of a path. -/
structure IsComponent (name : Str) : Prop where
  ne_nil : name ≠ []
  slash : '/' ∉ name

theorem isComponent_of_mem {filepath name : Str} (h : name ∈ components filepath) : IsComponent name := by
  induction hn : filepath.length using Nat.strong_induction_on generalizing filepath with
  | _ n ih =>
      rcases findFrom_char (c := '/') (s := filepath) with ⟨-, hc⟩ | ⟨k, hf, hc, heq⟩
      · rw [components, List.splitOn_eq_singleton hc] at h
        obtain ⟨rfl, hne⟩ : name = filepath ∧ name ≠ [] := by simpa using h
        exact ⟨hne, hc⟩
      · have hlt : (filepath.drop (k + 1)).length < n := by
          have := findFrom_bound hf
          simp only [List.length_singleton] at this
          simp only [List.length_drop]
          omega
        rw [heq, components_append] at h
        rcases List.mem_append.mp h with h | h
        · rw [components, List.splitOn_eq_singleton hc] at h
          obtain ⟨rfl, hne⟩ : name = filepath.take k ∧ name ≠ [] := by
            simpa only [List.mem_filter, List.mem_singleton, decide_eq_true_eq] using h
          exact ⟨hne, hc⟩
        · exact ih _ hlt h rfl

theorem components_of_isComponent {name : Str} (h : IsComponent name) : components name = [name] :=
  components_of_slashFree h.slash h.ne_nil

theorem components_folders_append {tokens : List Str} (h : ∀ name ∈ tokens, IsComponent name) (s : Str) :
    components (tokens.flatMap (· ++ ['/']) ++ s) = tokens ++ components s := by
  induction tokens with
  | nil => rfl
  | cons name tokens ih =>
      have hname := components_of_isComponent (h name List.mem_cons_self)
      rw [List.flatMap_cons, List.append_assoc, List.append_assoc, List.singleton_append, components_append, hname,
        ih fun n hn => h n (List.mem_cons_of_mem _ hn)]
      rfl

theorem components_folders {tokens : List Str} (h : ∀ name ∈ tokens, IsComponent name) :
    components (tokens.flatMap (· ++ ['/'])) = tokens := by
  simpa using components_folders_append h []

end DistributedSns.FSWrapper
