import Mathlib

/-!
# Stores addressed by paths

A store maps paths, which are lists of names, to folders and files. The operations are those of a simple file
system: an operation on a path looks at the entry of the path and at that of its parent, and one which fails leaves
the store as it is.
-/

namespace DistributedSns.Lib

/-! ## Stores -/

inductive PathMap.Entry (β : Type*) where
  | folder
  | file (data : List β)
  deriving DecidableEq

abbrev PathMap (κ β : Type*) := List κ → Option (PathMap.Entry β)

namespace PathMap

variable {κ β : Type*} [DecidableEq κ]

/-- The store with a root and nothing in it. -/
def empty : PathMap κ β := fun p => if p = [] then some .folder else none

def isFolder : Option (Entry β) → Bool
  | some .folder => true
  | _ => false

/-- The data of a file. -/
def text : Option (Entry β) → List β
  | some (.file data) => data
  | _ => []

/-- Makes folders of `p` and of the paths above it which are missing. -/
def makeFolders (m : PathMap κ β) (p : List κ) : PathMap κ β :=
  fun q => (m q).or (if q <+: p then some .folder else none)

/-- The store in which the parent of `p` has to be a folder. -/
def prepare (m : PathMap κ β) (p : List κ) (createDirectories : Bool) : PathMap κ β :=
  if createDirectories then m.makeFolders p.dropLast else m

/-! ## Operations -/

def create (m : PathMap κ β) (p : List κ) (folder createDirectories : Bool) : PathMap κ β × Int :=
  let m' := m.prepare p createDirectories
  if (m p).isNone && isFolder (m' p.dropLast) then
    (Function.update m' p (some (if folder then .folder else .file [])), 0)
  else (m, -1)

def write (m : PathMap κ β) (p : List κ) (data : List β) (createDirectories overwrite : Bool) :
    PathMap κ β × Int :=
  match m p with
  | some (.file old) => (Function.update m p (some (.file (if overwrite then data else old ++ data))), 0)
  | some .folder => (m, -1)
  | none =>
    let m' := m.prepare p createDirectories
    if isFolder (m' p.dropLast) then (Function.update m' p (some (.file data)), 0) else (m, -1)

/-- The return code and what `data` holds afterwards. -/
def read (m : PathMap κ β) (p : List κ) (data : List β) (offset : Int) : Int × List β :=
  match m p with
  | some (.file d) => if 0 ≤ offset ∧ offset ≤ d.length then (0, d.drop offset.toNat) else (-1, data)
  | _ => (-1, data)

/-- Removes `p` and everything below it. -/
def remove (m : PathMap κ β) (p : List κ) : PathMap κ β × Int :=
  if (m p).isSome then (fun q => if p <+: q then none else m q, 0) else (m, -1)

/-! ## Calls -/

inductive Op (β : Type*) where
  | create (folder createDirectories : Bool)
  | write (data : List β) (createDirectories overwrite : Bool)
  | read (data : List β) (offset : Int)
  | fileExists
  | remove

def Op.createDirectories : Op β → Bool
  | .create _ createDirectories => createDirectories
  | .write _ createDirectories _ => createDirectories
  | _ => false

structure Call (π β : Type*) where
  path : π
  op : Op β

inductive Result (β : Type*) where
  | code (success : Int)
  | data (success : Int) (data : List β)
  | found (b : Bool)
  deriving DecidableEq

def Result.failed : Result β → Prop
  | .code success => success = -1
  | .data success _ => success = -1
  | .found _ => False

def call (m : PathMap κ β) (c : Call (List κ) β) : PathMap κ β × Result β :=
  match c.op with
  | .create folder createDirectories =>
    let r := m.create c.path folder createDirectories
    (r.1, .code r.2)
  | .write data createDirectories overwrite =>
    let r := m.write c.path data createDirectories overwrite
    (r.1, .code r.2)
  | .read data offset =>
    let r := m.read c.path data offset
    (m, .data r.1 r.2)
  | .fileExists => (m, .found (m c.path).isSome)
  | .remove =>
    let r := m.remove c.path
    (r.1, .code r.2)

/-- Calls one after the other, with their results. -/
def calls (m : PathMap κ β) : List (Call (List κ) β) → PathMap κ β × List (Result β)
  | [] => (m, [])
  | c :: cs =>
    let r := m.call c
    let rs := calls r.1 cs
    (rs.1, r.2 :: rs.2)

/-- No path above `p` is a file. -/
def NoFileAbove (m : PathMap κ β) (p : List κ) : Prop :=
  ∀ q d, q <+: p.dropLast → m q ≠ some (.file d)

/-- The path has a component, and missing folders are only asked for where none of them is a file. -/
structure Admissible (m : PathMap κ β) (c : Call (List κ) β) : Prop where
  path : c.path ≠ []
  folders : c.op.createDirectories = true → m.NoFileAbove c.path

/-- Every call is admissible when it is made. -/
def AdmissibleCalls : PathMap κ β → List (Call (List κ) β) → Prop
  | _, [] => True
  | m, c :: cs => Admissible m c ∧ AdmissibleCalls (m.call c).1 cs

/-- The paths a call may change. -/
def Affects (m : PathMap κ β) (c : Call (List κ) β) (q : List κ) : Prop :=
  match c.op with
  | .create _ createDirectories => q = c.path ∨ createDirectories ∧ m q = none ∧ q <+: c.path
  | .write _ createDirectories _ => q = c.path ∨ createDirectories ∧ m q = none ∧ q <+: c.path
  | .remove => c.path <+: q
  | _ => False

/-! ## Failure and frame -/

section

variable {m : PathMap κ β} {p q : List κ}

theorem text_makeFolders (p q : List κ) : text (m.makeFolders p q) = text (m q) := by
  rw [makeFolders]
  cases m q with
  | none => by_cases hq : q <+: p <;> simp [hq, text]
  | some e => rfl

theorem text_prepare (p q : List κ) (createDirectories : Bool) : text (m.prepare p createDirectories q) = text (m q) := by
  rw [prepare]
  split_ifs
  · exact text_makeFolders _ _
  · rfl

theorem makeFolders_of_isSome (h : (m q).isSome) (p : List κ) : m.makeFolders p q = m q := by
  obtain ⟨e, he⟩ := Option.isSome_iff_exists.mp h
  simp [makeFolders, he]

theorem makeFolders_of_not_above (h : ¬ q <+: p) : m.makeFolders p q = m q := by
  simp [makeFolders, h]

theorem prepare_of_not_affected {createDirectories : Bool}
    (h : ¬ (createDirectories = true ∧ m q = none ∧ q <+: p)) : m.prepare p createDirectories q = m q := by
  unfold prepare
  split_ifs with hc
  · by_cases hs : (m q).isSome
    · exact makeFolders_of_isSome hs _
    · apply makeFolders_of_not_above
      intro hq
      exact h ⟨hc, Option.not_isSome_iff_eq_none.mp hs, hq.trans p.dropLast_prefix⟩
  · rfl

theorem create_cases (m : PathMap κ β) (p : List κ) (folder createDirectories : Bool) :
    m.create p folder createDirectories = (m, -1) ∨
      ∃ e, m.create p folder createDirectories = (Function.update (m.prepare p createDirectories) p (some e), 0) := by
  unfold create
  by_cases h : ((m p).isNone && isFolder (m.prepare p createDirectories p.dropLast)) = true
  · exact Or.inr ⟨_, if_pos h⟩
  · exact Or.inl (if_neg h)

theorem write_cases (m : PathMap κ β) (p : List κ) (data : List β) (createDirectories overwrite : Bool) :
    m.write p data createDirectories overwrite = (m, -1) ∨
      ∃ m' e, (m' = m ∨ m' = m.prepare p createDirectories) ∧
        m.write p data createDirectories overwrite = (Function.update m' p (some e), 0) := by
  unfold write
  cases m p with
  | none =>
      by_cases h : isFolder (m.prepare p createDirectories p.dropLast) = true
      · exact Or.inr ⟨_, _, Or.inr rfl, if_pos h⟩
      · exact Or.inl (if_neg h)
  | some e =>
      cases e with
      | folder => exact Or.inl rfl
      | file old => exact Or.inr ⟨_, _, Or.inl rfl, rfl⟩

/-- A call which fails changes nothing. -/
theorem call_of_failed {c : Call (List κ) β} (h : (m.call c).2.failed) : (m.call c).1 = m := by
  unfold call at h ⊢
  cases hop : c.op with
  | create folder createDirectories =>
      simp only [hop] at h ⊢
      rcases m.create_cases c.path folder createDirectories with he | ⟨e, he⟩
      · rw [he]
      · rw [he] at h
        cases h
  | write data createDirectories overwrite =>
      simp only [hop] at h ⊢
      rcases m.write_cases c.path data createDirectories overwrite with he | ⟨m', e, -, he⟩
      · rw [he]
      · rw [he] at h
        cases h
  | read data offset => rfl
  | fileExists => rfl
  | remove =>
      simp only [hop, remove] at h ⊢
      split_ifs at h ⊢
      · cases h
      · rfl

/-- A call changes no path but those it affects. -/
theorem call_of_not_affects {c : Call (List κ) β} (h : ¬ Affects m c q) : (m.call c).1 q = m q := by
  unfold Affects at h
  unfold call
  cases hop : c.op with
  | create folder createDirectories =>
      simp only [hop, not_or] at h ⊢
      rcases m.create_cases c.path folder createDirectories with he | ⟨e, he⟩
      · rw [he]
      · rw [he]
        exact (Function.update_of_ne h.1 _ _).trans (prepare_of_not_affected h.2)
  | write data createDirectories overwrite =>
      simp only [hop, not_or] at h ⊢
      rcases m.write_cases c.path data createDirectories overwrite with he | ⟨m', e, rfl | rfl, he⟩
      · rw [he]
      · rw [he]
        exact Function.update_of_ne h.1 _ _
      · rw [he]
        exact (Function.update_of_ne h.1 _ _).trans (prepare_of_not_affected h.2)
  | read data offset => rfl
  | fileExists => rfl
  | remove =>
      simp only [hop] at h
      simp only [remove]
      split_ifs
      · simp only [h, ↓reduceIte]
      · rfl

omit [DecidableEq κ] in
theorem above_or_below_of_affects {c : Call (List κ) β} (h : Affects m c q) : q <+: c.path ∨ c.path <+: q := by
  unfold Affects at h
  cases hop : c.op with
  | create folder createDirectories =>
      simp only [hop] at h
      rcases h with rfl | ⟨-, -, habove⟩
      · exact Or.inl List.prefix_rfl
      · exact Or.inl habove
  | write data createDirectories overwrite =>
      simp only [hop] at h
      rcases h with rfl | ⟨-, -, habove⟩
      · exact Or.inl List.prefix_rfl
      · exact Or.inl habove
  | remove =>
      simp only [hop] at h
      exact Or.inr h
  | _ => simp [hop] at h

/-- A call makes nothing but its path and folders above it. -/
theorem isSome_call {c : Call (List κ) β} (h : ((m.call c).1 q).isSome) : (m q).isSome ∨ q <+: c.path := by
  by_cases ha : Affects m c q
  · rcases above_or_below_of_affects ha with habove | hbelow
    · exact Or.inr habove
    · cases hop : c.op with
      | remove =>
          left
          simp only [call, hop, remove] at h
          split_ifs at h
          · simp [hbelow] at h
          · exact h
      | create folder createDirectories =>
          simp only [Affects, hop] at ha
          exact Or.inr (by rcases ha with rfl | ha; exacts [List.prefix_rfl, ha.2.2])
      | write data createDirectories overwrite =>
          simp only [Affects, hop] at ha
          exact Or.inr (by rcases ha with rfl | ha; exacts [List.prefix_rfl, ha.2.2])
      | _ => simp [Affects, hop] at ha
  · rw [call_of_not_affects ha] at h
    exact Or.inl h

end

/-! ## Parts of a store -/

/-- What is at `p` and below. -/
def sub (m : PathMap κ β) (p : List κ) : PathMap κ β := fun q => m (p ++ q)

/-- Replaces what is at `p` and below. -/
def graft (m : PathMap κ β) (p : List κ) (x : PathMap κ β) : PathMap κ β :=
  fun q => if p <+: q then x (q.drop p.length) else m q

/-- There is nothing below a path which is missing. -/
def Closed (m : PathMap κ β) : Prop := ∀ p q, (m (p ++ q)).isSome → (m p).isSome

section

variable {m : PathMap κ β} {p q : List κ} {x : PathMap κ β}

@[simp] theorem graft_append : m.graft p x (p ++ q) = x q := by
  simp [graft]

theorem graft_of_not_below (h : ¬ p <+: q) : m.graft p x q = m q := by
  simp [graft, h]

@[simp] theorem graft_nil : m.graft [] x = x := by
  funext q
  simp [graft]

@[simp] theorem graft_sub : m.graft p (m.sub p) = m := by
  funext q
  by_cases h : p <+: q
  · obtain ⟨r, rfl⟩ := h
    simp [sub]
  · rw [graft_of_not_below h]

theorem graft_graft (y : PathMap κ β) :
    m.graft p (x.graft q y) = (m.graft p x).graft (p ++ q) y := by
  funext r
  by_cases h : p <+: r
  · obtain ⟨r, rfl⟩ := h
    by_cases hq : q <+: r
    · obtain ⟨r, rfl⟩ := hq
      rw [graft_append, graft_append, ← List.append_assoc, graft_append]
    · rw [graft_append, graft_of_not_below hq, graft_of_not_below (by rwa [List.prefix_append_right_inj]),
        graft_append]
  · rw [graft_of_not_below h, graft_of_not_below fun hr => h ((List.prefix_append p q).trans hr),
      graft_of_not_below h]

theorem graft_update (q : List κ) (e : Option (Entry β)) :
    m.graft p (Function.update (m.sub p) q e) = Function.update m (p ++ q) e := by
  funext r
  by_cases h : p <+: r
  · obtain ⟨r, rfl⟩ := h
    rw [graft_append]
    by_cases hr : r = q
    · subst hr
      rw [Function.update_self, Function.update_self]
    · rw [Function.update_of_ne hr, Function.update_of_ne (by simpa using hr), sub]
  · rw [graft_of_not_below h, Function.update_of_ne]
    rintro rfl
    exact h (List.prefix_append p q)

/-- Replaces what is at each of the names below `p`. -/
def graftAll (m : PathMap κ β) (p : List κ) (es : List (κ × PathMap κ β)) : PathMap κ β :=
  es.foldl (fun m e => m.graft (p ++ [e.1]) e.2) m

theorem graftAll_cons (p : List κ) (e : κ × PathMap κ β) (es : List (κ × PathMap κ β)) :
    m.graftAll p (e :: es) = (m.graft (p ++ [e.1]) e.2).graftAll p es := rfl

theorem graft_child_ne {a b : κ} (h : a ≠ b) (x : PathMap κ β) (r : List κ) :
    m.graft (p ++ [b]) x (p ++ a :: r) = m (p ++ a :: r) := by
  apply graft_of_not_below
  rw [List.prefix_append_right_inj]
  simpa using h.symm

theorem graft_child (a : κ) (x : PathMap κ β) (r : List κ) : m.graft (p ++ [a]) x (p ++ a :: r) = x r := by
  have happ : p ++ a :: r = p ++ [a] ++ r := by simp
  rw [happ, graft_append]

theorem graftAll_of_not_below {es : List (κ × PathMap κ β)} (h : ∀ a, ¬ p ++ [a] <+: q) : m.graftAll p es q = m q := by
  induction es generalizing m with
  | nil => rfl
  | cons e es ih => rw [graftAll_cons, ih, graft_of_not_below (h e.1)]

theorem graftAll_self (es : List (κ × PathMap κ β)) : m.graftAll p es p = m p := by
  apply graftAll_of_not_below
  intro a ha
  simpa using ha.length_le

theorem graftAll_of_not_mem {es : List (κ × PathMap κ β)} {a : κ} (h : ∀ e ∈ es, e.1 ≠ a) (r : List κ) :
    m.graftAll p es (p ++ a :: r) = m (p ++ a :: r) := by
  induction es generalizing m with
  | nil => rfl
  | cons e es ih =>
      rw [graftAll_cons, ih fun e he => h e (List.mem_cons_of_mem _ he),
        graft_child_ne (h e List.mem_cons_self).symm]

theorem graftAll_of_mem {es : List (κ × PathMap κ β)} (hkeys : (es.map Prod.fst).Nodup) {e : κ × PathMap κ β}
    (he : e ∈ es) (r : List κ) : m.graftAll p es (p ++ e.1 :: r) = e.2 r := by
  induction es generalizing m with
  | nil => cases he
  | cons e' es ih =>
      obtain ⟨hnot, hkeys⟩ := List.nodup_cons.mp hkeys
      rw [graftAll_cons]
      rcases List.mem_cons.mp he with rfl | he
      · rw [graftAll_of_not_mem, graft_child]
        rintro e' he' heq
        exact hnot (List.mem_map.mpr ⟨e', he', heq⟩)
      · exact ih hkeys he

/-! ## Operations in the parent folder -/

variable {a : κ}

theorem create_append (folder : Bool) : m.create (p ++ [a]) folder false =
    (m.graft p ((m.sub p).create [a] folder false).1, ((m.sub p).create [a] folder false).2) := by
  have hsub : (m.sub p) [a] = m (p ++ [a]) := rfl
  have hroot : (m.sub p) [] = m p := by rw [sub, List.append_nil]
  simp only [create, prepare, Bool.false_eq_true, ↓reduceIte, List.dropLast_concat, List.dropLast_singleton, hsub,
    hroot]
  by_cases h : ((m (p ++ [a])).isNone && isFolder (m p)) = true
  · simp only [h, ↓reduceIte, graft_update]
  · simp only [h, Bool.false_eq_true, ↓reduceIte, graft_sub]

theorem write_append (data : List β) (overwrite : Bool) : m.write (p ++ [a]) data false overwrite =
    (m.graft p ((m.sub p).write [a] data false overwrite).1,
      ((m.sub p).write [a] data false overwrite).2) := by
  have hsub : (m.sub p) [a] = m (p ++ [a]) := rfl
  have hroot : (m.sub p) [] = m p := by rw [sub, List.append_nil]
  simp only [write, prepare, Bool.false_eq_true, ↓reduceIte, List.dropLast_concat, List.dropLast_singleton, hsub,
    hroot]
  cases m (p ++ [a]) with
  | none =>
      simp only
      split_ifs
      · rw [graft_update]
      · rw [graft_sub]
  | some e =>
      cases e with
      | folder => simp only [graft_sub]
      | file old => simp only [graft_update]

theorem remove_append : m.remove (p ++ [a]) =
    (m.graft p ((m.sub p).remove [a]).1, ((m.sub p).remove [a]).2) := by
  have hsub : (m.sub p) [a] = m (p ++ [a]) := rfl
  simp only [remove, hsub]
  split_ifs
  · congr 1
    funext q
    by_cases h : p <+: q
    · obtain ⟨r, rfl⟩ := h
      simp only [graft_append, List.prefix_append_right_inj, sub]
    · rw [graft_of_not_below h, if_neg fun hq => h ((List.prefix_append p [a]).trans hq)]
  · rw [graft_sub]

/-! ## Missing folders -/

theorem makeFolders_eq_self (hm : m.Closed) (hp : (m p).isSome) : m.makeFolders p = m := by
  funext q
  by_cases h : q <+: p
  · obtain ⟨r, rfl⟩ := h
    exact makeFolders_of_isSome (hm q r hp) _
  · exact makeFolders_of_not_above h

theorem isFolder_makeFolders (h : ∀ d, m p ≠ some (.file d)) : isFolder (m.makeFolders p p) = true := by
  cases hp : m p with
  | none => simp [makeFolders, hp, isFolder]
  | some e =>
      cases e with
      | folder => simp [makeFolders, hp, isFolder]
      | file d => exact absurd hp (h d)

/-- A parent which is missing after the missing folders have been made was not asked for. -/
theorem createDirectories_eq_false {createDirectories : Bool} (habove : createDirectories = true → m.NoFileAbove p)
    (hparent : ¬ isFolder (m.prepare p createDirectories p.dropLast) = true) : createDirectories = false := by
  rw [Bool.eq_false_iff]
  intro hc
  subst hc
  exact hparent (isFolder_makeFolders fun d => habove rfl _ d List.prefix_rfl)

theorem makeFolders_concat : m.makeFolders p (p ++ [a]) = m (p ++ [a]) := by
  apply makeFolders_of_not_above
  intro h
  simpa using h.length_le

variable (hm : m.Closed) (h : m.NoFileAbove (p ++ [a]))
include hm h

/-- Making the missing folders first. -/
theorem create_makeFolders (folder : Bool) :
    m.create (p ++ [a]) folder true = (m.makeFolders p).create (p ++ [a]) folder false := by
  have hfile (d : List β) : m p ≠ some (.file d) := h p d (by simp)
  simp only [create, prepare, Bool.false_eq_true, ↓reduceIte, List.dropLast_concat, makeFolders_concat,
    isFolder_makeFolders hfile, Bool.and_true]
  cases hpa : m (p ++ [a]) with
  | none => rfl
  | some e => rw [makeFolders_eq_self hm (hm p [a] (by rw [hpa]; rfl))]

theorem write_makeFolders (data : List β) (overwrite : Bool) :
    m.write (p ++ [a]) data true overwrite = (m.makeFolders p).write (p ++ [a]) data false overwrite := by
  have hfile (d : List β) : m p ≠ some (.file d) := h p d (by simp)
  simp only [write, prepare, Bool.false_eq_true, ↓reduceIte, List.dropLast_concat, makeFolders_concat,
    isFolder_makeFolders hfile]
  cases hpa : m (p ++ [a]) with
  | none => rfl
  | some e => rw [makeFolders_eq_self hm (hm p [a] (by rw [hpa]; rfl))]

end

/-! ## Trees -/

/-- What is in the store is in a folder. -/
def Tree (m : PathMap κ β) : Prop := ∀ p a, (m (p ++ [a])).isSome → isFolder (m p) = true

section

variable {m : PathMap κ β} {p q : List κ}

theorem isFolder_eq_true {e : Option (Entry β)} : isFolder e = true ↔ e = some .folder := by
  unfold isFolder
  split <;> simp_all

omit [DecidableEq κ] in
theorem tree_empty : (empty : PathMap κ β).Tree := by
  intro p a h
  simp [empty] at h

omit [DecidableEq κ] in
/-- Above an entry there are folders only. -/
theorem Tree.isFolder_above (hm : m.Tree) {r : List κ} (hr : r ≠ []) (h : (m (q ++ r)).isSome) :
    isFolder (m q) = true := by
  induction r using List.reverseRecOn with
  | nil => exact absurd rfl hr
  | append_singleton r a ih =>
      rw [← List.append_assoc] at h
      have hfolder := hm _ _ h
      cases r with
      | nil => simpa using hfolder
      | cons b r =>
          apply ih (List.cons_ne_nil _ _)
          rw [isFolder_eq_true.mp hfolder]
          rfl

omit [DecidableEq κ] in
theorem Tree.isFolder_dropLast (hm : m.Tree) (hp : p ≠ []) (h : (m p).isSome) : isFolder (m p.dropLast) = true := by
  rw [← List.dropLast_append_getLast hp] at h
  exact hm _ _ h

omit [DecidableEq κ] in
theorem Tree.closed (hm : m.Tree) : m.Closed := by
  intro p q h
  cases q with
  | nil => rwa [List.append_nil] at h
  | cons a q =>
      rw [isFolder_eq_true.mp (hm.isFolder_above (List.cons_ne_nil a q) h)]
      rfl

/-- A new entry in a folder, or a file in the place of a file. -/
theorem Tree.update (hm : m.Tree) (hp : p ≠ []) (hparent : isFolder (m p.dropLast) = true)
    (hentry : isFolder (m p) = false) (e : Entry β) : Tree (Function.update m p (some e)) := by
  intro q a h
  have hq : q ≠ p := by
    rintro rfl
    rw [Function.update_of_ne (by simp)] at h
    rw [hm q a h] at hentry
    cases hentry
  rw [Function.update_of_ne hq]
  by_cases hqa : q ++ [a] = p
  · rw [← hqa, List.dropLast_concat] at hparent
    exact hparent
  · rw [Function.update_of_ne hqa] at h
    exact hm q a h

theorem Tree.makeFolders (hm : m.Tree) (hfile : ∀ q d, q <+: p → m q ≠ some (.file d)) : (m.makeFolders p).Tree := by
  intro q a h
  by_cases hqa : (m (q ++ [a])).isSome
  · have hq := isFolder_eq_true.mp (hm q a hqa)
    rw [makeFolders_of_isSome (by rw [hq]; rfl), hq]
    rfl
  · have hprefix : q ++ [a] <+: p := by
      by_contra hnot
      rw [makeFolders_of_not_above hnot] at h
      exact hqa h
    have hq := (List.prefix_append q [a]).trans hprefix
    cases hmq : m q with
    | none => simp [PathMap.makeFolders, hmq, hq, isFolder]
    | some e =>
        cases e with
        | folder => simp [PathMap.makeFolders, hmq, isFolder]
        | file d => exact absurd hmq (hfile q d hq)

theorem Tree.remove (hm : m.Tree) (p : List κ) : Tree fun q => if p <+: q then none else m q := by
  intro q a h
  by_cases hqa : p <+: q ++ [a]
  · simp [hqa] at h
  · have hq : ¬ p <+: q := fun hq => hqa (hq.trans (List.prefix_append q [a]))
    simp only [hqa, hq, ↓reduceIte] at h ⊢
    exact hm q a h

theorem Tree.prepare (hm : m.Tree) {createDirectories : Bool}
    (hfile : createDirectories = true → m.NoFileAbove p) : (m.prepare p createDirectories).Tree := by
  unfold PathMap.prepare
  split_ifs with hc
  · exact hm.makeFolders (hfile hc)
  · exact hm

theorem prepare_self (hp : p ≠ []) (createDirectories : Bool) : m.prepare p createDirectories p = m p := by
  unfold PathMap.prepare
  split_ifs
  · apply makeFolders_of_not_above
    intro h
    have := h.length_le
    have := List.length_pos_iff.mpr hp
    simp only [List.length_dropLast] at *
    omega
  · rfl

/-- Nothing is missing above an entry. -/
theorem Tree.prepare_of_isSome (hm : m.Tree) (hp : p ≠ []) (h : (m p).isSome) (createDirectories : Bool) :
    m.prepare p createDirectories = m := by
  unfold PathMap.prepare
  split_ifs
  · apply makeFolders_eq_self hm.closed
    rw [isFolder_eq_true.mp (hm.isFolder_dropLast hp h)]
    rfl
  · rfl

omit [DecidableEq κ] in
theorem Tree.noFileAbove (hm : m.Tree) (hp : p ≠ []) (h : (m p).isSome) : m.NoFileAbove p := by
  intro q d hq
  obtain ⟨r, hr⟩ := hq.trans p.dropLast_prefix
  cases r with
  | nil =>
      rw [List.append_nil] at hr
      subst hr
      have hlen := hq.length_le
      have := List.length_pos_iff.mpr hp
      rw [List.length_dropLast] at hlen
      omega
  | cons a r =>
      rw [← hr] at h
      rw [isFolder_eq_true.mp (hm.isFolder_above (List.cons_ne_nil a r) h)]
      simp

omit [DecidableEq κ] in
theorem prefix_iff_eq_or_dropLast : q <+: p ↔ q = p ∨ q <+: p.dropLast := by
  rcases List.eq_nil_or_concat p with hp | ⟨r, a, hp⟩
  · simp [hp]
  · rw [hp, List.concat_eq_append, List.dropLast_concat, List.prefix_concat_iff]

/-- A missing folder is made after its parent. -/
theorem makeFolders_of_none (hp : p ≠ []) (h : m p = none) :
    m.makeFolders p = Function.update (m.makeFolders p.dropLast) p (some .folder) := by
  funext q
  by_cases hq : q = p
  · subst hq
    simp [PathMap.makeFolders, h]
  · rw [Function.update_of_ne hq, PathMap.makeFolders, PathMap.makeFolders]
    simp only [prefix_iff_eq_or_dropLast (p := p), hq, false_or]

/-- Calls keep a store a tree. -/
theorem Tree.call (hm : m.Tree) {c : Call (List κ) β} (h : Admissible m c) : (m.call c).1.Tree := by
  unfold PathMap.call
  cases hop : c.op with
  | create folder createDirectories =>
      simp only [PathMap.create]
      by_cases hc : ((m c.path).isNone && isFolder (m.prepare c.path createDirectories c.path.dropLast)) = true
      · rw [if_pos hc]
        rw [Bool.and_eq_true, Option.isNone_iff_eq_none] at hc
        apply (hm.prepare fun hcd => h.folders (by rw [hop]; exact hcd)).update h.path hc.2
        rw [prepare_self h.path, hc.1]
        rfl
      · rw [if_neg hc]
        exact hm
  | write data createDirectories overwrite =>
      simp only [PathMap.write]
      cases hp : m c.path with
      | none =>
          simp only
          split_ifs with hc
          · apply (hm.prepare fun hcd => h.folders (by rw [hop]; exact hcd)).update h.path hc
            rw [prepare_self h.path, hp]
            rfl
          · exact hm
      | some e =>
          cases e with
          | folder => exact hm
          | file old =>
              apply hm.update h.path (hm.isFolder_dropLast h.path (by rw [hp]; rfl))
              rw [hp]
              rfl
  | read data offset => exact hm
  | fileExists => exact hm
  | remove =>
      simp only [PathMap.remove]
      split_ifs
      · exact hm.remove c.path
      · exact hm

end

end PathMap

end DistributedSns.Lib
