import DistributedSns.FSWrapper.Local
import DistributedSns.Server.Replay

/-!
# The lines of the userinfo file

A log line is split into the words it was made of, and a text made of lines is split into these lines.
-/

namespace DistributedSns.Server

open SNSServer

/-! ## Reading lines -/

theorem getlines_append {delim : Char} {line : Str} (h : delim ∉ line) (s : Str) :
    getlines delim (line ++ delim :: s) = line :: getlines delim s := by
  induction line with
  | nil => simp [getlines]
  | cons c line ih =>
      have hc : c ≠ delim := fun he => h (by simp [he])
      have hline : delim ∉ line := fun hm => h (List.mem_cons_of_mem _ hm)
      rw [List.cons_append, getlines, if_neg hc, ih hline]

theorem getlines_single {delim : Char} {line : Str} (h : delim ∉ line) (hne : line ≠ []) :
    getlines delim line = [line] := by
  induction line with
  | nil => exact absurd rfl hne
  | cons c line ih =>
      have hc : c ≠ delim := fun he => h (by simp [he])
      have hline : delim ∉ line := fun hm => h (List.mem_cons_of_mem _ hm)
      rw [getlines, if_neg hc]
      cases line with
      | nil => rfl
      | cons d line => rw [ih hline (List.cons_ne_nil _ _)]

theorem not_mem_of_mem_getlines {delim : Char} {s line : Str} (h : line ∈ getlines delim s) : delim ∉ line := by
  induction s generalizing line with
  | nil => cases h
  | cons c s ih =>
      rw [getlines] at h
      split_ifs at h with hc
      · rcases List.mem_cons.mp h with rfl | h
        · exact List.not_mem_nil
        · exact ih h
      · cases hs : getlines delim s with
        | nil =>
            rw [hs, List.mem_singleton] at h
            simpa [h] using Ne.symm hc
        | cons line' lines =>
            rw [hs] at h ih
            rcases List.mem_cons.mp h with rfl | h
            · simpa using ⟨Ne.symm hc, ih List.mem_cons_self⟩
            · exact ih (List.mem_cons_of_mem _ h)

theorem getlines_ne_nil {delim : Char} {s : Str} (h : s ≠ []) : getlines delim s ≠ [] := by
  cases s with
  | nil => exact absurd rfl h
  | cons c s =>
      rw [getlines]
      split_ifs
      · exact List.cons_ne_nil _ _
      · cases getlines delim s <;> exact List.cons_ne_nil _ _

theorem getlines_intercalate {delim : Char} {word : Str} {words : List Str} (h : ∀ w ∈ word :: words, delim ∉ w) :
    getlines delim ([delim].intercalate (word :: words)) = word :: words ↔ (word :: words).getLast? ≠ some [] := by
  induction words generalizing word with
  | nil =>
      have hword := h word List.mem_cons_self
      rw [List.intercalate_singleton]
      by_cases hne : word = []
      · simp [hne, getlines]
      · simp [getlines_single hword hne, hne]
  | cons word' words ih =>
      rw [List.intercalate_cons_cons, List.append_assoc, List.singleton_append,
        getlines_append (h word List.mem_cons_self), List.getLast?_cons_cons,
        ← ih fun w hw => h w (List.mem_cons_of_mem _ hw)]
      simp

/-- Words joined by the delimiter are read back if none has the delimiter in it and the last one is not empty. -/
theorem getlines_intercalate_iff {delim : Char} {word : Str} {words : List Str} :
    getlines delim ([delim].intercalate (word :: words)) = word :: words ↔
      (∀ w ∈ word :: words, delim ∉ w) ∧ (word :: words).getLast? ≠ some [] := by
  constructor
  · intro h
    have hwords : ∀ w ∈ word :: words, delim ∉ w := by
      intro w hw
      rw [← h] at hw
      exact not_mem_of_mem_getlines hw
    exact ⟨hwords, (getlines_intercalate hwords).mp h⟩
  · rintro ⟨hwords, hlast⟩
    exact (getlines_intercalate hwords).mpr hlast

theorem mem_intercalate {delim c : Char} (hc : c ≠ delim) {words : List Str} :
    c ∈ [delim].intercalate words ↔ ∃ w ∈ words, c ∈ w := by
  cases words with
  | nil => simp
  | cons word words =>
      induction words generalizing word with
      | nil => simp
      | cons word' words ih =>
          rw [List.intercalate_cons_cons, List.mem_append, ih]
          simp [hc]

/-- The loop of `FSLocal::read` gives the lines of the text, each with its newline. -/
theorem readLoop_eq_readLines {line : Str} (h : '\n' ∉ line) (text : Str) :
    FSWrapper.FSLocal.readLoop line text = readLines (line ++ text) := by
  induction text generalizing line with
  | nil =>
      rw [FSWrapper.FSLocal.readLoop, List.append_nil, readLines]
      split_ifs with hnil
      · subst hnil
        rfl
      · rw [getlines_single h hnil]
        simp
  | cons c text ih =>
      rw [FSWrapper.FSLocal.readLoop]
      split_ifs with hc
      · subst hc
        rw [ih List.not_mem_nil, readLines, readLines, getlines_append h, List.flatMap_cons]
        rfl
      · rw [ih (by simp [h, Ne.symm hc])]
        simp

/-- The text of a file with the given lines. -/
def unlines (lines : List Str) : Str := lines.flatMap (· ++ ['\n'])

theorem unlines_concat (lines : List Str) (line : Str) :
    unlines (lines ++ [line]) = unlines lines ++ (line ++ ['\n']) := by
  simp [unlines]

theorem getlines_unlines {lines : List Str} (h : ∀ line ∈ lines, '\n' ∉ line) :
    getlines '\n' (unlines lines) = lines := by
  induction lines with
  | nil => rfl
  | cons line lines ih =>
      have hcons : unlines (line :: lines) = line ++ '\n' :: unlines lines := by simp [unlines]
      rw [hcons, getlines_append (h line List.mem_cons_self), ih fun l hl => h l (List.mem_cons_of_mem _ hl)]

/-! ## Words -/

/-- A word of a log line. -/
structure Word (w : Str) : Prop where
  ne_nil : w ≠ []
  space : ' ' ∉ w
  newline : '\n' ∉ w

theorem word_iff {w : Str} : Word w ↔ w ≠ [] ∧ ' ' ∉ w ∧ '\n' ∉ w :=
  ⟨fun h => ⟨h.ne_nil, h.space, h.newline⟩, fun h => ⟨h.1, h.2.1, h.2.2⟩⟩

theorem Word.str (n : Int) : Word (str n) := by
  constructor
  · exact str_ne_nil n
  · exact not_mem_str (by decide) (by decide) n
  · exact not_mem_str (by decide) (by decide) n

theorem Word.append {v w : Str} (hv : Word v) (hw : Word w) : Word (v ++ w) := by
  constructor
  · simp [hv.ne_nil]
  · simp [hv.space, hw.space]
  · simp [hv.newline, hw.newline]

theorem Word.timestampToStr {tz : TimeZone} {t : Timestamp} {text : Str}
    (h : timestampToStr tz t = .ok text) : Word text := by
  have hsep (c : Char) (hs : c ≠ ' ') (hn : c ≠ '\n') : Word [c] := by
    constructor
    · exact List.cons_ne_nil _ _
    · simpa using hs.symm
    · simpa using hn.symm
  obtain ⟨tm, -, h⟩ := bind_eq_ok.mp h
  split_ifs at h
  cases h
  have hminus := hsep '-' (by decide) (by decide)
  have hT := hsep 'T' (by decide) (by decide)
  have hcolon := hsep ':' (by decide) (by decide)
  exact ((((((((((Word.str _).append hminus).append (.str _)).append hminus).append (.str _)).append hT).append
    (.str _)).append hcolon).append (.str _)).append hcolon).append (.str _)

section

variable {a b text : Str}

theorem split_two (hop : ' ' ∉ a) (hb : Word b) : split (a ++ [' '] ++ b) ' ' = [a, b] := by
  rw [split, List.append_assoc, List.singleton_append, getlines_append hop,
    getlines_single hb.space hb.ne_nil]

theorem split_user {u : Str} (hu : Word u) : split (USER ++ [' '] ++ u) ' ' = [USER, u] :=
  split_two (by decide) hu

theorem split_unfollow (ha : Word a) (hb : Word b) :
    split (UNFOLLOW ++ [' '] ++ a ++ [' '] ++ b) ' ' = [UNFOLLOW, a, b] := by
  have hassoc : UNFOLLOW ++ [' '] ++ a ++ [' '] ++ b = UNFOLLOW ++ ' ' :: (a ++ [' '] ++ b) := by simp
  rw [hassoc, split, getlines_append (by decide)]
  exact congrArg _ (split_two ha.space hb)

theorem split_follow (ha : Word a) (hb : Word b) (ht : Word text) :
    split (FOLLOW ++ [' '] ++ a ++ [' '] ++ b ++ [' '] ++ text) ' ' = [FOLLOW, a, b, text] := by
  have hassoc : FOLLOW ++ [' '] ++ a ++ [' '] ++ b ++ [' '] ++ text =
      FOLLOW ++ ' ' :: (a ++ ' ' :: (b ++ [' '] ++ text)) := by simp
  rw [hassoc, split, getlines_append (by decide), getlines_append ha.space]
  exact congrArg (fun l => _ :: _ :: l) (split_two hb.space ht)

theorem newline_user {u : Str} (hu : Word u) : '\n' ∉ USER ++ [' '] ++ u := by
  have hop : '\n' ∉ USER := by decide
  simp [hop, hu.newline]

theorem newline_follow (ha : Word a) (hb : Word b) (ht : Word text) :
    '\n' ∉ FOLLOW ++ [' '] ++ a ++ [' '] ++ b ++ [' '] ++ text := by
  have hop : '\n' ∉ FOLLOW := by decide
  simp [hop, ha.newline, hb.newline, ht.newline]

theorem newline_unfollow (ha : Word a) (hb : Word b) : '\n' ∉ UNFOLLOW ++ [' '] ++ a ++ [' '] ++ b := by
  have hop : '\n' ∉ UNFOLLOW := by decide
  simp [hop, ha.newline, hb.newline]

end

/-! ## One line -/

/-- Split by newlines and then by spaces, the text is one line with these words. -/
def ReadsAs (text : Str) (words : List Str) : Prop := (getlines '\n' text).map (split · ' ') = [words]

instance (text : Str) (words : List Str) : Decidable (ReadsAs text words) :=
  inferInstanceAs (Decidable (_ = _))

/-- A text with a newline before its end has more than one line. -/
theorem getlines_ne_singleton {text : Str} (h : '\n' ∈ text) (line : Str) : getlines '\n' (text ++ ['\n']) ≠ [line] := by
  obtain ⟨before, after, rfl, hbefore⟩ := List.eq_append_cons_of_mem h
  rw [List.append_assoc, List.cons_append, getlines_append hbefore]
  intro he
  exact getlines_ne_nil (by simp) (List.cons.inj he).2

theorem readsAs_iff {word : Str} {words : List Str} :
    ReadsAs ([' '].intercalate (word :: words) ++ ['\n']) (word :: words) ↔
      (∀ w ∈ word :: words, ' ' ∉ w ∧ '\n' ∉ w) ∧ (word :: words).getLast? ≠ some [] := by
  have hnewline : '\n' ∉ [' '].intercalate (word :: words) ↔ ∀ w ∈ word :: words, '\n' ∉ w := by
    rw [mem_intercalate (by decide)]
    simp
  by_cases hline : '\n' ∈ [' '].intercalate (word :: words)
  · apply iff_of_false
    · intro h
      obtain ⟨line, hlines, -⟩ := List.map_eq_singleton_iff.mp h
      exact getlines_ne_singleton hline line hlines
    · rintro ⟨hwords, -⟩
      exact hnewline.mpr (fun w hw => (hwords w hw).2) hline
  · rw [ReadsAs, getlines_append hline, getlines, List.map_singleton, List.cons.injEq, split, getlines_intercalate_iff,
      eq_self_iff_true, and_true]
    apply and_congr_left'
    exact forall₂_congr fun w hw => (and_iff_left (hnewline.mp hline w hw)).symm

end DistributedSns.Server
