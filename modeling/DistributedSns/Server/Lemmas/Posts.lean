import DistributedSns.FSWrapper.Lemmas.Split
import DistributedSns.Server.Lemmas.Lines

/-!
# The entries of the posts file

The posts file is made of paragraphs: a few lines and a blank line. `splitString` moves only one character past the
blank line's delimiter, so the newline which is left over stands before the next paragraph, and one stands alone
at the end.
-/

namespace DistributedSns.Server

open FSWrapper (findFrom findFrom_add pieces pieces_of_some pieces_of_none pieces_char splitString splitString_eq
  substr pushToken)
open SNSServer

/-! ## Paragraphs -/

structure Paragraph (p : List Str) : Prop where
  ne_nil : p ≠ []
  lines : ∀ line ∈ p, line ≠ [] ∧ '\n' ∉ line

def paragraphs (ps : List (List Str)) : Str := ps.flatMap fun p => unlines p ++ ['\n']

theorem paragraphs_concat (ps : List (List Str)) (p : List Str) :
    paragraphs (ps ++ [p]) = paragraphs ps ++ (unlines p ++ ['\n']) := by
  simp [paragraphs]

/-- No two newlines stand next to each other. -/
abbrev Gapless (s : Str) : Prop := s.IsChain fun a b => a = '\n' → b ≠ '\n'

theorem Gapless.of_not_mem {s : Str} (h : '\n' ∉ s) : Gapless s := by
  induction s with
  | nil => exact .nil
  | cons c s ih =>
      have hs : '\n' ∉ s := fun hm => h (List.mem_cons_of_mem _ hm)
      refine (ih hs).cons fun b hb _ => ?_
      rintro rfl
      exact hs (List.mem_of_mem_head? hb)

/-- A newline may be put before a text which does not begin with one. -/
theorem Gapless.newline_cons {s : Str} (h : Gapless s) (hs : s.head? ≠ some '\n') : Gapless ('\n' :: s) := by
  refine h.cons fun b hb _ => ?_
  rintro rfl
  exact hs hb

theorem Gapless.line_append {line s : Str} (hline : '\n' ∉ line) (hs : Gapless s) : Gapless (line ++ s) := by
  apply (Gapless.of_not_mem hline).append hs
  rintro a ha b - rfl
  exact absurd (List.mem_of_mem_getLast? ha) hline

theorem head?_unlines {line : Str} (hne : line ≠ []) (hline : '\n' ∉ line) (lines : List Str) :
    (unlines (line :: lines)).head? ≠ some '\n' := by
  cases line with
  | nil => exact absurd rfl hne
  | cons c line =>
      have hc : '\n' ≠ c := fun h => hline (h ▸ List.mem_cons_self)
      simpa [unlines] using Ne.symm hc

theorem Paragraph.head? {p : List Str} (h : Paragraph p) : (unlines p).head? ≠ some '\n' := by
  cases p with
  | nil => exact absurd rfl h.ne_nil
  | cons line lines =>
      obtain ⟨hne, hline⟩ := h.lines line List.mem_cons_self
      exact head?_unlines hne hline lines

theorem gapless_unlines {p : List Str} (h : ∀ line ∈ p, line ≠ [] ∧ '\n' ∉ line) : Gapless (unlines p) := by
  induction p with
  | nil => exact .nil
  | cons line lines ih =>
      have hcons : unlines (line :: lines) = line ++ '\n' :: unlines lines := by simp [unlines]
      rw [hcons]
      apply Gapless.line_append (h line List.mem_cons_self).2
      have hrest := ih fun l hl => h l (List.mem_cons_of_mem _ hl)
      cases lines with
      | nil => exact .singleton _
      | cons line' lines =>
          obtain ⟨hne, hline⟩ := h line' (by simp)
          exact hrest.newline_cons (head?_unlines hne hline lines)

/-- In a text without gaps the first blank line is that which follows it. -/
theorem findFrom_gapless {s : Str} (h : Gapless (s ++ ['\n'])) (rest : Str) :
    findFrom ['\n', '\n'] (s ++ '\n' :: '\n' :: rest) 0 = some s.length := by
  induction s with
  | nil => simp [findFrom]
  | cons c s ih =>
      have hno : ¬ ['\n', '\n'] <+: c :: (s ++ '\n' :: '\n' :: rest) := by
        rw [List.cons_prefix_cons]
        rintro ⟨rfl, hprefix⟩
        cases s with
        | nil => exact List.isChain_pair.mp h rfl rfl
        | cons d s =>
            rw [List.cons_append, List.cons_prefix_cons] at hprefix
            exact (List.isChain_cons_cons.mp h).1 rfl hprefix.1.symm
      rw [List.cons_append, findFrom, if_neg (by rwa [List.isPrefixOf_iff_prefix]), findFrom_add, ih h.tail]
      simp

/-! ## Reading the paragraphs back -/

theorem splitOn_newline {p : List Str} (h : ∀ line ∈ p, line ≠ [] ∧ '\n' ∉ line) :
    ((unlines p).splitOn '\n').filter (· ≠ []) = p := by
  induction p with
  | nil => simp [unlines]
  | cons line lines ih =>
      obtain ⟨hne, hline⟩ := h line List.mem_cons_self
      have hcons : unlines (line :: lines) = line ++ '\n' :: unlines lines := by simp [unlines]
      rw [hcons, List.splitOn_append_cons_self, List.splitOn_eq_singleton hline, List.filter_append,
        ih fun l hl => h l (List.mem_cons_of_mem _ hl)]
      simp [hne]

/-- What `splitString` makes of the text of a paragraph without its last newline, and with or without one before. -/
theorem pieces_body {p : List Str} (h : Paragraph p) {body : Str} (hbody : unlines p = body ++ ['\n']) :
    pieces ['\n'] body = p ∧ pieces ['\n'] ('\n' :: body) = p := by
  have hp : (body.splitOn '\n').filter (· ≠ []) = p := by
    rw [← splitOn_newline h.lines, hbody, List.splitOn_append_cons_self]
    simp
  constructor
  · rw [pieces_char, hp]
  · rw [pieces_char, ← List.nil_append ('\n' :: body), List.splitOn_append_cons_self, List.filter_append, hp]
    simp

theorem Paragraph.body {p : List Str} (h : Paragraph p) : ∃ body, body ≠ [] ∧ unlines p = body ++ ['\n'] := by
  rcases List.eq_nil_or_concat p with hnil | ⟨lines, line, hp⟩
  · exact absurd hnil h.ne_nil
  · subst hp
    have hline := (h.lines line (by simp)).1
    refine ⟨unlines lines ++ line, by simp [hline], ?_⟩
    rw [List.concat_eq_append, unlines_concat, List.append_assoc]

/-- The scan leaves one newline of a blank line. -/
theorem pieces_blank {s : Str} (hs : s ≠ []) (h : Gapless (s ++ ['\n'])) (rest : Str) :
    pieces ['\n', '\n'] (s ++ '\n' :: '\n' :: rest) = s :: pieces ['\n', '\n'] ('\n' :: rest) := by
  have hdrop : (s ++ '\n' :: '\n' :: rest).drop (s.length + 1) = '\n' :: rest := by
    rw [List.drop_append]
    simp
  rw [pieces_of_some (by simp) (findFrom_gapless h rest), hdrop, List.take_left, pushToken, if_pos hs]
  rfl

/-- Every paragraph is read as one token; the last newline makes an empty one. -/
theorem pieces_newline_paragraphs {ps : List (List Str)} (h : ∀ p ∈ ps, Paragraph p) :
    (pieces ['\n', '\n'] ('\n' :: paragraphs ps)).map (pieces ['\n']) = ps ++ [[]] := by
  induction ps with
  | nil =>
      have hlast : pieces ['\n', '\n'] ['\n'] = [['\n']] := pieces_of_none (by decide)
      have hnone : pieces ['\n'] ['\n'] = [] := by
        rw [pieces_char]
        decide
      rw [paragraphs, List.flatMap_nil, hlast, List.map_singleton, hnone]
      rfl
  | cons p ps ih =>
      have hp := h p List.mem_cons_self
      obtain ⟨body, hne, hbody⟩ := hp.body
      have htext : '\n' :: paragraphs (p :: ps) = ('\n' :: body) ++ '\n' :: '\n' :: paragraphs ps := by
        simp [paragraphs, hbody]
      have hgap : Gapless (('\n' :: body) ++ ['\n']) := by
        rw [List.cons_append, ← hbody]
        exact (gapless_unlines hp.lines).newline_cons hp.head?
      rw [htext, pieces_blank (List.cons_ne_nil _ _) hgap, List.map_cons, (pieces_body hp hbody).2,
        ih fun q hq => h q (List.mem_cons_of_mem _ hq)]
      rfl

theorem pieces_paragraphs {p : List Str} {ps : List (List Str)} (h : ∀ q ∈ p :: ps, Paragraph q) :
    (pieces ['\n', '\n'] (paragraphs (p :: ps))).map (pieces ['\n']) = p :: ps ++ [[]] := by
  have hp := h p List.mem_cons_self
  obtain ⟨body, hne, hbody⟩ := hp.body
  have htext : paragraphs (p :: ps) = body ++ '\n' :: '\n' :: paragraphs ps := by
    simp [paragraphs, hbody]
  have hgap : Gapless (body ++ ['\n']) := by
    rw [← hbody]
    exact gapless_unlines hp.lines
  rw [htext, pieces_blank hne hgap, List.map_cons, (pieces_body hp hbody).1,
    pieces_newline_paragraphs fun q hq => h q (List.mem_cons_of_mem _ hq)]
  rfl

end DistributedSns.Server
