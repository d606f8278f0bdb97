import DistributedSns.Shell.Model

/-!
# Command lines and their tokens

A word is written as pieces, some of them in quotes, and stands for the text of its pieces. Every input is made of
words with one separator between two of them, where a quote may be left open at the end. A separator is a space, or the
character which is taken for the end of the input.
-/

namespace DistributedSns.Shell

open StringStream

/-! ## Command lines -/

def IsSeparator (c : Char) : Prop := c = EOF ∨ c = ' '

instance : DecidablePred IsSeparator := fun c => inferInstanceAs (Decidable (c = EOF ∨ c = ' '))

structure Piece where
  quoted : Bool
  text : Str
  quote : '"' ∉ text
  bare : quoted = false → ∀ c ∈ text, ¬ IsSeparator c

abbrev Word := List Piece

def Piece.written (p : Piece) : Str := if p.quoted then ['"'] ++ p.text ++ ['"'] else p.text

def Word.written (w : Word) : Str := w.flatMap Piece.written

def Word.meaning (w : Word) : Str := w.flatMap (·.text)

inductive Line where
  /-- the last word, and the text behind a quote which is not closed -/
  | last (w : Word) (unclosed : Option { q : Str // '"' ∉ q })
  | cons (w : Word) (separator : { c : Char // IsSeparator c }) (l : Line)

namespace Line

def written : Line → Str
  | last w none => w.written
  | last w (some q) => w.written ++ '"' :: q
  | cons w separator l => w.written ++ separator.1 :: l.written

def tokens : Line → List Str
  | last w none => [w.meaning]
  | last w (some q) => [w.meaning ++ q]
  | cons w _ l => w.meaning :: l.tokens

/-- The line with a piece in front of it. -/
def addPiece (p : Piece) : Line → Line
  | last w unclosed => last (p :: w) unclosed
  | cons w separator l => cons (p :: w) separator l

theorem written_addPiece (p : Piece) (l : Line) : (l.addPiece p).written = p.written ++ l.written := by
  cases l with
  | cons w separator l => simp [addPiece, written, Word.written]
  | last w unclosed => cases unclosed <;> simp [addPiece, written, Word.written]

/-- Every input is the text of a command line. -/
theorem exists_line (s : Str) : ∃ l : Line, l.written = s := by
  induction hn : s.length using Nat.strong_induction_on generalizing s with
  | _ n ih =>
      cases s with
      | nil => exact ⟨.last [] none, rfl⟩
      | cons c s =>
          by_cases hseparator : IsSeparator c
          · obtain ⟨l, hl⟩ := ih s.length (by rw [← hn, List.length_cons]; omega) s rfl
            exact ⟨.cons [] ⟨c, hseparator⟩ l, by rw [← hl]; rfl⟩
          by_cases hquote : c = '"'
          · subst hquote
            by_cases hclosed : '"' ∈ s
            · obtain ⟨q, r, rfl, hq⟩ := List.eq_append_cons_of_mem hclosed
              have hshorter : r.length < n := by
                rw [← hn]
                simp only [List.length_cons, List.length_append]
                omega
              obtain ⟨l, hl⟩ := ih r.length hshorter r rfl
              refine ⟨l.addPiece ⟨true, q, hq, nofun⟩, ?_⟩
              rw [written_addPiece, hl]
              simp [Piece.written]
            · exact ⟨.last [] (some ⟨s, hclosed⟩), rfl⟩
          · obtain ⟨l, hl⟩ := ih s.length (by rw [← hn, List.length_cons]; omega) s rfl
            refine ⟨l.addPiece ⟨false, [c], by simpa using Ne.symm hquote, fun _ => by simpa using hseparator⟩, ?_⟩
            rw [written_addPiece, hl]
            rfl

end Line

/-! ## One token -/

/-- The loop in the middle of the text. -/
def scan (fuel : Nat) (before rest output : Str) : Except Fault (StringStream × Str) :=
  getLineQuotesLoop ' ' fuel (peekChar (mid before rest)).1 (peekChar (mid before rest)).2 output

section

variable {fuel : Nat} {before rest output q : Str} {c : Char}

theorem peekChar_cons : peekChar (mid before (c :: rest)) = (mid before (c :: rest), c) := by
  rw [peekChar, peek_mid_cons]
  rfl

theorem peekChar_nil : peekChar (mid before []) = (atEnd before, EOF) := by
  rw [peekChar, peek_mid_nil]
  rfl

theorem scan_end : scan (fuel + 1) before [] output = .ok (atEnd before, output) := by
  simp [scan, getLineQuotesLoop, peekChar_nil]

theorem scan_separator (h : IsSeparator c) :
    scan (fuel + 1) before (c :: rest) output = .ok (mid before (c :: rest), output) := by
  have hends : c = EOF ∨ c = ' ' := h
  simp [scan, peekChar_cons, getLineQuotesLoop, hends]

theorem scan_char (hseparator : ¬ IsSeparator c) (hquote : c ≠ '"') :
    scan (fuel + 1) before (c :: rest) output = scan fuel (before ++ [c]) rest (output ++ [c]) := by
  have hgoes : ¬ (c = EOF ∨ c = ' ') := hseparator
  simp [scan, peekChar_cons, getLineQuotesLoop, hgoes, hquote]

theorem scan_quoted (hq : '"' ∉ q) :
    scan (fuel + 1) before ('"' :: (q ++ '"' :: rest)) output =
      scan fuel (before ++ ['"'] ++ q ++ ['"']) rest (output ++ q) := by
  simp [scan, peekChar_cons, getLineQuotesLoop, EOF, getline_mid_quoted hq]

/-- The loop with enough fuel. -/
def scanFrom (before rest output : Str) (r : Except Fault (StringStream × Str)) : Prop :=
  ∀ fuel, rest.length < fuel → scan fuel before rest output = r

theorem scanFrom.char {r : Except Fault (StringStream × Str)} (hseparator : ¬ IsSeparator c) (hquote : c ≠ '"')
    (h : scanFrom (before ++ [c]) rest (output ++ [c]) r) : scanFrom before (c :: rest) output r := by
  rintro (_ | fuel) hfuel
  · cases hfuel
  · rw [scan_char hseparator hquote]
    exact h fuel (by simpa using hfuel)

theorem scanFrom.bare {r : Except Fault (StringStream × Str)} {text : Str} (hbare : ∀ c ∈ text, ¬ IsSeparator c)
    (hquote : '"' ∉ text) (h : scanFrom (before ++ text) rest (output ++ text) r) : scanFrom before (text ++ rest) output r := by
  induction text generalizing before output with
  | nil => simpa using h
  | cons c text ih =>
      rw [List.forall_mem_cons] at hbare
      rw [List.mem_cons, not_or] at hquote
      refine .char hbare.1 (Ne.symm hquote.1) (ih hbare.2 hquote.2 ?_)
      simpa using h

theorem scanFrom.quoted {r : Except Fault (StringStream × Str)} (hq : '"' ∉ q)
    (h : scanFrom (before ++ ['"'] ++ q ++ ['"']) rest (output ++ q) r) :
    scanFrom before ('"' :: (q ++ '"' :: rest)) output r := by
  rintro (_ | fuel) hfuel
  · cases hfuel
  · rw [scan_quoted hq]
    simp only [List.length_cons, List.length_append] at hfuel
    exact h fuel (by omega)

/-- A quote which is not closed ends with the input. -/
theorem scanFrom_unclosed (hq : '"' ∉ q) (before output : Str) :
    ∃ ss, scanFrom before ('"' :: q) output (.ok (ss, output ++ q)) ∧ ss.good = false := by
  cases q with
  | nil =>
      refine ⟨(atEnd (before ++ ['"'])).fail, ?_, rfl⟩
      rintro (_ | fuel) hfuel
      · cases hfuel
      · simp [scan, getLineQuotesLoop, peekChar_cons, EOF]
  | cons c q =>
      refine ⟨(atEnd (before ++ ['"'] ++ c :: q)).fail, ?_, rfl⟩
      rintro (_ | _ | fuel) hfuel
      · cases hfuel
      · simp at hfuel
      · simp [scan, getLineQuotesLoop, peekChar, EOF, getline_mid_end hq (List.cons_ne_nil c q)]

theorem scanFrom.piece {r : Except Fault (StringStream × Str)} {p : Piece}
    (h : scanFrom (before ++ p.written) rest (output ++ p.text) r) :
    scanFrom before (p.written ++ rest) output r := by
  obtain ⟨quoted, text, hquote, hbare⟩ := p
  cases quoted with
  | false => exact .bare (hbare rfl) hquote h
  | true =>
      have hwritten : Piece.written ⟨true, text, hquote, hbare⟩ ++ rest = '"' :: (text ++ '"' :: rest) := by
        simp [Piece.written]
      rw [hwritten]
      refine .quoted hquote ?_
      simpa [Piece.written] using h

theorem scanFrom.word {r : Except Fault (StringStream × Str)} {w : Word}
    (h : scanFrom (before ++ w.written) rest (output ++ w.meaning) r) :
    scanFrom before (w.written ++ rest) output r := by
  induction w generalizing before output with
  | nil => simpa [Word.written, Word.meaning] using h
  | cons p w ih =>
      have hwritten : Word.written (p :: w) ++ rest = p.written ++ (Word.written w ++ rest) := by
        simp [Word.written]
      rw [hwritten]
      refine .piece (ih ?_)
      simpa [Word.written, Word.meaning] using h

end

/-! ## All tokens -/

section

variable {before rest : Str}

theorem getLineQuotes_mid {output : Str} {ss : StringStream} (h : scanFrom before rest [] (.ok (ss, output))) :
    getLineQuotes (mid before rest) ' ' = .ok (ss.skip, some output) := by
  have hfuel : rest.length < (peekChar (mid before rest)).1.text.length + 1 := by
    have htext : (peekChar (mid before rest)).1.text = before ++ rest := by
      cases rest with
      | nil => rw [peekChar_nil, List.append_nil]; rfl
      | cons c rest => rw [peekChar_cons]; rfl
    rw [htext, List.length_append]
    omega
  have hscan := h _ hfuel
  rw [scan] at hscan
  simp only [getLineQuotes, failbit_mid, Bool.false_eq_true, ↓reduceIte, hscan, ok_bind]
  rfl

/-- The token before a separator. -/
theorem getLineQuotes_separator (w : Word) {c : Char} (h : IsSeparator c) :
    getLineQuotes (mid before (w.written ++ c :: rest)) ' ' =
      .ok (mid (before ++ w.written ++ [c]) rest, some w.meaning) := by
  have hword : scanFrom before (w.written ++ c :: rest) []
      (.ok (mid (before ++ w.written) (c :: rest), w.meaning)) := by
    refine .word ?_
    rintro (_ | fuel) hfuel
    · cases hfuel
    · exact scan_separator h
  rw [getLineQuotes_mid hword, skip_mid_cons]

/-- The last token. -/
theorem getLineQuotes_last (w : Word) (unclosed : Option { q : Str // '"' ∉ q }) :
    ∃ ss t, getLineQuotes (mid before (Line.last w unclosed).written) ' ' = .ok (ss, some t) ∧
      (Line.last w unclosed).tokens = [t] ∧ ss.failbit = true := by
  obtain ⟨ss, t, hscan, htokens, hss⟩ : ∃ ss t, scanFrom before (Line.last w unclosed).written [] (.ok (ss, t)) ∧
      (Line.last w unclosed).tokens = [t] ∧ ss.good = false := by
    cases unclosed with
    | none =>
        refine ⟨atEnd (before ++ w.written), w.meaning, ?_, rfl, rfl⟩
        have hword : scanFrom before (w.written ++ []) [] (.ok (atEnd (before ++ w.written), w.meaning)) := by
          refine .word ?_
          rintro (_ | fuel) hfuel
          · cases hfuel
          · exact scan_end
        simpa [Line.written] using hword
    | some q =>
        obtain ⟨q, hq⟩ := q
        obtain ⟨ss, hscan, hss⟩ := scanFrom_unclosed hq (before ++ w.written) w.meaning
        exact ⟨ss, w.meaning ++ q, .word hscan, rfl, hss⟩
  exact ⟨ss.skip, t, getLineQuotes_mid hscan, htokens, failbit_skip hss⟩

end

/-- The tokens of a line are found one after the other. -/
theorem splitTokens_eq (l : Line) (fuel : Nat) (before : Str) (tokens : List Str)
    (hfuel : l.written.length + 2 ≤ fuel) :
    splitTokens fuel (mid before l.written) tokens = .ok (tokens ++ l.tokens) := by
  induction l generalizing fuel before tokens with
  | last w unclosed =>
      obtain ⟨ss, t, hlast, htokens, hss⟩ := @getLineQuotes_last before w unclosed
      obtain ⟨fuel, rfl⟩ : ∃ n, fuel = n + 2 := ⟨fuel - 2, by omega⟩
      have hnone : getLineQuotes ss ' ' = .ok (ss, none) := by rw [getLineQuotes, if_pos hss]
      rw [splitTokens, hlast, ok_bind, htokens]
      simp only [splitTokens, hnone, ok_bind]
      rfl
  | cons w separator l ih =>
      obtain ⟨fuel, rfl⟩ : ∃ n, fuel = n + 1 := ⟨fuel - 1, by omega⟩
      have hrest : l.written.length + 2 ≤ fuel := by
        simp only [Line.written, List.length_append, List.length_cons] at hfuel
        omega
      rw [Line.written, splitTokens, getLineQuotes_separator w separator.2, ok_bind]
      simp only [ih fuel _ _ hrest, Line.tokens, List.append_assoc, List.singleton_append]

/-- `split` returns for every input. The input is the text of a command line, and the tokens are what the words of any
such line mean: quotes are left out, and separators in quotes belong to the word. -/
theorem split_eq (input : Str) :
    (∃ l : Line, l.written = input) ∧ ∀ l : Line, l.written = input → split input = .ok l.tokens := by
  refine ⟨Line.exists_line input, ?_⟩
  rintro l rfl
  rw [split, ← mid_nil]
  exact splitTokens_eq l _ [] [] le_rfl

/-- An empty token before a space, a word with a quoted part, and a quote which is left open. -/
example : split " a\"b c\"d \"e f".toList = .ok ["".toList, "ab cd".toList, "e f".toList] := by decide +kernel

/-- A character is taken for the end of the input, but only outside of quotes. -/
example : split "a\xffb \"c\xffd\"".toList = .ok ["a".toList, "b".toList, "c\xffd".toList] := by decide +kernel

end DistributedSns.Shell
