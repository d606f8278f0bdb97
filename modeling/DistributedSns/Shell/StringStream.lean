import DistributedSns.Basic

/-!
# `std::stringstream` as a source of characters

An unformatted input function first makes sure that the stream is good, and sets `failbit` if it is not. That the end
has been reached is noticed by looking behind the last character only.
-/

namespace DistributedSns.Shell

structure StringStream where
  text : Str
  pos : Nat := 0
  eofbit : Bool := false
  failbit : Bool := false
  deriving DecidableEq

namespace StringStream

def good (ss : StringStream) : Bool := !ss.eofbit && !ss.failbit

/-- What an input function leaves of a stream which is not good. -/
def fail (ss : StringStream) : StringStream := { ss with failbit := true }

/-- `ss.peek()`; `none` is `EOF`. -/
def peek (ss : StringStream) : StringStream × Option Char :=
  if ss.good then
    match ss.text[ss.pos]? with
    | some c => (ss, some c)
    | none => ({ ss with eofbit := true }, none)
  else (ss.fail, none)

/-- `ss.get()`. -/
def get (ss : StringStream) : StringStream × Option Char :=
  if ss.good then
    match ss.text[ss.pos]? with
    | some c => ({ ss with pos := ss.pos + 1 }, some c)
    | none => ({ ss with eofbit := true, failbit := true }, none)
  else (ss.fail, none)

/-- `ss.tellg()`. -/
def tellg (ss : StringStream) : StringStream × Int := if ss.good then (ss, ss.pos) else (ss.fail, -1)

/-- `ss.seekg(pos)`, which forgets that the end has been reached. -/
def seekg (ss : StringStream) (pos : Int) : StringStream :=
  let ss := { ss with eofbit := false }
  if ss.good then
    if 0 ≤ pos ∧ pos ≤ ss.text.length then { ss with pos := pos.toNat } else ss.fail
  else ss.fail

/-- `getline(ss, s, delim)` for an empty `s`. The delimiter is taken out of the stream; at the end of the stream it is
an error if there are no characters left. -/
def getline (ss : StringStream) (delim : Char) : StringStream × Str :=
  if ss.good then
    let rest := ss.text.drop ss.pos
    let s := rest.takeWhile (· ≠ delim)
    if s.length < rest.length then ({ ss with pos := ss.pos + s.length + 1 }, s)
    else ({ ss with pos := ss.text.length, eofbit := true, failbit := rest.isEmpty }, s)
  else (ss.fail, [])

/-! ## A stream in the middle of its text -/

/-- A good stream which has read `before` and has `rest` left. -/
def mid (before rest : Str) : StringStream := { text := before ++ rest, pos := before.length }

/-- A stream which has noticed the end of its text. -/
def atEnd (text : Str) : StringStream := { text, pos := text.length, eofbit := true }

variable {before rest s : Str} {c delim : Char}

theorem mid_nil (text : Str) : mid [] text = { text } := rfl

@[simp] theorem good_mid : (mid before rest).good = true := rfl

@[simp] theorem peek_mid_cons : (mid before (c :: rest)).peek = (mid before (c :: rest), some c) := by
  simp [peek, mid, good]

@[simp] theorem peek_mid_nil : (mid before []).peek = (atEnd before, none) := by
  simp [peek, mid, good, atEnd]

@[simp] theorem peek_atEnd : (atEnd s).peek = ((atEnd s).fail, none) := rfl

@[simp] theorem failbit_mid : (mid before rest).failbit = false := rfl

@[simp] theorem failbit_atEnd : (atEnd s).failbit = false := rfl

@[simp] theorem failbit_fail (ss : StringStream) : ss.fail.failbit = true := rfl

@[simp] theorem get_mid_cons : (mid before (c :: rest)).get = (mid (before ++ [c]) rest, some c) := by
  simp [get, mid, good]

/-- `ss.seekg(ss.tellg() + pos1)`. -/
def skip (ss : StringStream) : StringStream :=
  let (ss, pos) := ss.tellg
  ss.seekg (pos + 1)

theorem seekg_mid {n : Nat} (h : n ≤ (before ++ rest).length) :
    (mid before rest).seekg n = { text := before ++ rest, pos := n } := by
  have hrange : (0 : Int) ≤ n ∧ (n : Int) ≤ (before ++ rest).length := by omega
  simp only [seekg, mid, good, Bool.not_false, Bool.and_self, ↓reduceIte, hrange, and_self, Int.toNat_natCast]

@[simp] theorem skip_mid_cons : (mid before (c :: rest)).skip = mid (before ++ [c]) rest := by
  have htell : (mid before (c :: rest)).tellg = (mid before (c :: rest), (before.length : Int)) := rfl
  have hseek : (mid before (c :: rest)).seekg ((before.length + 1 : ℕ) : Int) =
      { text := before ++ c :: rest, pos := before.length + 1 } := seekg_mid (by simp)
  rw [Int.natCast_add, Int.natCast_one] at hseek
  simp only [skip, htell, hseek]
  simp [mid]

/-- Once the end has been noticed there is no way on. -/
theorem failbit_skip {ss : StringStream} (h : ss.good = false) : ss.skip.failbit = true := by
  have hfail : ss.tellg = (ss.fail, -1) := by simp [tellg, h]
  simp [skip, hfail, seekg, good, fail]

theorem takeWhile_quoted (h : delim ∉ s) (rest : Str) :
    (s ++ delim :: rest).takeWhile (· ≠ delim) = s := by
  rw [List.takeWhile_append_of_pos]
  · simp
  · intro a ha
    simpa using fun (he : a = delim) => h (he ▸ ha)

theorem getline_mid_quoted (h : delim ∉ s) :
    (mid before (s ++ delim :: rest)).getline delim = (mid (before ++ s ++ [delim]) rest, s) := by
  have hdrop : (mid before (s ++ delim :: rest)).text.drop (mid before (s ++ delim :: rest)).pos = s ++ delim :: rest :=
    List.drop_left
  have hlen : s.length < (s ++ delim :: rest).length := by
    simp only [List.length_append, List.length_cons]
    omega
  simp only [getline, good_mid, ↓reduceIte, hdrop, takeWhile_quoted h, if_pos hlen]
  simp [mid]
  omega

@[simp] theorem getline_mid_nil : (mid before []).getline delim = ((atEnd before).fail, []) := by
  simp [getline, mid, good, atEnd, fail]

theorem getline_mid_end (h : delim ∉ s) (hne : s ≠ []) :
    (mid before s).getline delim = (atEnd (before ++ s), s) := by
  have hall : s.takeWhile (· ≠ delim) = s := by
    rw [List.takeWhile_eq_self_iff]
    intro a ha
    simpa using fun (he : a = delim) => h (he ▸ ha)
  have hempty : s.isEmpty = false := by simpa using hne
  simp only [getline, mid, good, Bool.not_false, Bool.and_self, ↓reduceIte, List.drop_left, hall, lt_irrefl, atEnd,
    hempty]

end StringStream

end DistributedSns.Shell
