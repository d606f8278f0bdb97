import DistributedSns.Server.Time

/-!
# Days, times of day and their texts

Days and dates correspond to each other, and the fields which `timestampToStr` writes are those which `get_time` reads.
-/

namespace DistributedSns.Server

/-! ## Calendar -/

/-- The year of the era to which a day of the era belongs. Years begin in March. -/
def yearOfEra (dayOfEra : Int) : Int := (dayOfEra - dayOfEra / 1460 + dayOfEra / 36524 - dayOfEra / 146096) / 365

section

variable {n : Int}

theorem yearOfEra_bounds (h₀ : 0 ≤ n) (h₁ : n < 146097) : 0 ≤ yearOfEra n ∧ yearOfEra n < 400 := by
  rw [yearOfEra]
  omega

/-- A century has a leap day less than every fourth year, but for the last one. -/
theorem century_yearOfEra (h₀ : 0 ≤ n) (h₁ : n < 146097) : yearOfEra n / 100 = n / 36524 - n / 146096 := by
  rw [yearOfEra]
  obtain h | h | h | h | h : n / 36524 = 0 ∨ n / 36524 = 1 ∨ n / 36524 = 2 ∨ n / 36524 = 3 ∨ n / 36524 = 4 := by
    omega
  all_goals
    rw [h]
    omega

theorem dayOfYear_bounds (h₀ : 0 ≤ n) (h₁ : n < 146097) {y : Int} (hy : yearOfEra n = y) :
    0 ≤ n - (365 * y + y / 4 - y / 100) ∧ n - (365 * y + y / 4 - y / 100) < 366 := by
  have hcentury := century_yearOfEra h₀ h₁
  rw [hy] at hcentury
  rw [hcentury]
  rw [yearOfEra] at hy
  constructor
  · omega
  · omega

end

/-- The date has the month and the day of a calendar. -/
structure Dated (month day : Int) : Prop where
  month : 1 ≤ month ∧ month ≤ 12
  day : 1 ≤ day ∧ day ≤ 31

theorem civilFromDays_spec (days : Int) :
    daysFromCivil (civilFromDays days).1 (civilFromDays days).2.1 (civilFromDays days).2.2 = days ∧
      Dated (civilFromDays days).2.1 (civilFromDays days).2.2 := by
  generalize hera : (days + 719468) / 146097 = era
  generalize hday : days + 719468 - era * 146097 = dayOfEra
  have h₀ : 0 ≤ dayOfEra := by omega
  have h₁ : dayOfEra < 146097 := by omega
  generalize hyear : yearOfEra dayOfEra = y
  have hy := hyear ▸ yearOfEra_bounds h₀ h₁
  have hbounds := dayOfYear_bounds h₀ h₁ hyear
  generalize hyday : dayOfEra - (365 * y + y / 4 - y / 100) = dayOfYear at hbounds
  have hm : 0 ≤ (5 * dayOfYear + 2) / 153 ∧ (5 * dayOfYear + 2) / 153 ≤ 11 := by omega
  rw [yearOfEra] at hyear
  simp only [civilFromDays, hera, hday, hyear, hyday]
  generalize hmonth : (5 * dayOfYear + 2) / 153 = m at hm ⊢
  generalize hcivil : (if m < 10 then m + 3 else m - 9) = month
  have hcycle : (y + era * 400) / 400 = era := by omega
  -- the year begins in March, so that January and February belong to the year before
  by_cases hlate : month ≤ 2
  · have hm' : month = m - 9 := by
      split_ifs at hcivil <;> omega
    have hearly : ¬ month > 2 := by omega
    refine ⟨?_, ?_, ?_⟩
    · simp only [daysFromCivil, hlate, hearly, ↓reduceIte, add_sub_cancel_right, hcycle]
      omega
    · omega
    · omega
  · have hm' : month = m + 3 := by
      split_ifs at hcivil <;> omega
    have hlate' : month > 2 := by omega
    refine ⟨?_, ?_, ?_⟩
    · simp only [daysFromCivil, hlate, hlate', ↓reduceIte, add_sub_cancel_right, add_zero, hcycle]
      omega
    · omega
    · omega

/-! ## Numbers -/

theorem foldl_digits {l : Str} (h : ∀ c ∈ l, c.isDigit = true) (m : Nat) :
    l.foldl (fun (n : Int) c => 10 * n + (c.toNat - '0'.toNat)) m = (Nat.ofDigitChars 10 l m : Nat) := by
  induction l generalizing m with
  | nil => rfl
  | cons c l ih =>
      have hc : '0'.toNat ≤ c.toNat := (Char.isDigit_iff_toNat.mp (h c List.mem_cons_self)).1
      have hstep : (10 * m + (c.toNat - '0'.toNat) : Int) = ((10 * m + (c.toNat - '0'.toNat) : Nat) : Int) := by
        omega
      rw [List.foldl_cons, hstep, ih fun d hd => h d (List.mem_cons_of_mem _ hd)]
      rfl

/-- A number is read as far as its digits go. -/
theorem getNum_str {digits : Nat} {least most n : Int} {rest : Str} (h₀ : 0 ≤ n) (hlen : n < 10 ^ digits)
    (hdigits : 0 < digits) (hleast : least ≤ n) (hmost : n ≤ most) (hrest : ∀ c ∈ rest.head?, c.isDigit = false) :
    getNum digits least most (str n ++ rest) = some (n, rest) := by
  obtain ⟨k, rfl⟩ := Int.eq_ofNat_of_zero_le h₀
  have hstr : str (k : Int) = Nat.toDigits 10 k := rfl
  have hall : ∀ c ∈ Nat.toDigits 10 k, c.isDigit = true := fun c hc =>
    Nat.isDigit_of_mem_toDigits (by decide) (by decide) hc
  have hshort : (Nat.toDigits 10 k).length ≤ digits := by
    rw [Nat.length_toDigits_le_iff (by decide) hdigits]
    exact_mod_cast hlen
  have hfield : ((Nat.toDigits 10 k ++ rest).take digits).takeWhile Char.isDigit = Nat.toDigits 10 k := by
    have hend : (rest.take (digits - (Nat.toDigits 10 k).length)).takeWhile Char.isDigit = [] := by
      cases rest with
      | nil => simp
      | cons c rest => cases digits - (Nat.toDigits 10 k).length <;> simp [hrest c rfl]
    rw [List.take_append, List.take_of_length_le hshort, List.takeWhile_append_of_pos hall, hend, List.append_nil]
  have hvalue : (Nat.toDigits 10 k).foldl (fun (n : Int) c => 10 * n + (c.toNat - '0'.toNat)) 0 = k := by
    rw [← Nat.cast_zero, foldl_digits hall, Nat.ofDigitChars_ten_toDigits]
  simp only [getNum, hstr, hfield, hvalue]
  simp [Nat.toDigits_ne_nil, hleast, hmost]

/-- A number begins with a digit. -/
theorem str_eq_cons {n : Int} (h₀ : 0 ≤ n) : ∃ c s, str n = c :: s ∧ isspace c = false := by
  obtain ⟨k, rfl⟩ := Int.eq_ofNat_of_zero_le h₀
  have hstr : str (k : Int) = Nat.toDigits 10 k := rfl
  obtain ⟨c, l, hl⟩ := List.exists_cons_of_ne_nil (Nat.toDigits_ne_nil (b := 10) (n := k))
  refine ⟨c, l, hstr.trans hl, ?_⟩
  have hc : c.isDigit = true := by
    apply Nat.isDigit_of_mem_toDigits (b := 10) (n := k) (by decide) (by decide)
    rw [hl]
    exact List.mem_cons_self
  rw [← Bool.not_eq_true]
  intro hspace
  simp only [isspace, Char.isWhitespace, Bool.or_eq_true, decide_eq_true_eq] at hspace
  rcases hspace with ((((rfl | rfl) | rfl) | rfl) | rfl) | rfl <;> exact absurd hc (by decide)

section

variable {fmt : List Conversion} {tm : Tm} {rest : Str}

theorem getTimeLoop_literal (c : Char) : getTimeLoop (.literal c :: fmt) (c :: rest) tm = getTimeLoop fmt rest tm := by
  rw [getTimeLoop, if_pos rfl]

/-- The number is read, and the loop goes on if there is more text. -/
theorem getTimeLoop_number {space : Bool} {digits : Nat} {least most n : Int} {set : Tm → Int → Tm} (h₀ : 0 ≤ n)
    (hnum : getNum digits least most (str n ++ rest) = some (n, rest)) :
    getTimeLoop (.number space digits least most set :: fmt) (str n ++ rest) tm =
      if rest = [] then some (set tm n) else getTimeLoop fmt rest (set tm n) := by
  obtain ⟨c, s, hs, hspace⟩ := str_eq_cons h₀
  rw [hs, List.cons_append] at hnum ⊢
  simp only [getTimeLoop, hspace, Bool.and_false, Bool.false_eq_true, ↓reduceIte, hnum, Option.bind_eq_bind,
    Option.bind_some]

end

/-! ## Broken-down times -/

/-- The fields which can be written and read. -/
structure Fields (tm : Tm) : Prop where
  year : 1000 ≤ tm.tm_year + 1900 ∧ tm.tm_year + 1900 ≤ 9999
  mon : 1 ≤ tm.tm_mon + 1 ∧ tm.tm_mon + 1 ≤ 12
  mday : 1 ≤ tm.tm_mday ∧ tm.tm_mday ≤ 31
  hour : 0 ≤ tm.tm_hour ∧ tm.tm_hour ≤ 23
  min : 0 ≤ tm.tm_min ∧ tm.tm_min ≤ 59
  sec : 0 ≤ tm.tm_sec ∧ tm.tm_sec ≤ 59

theorem getTime_str {tm : Tm} (h : Fields tm) :
    getTime (str (tm.tm_year + 1900) ++ ['-'] ++ str (tm.tm_mon + 1) ++ ['-'] ++ str tm.tm_mday ++ ['T'] ++
      str tm.tm_hour ++ [':'] ++ str tm.tm_min ++ [':'] ++ str tm.tm_sec) = some tm := by
  obtain ⟨hyear, hmon, hmday, hhour, hmin, hsec⟩ := h
  have year (rest : Str) : getNum 4 0 9999 (str (tm.tm_year + 1900) ++ '-' :: rest) =
      some (tm.tm_year + 1900, '-' :: rest) :=
    getNum_str (by omega) (by omega) (by decide) (by omega) (by omega) (by simp)
  have mon (rest : Str) : getNum 2 1 12 (str (tm.tm_mon + 1) ++ '-' :: rest) = some (tm.tm_mon + 1, '-' :: rest) :=
    getNum_str (by omega) (by omega) (by decide) (by omega) (by omega) (by simp)
  have mday (rest : Str) : getNum 2 1 31 (str tm.tm_mday ++ 'T' :: rest) = some (tm.tm_mday, 'T' :: rest) :=
    getNum_str (by omega) (by omega) (by decide) (by omega) (by omega) (by simp)
  have hour (rest : Str) : getNum 2 0 23 (str tm.tm_hour ++ ':' :: rest) = some (tm.tm_hour, ':' :: rest) :=
    getNum_str (by omega) (by omega) (by decide) (by omega) (by omega) (by simp)
  have min (rest : Str) : getNum 2 0 59 (str tm.tm_min ++ ':' :: rest) = some (tm.tm_min, ':' :: rest) :=
    getNum_str (by omega) (by omega) (by decide) (by omega) (by omega) (by simp)
  have sec : getNum 2 0 60 (str tm.tm_sec ++ []) = some (tm.tm_sec, []) :=
    getNum_str (by omega) (by omega) (by decide) (by omega) (by omega) (by simp)
  obtain ⟨c, s, hs, hspace⟩ := str_eq_cons (n := tm.tm_year + 1900) (by omega)
  have hstart (rest : Str) : (str (tm.tm_year + 1900) ++ rest).dropWhile isspace = str (tm.tm_year + 1900) ++ rest := by
    rw [hs, List.cons_append, List.dropWhile_cons_of_neg (by simp [hspace])]
  have hend : str tm.tm_sec = str tm.tm_sec ++ [] := (List.append_nil _).symm
  simp only [List.append_assoc, List.cons_append, List.nil_append]
  rw [getTime, hstart, FORMAT, hend, getTimeLoop_number (by omega) (year _), if_neg (by simp), getTimeLoop_literal,
    getTimeLoop_number (by omega) (mon _), if_neg (by simp), getTimeLoop_literal,
    getTimeLoop_number (by omega) (mday _), if_neg (by simp), getTimeLoop_literal,
    getTimeLoop_number (by omega) (hour _), if_neg (by simp), getTimeLoop_literal,
    getTimeLoop_number (by omega) (min _), if_neg (by simp), getTimeLoop_literal,
    getTimeLoop_number (by omega) sec, if_pos rfl]
  simp

section

variable {tz : TimeZone} {secs : Int} {tm : Tm}

/-- The fields of an instant make up its local time again. -/
theorem localtime_spec (h : localtime tz secs = .ok tm) :
    daysFromCivil (tm.tm_year + 1900) (tm.tm_mon + 1) tm.tm_mday * 86400 + tm.tm_hour * 3600 + tm.tm_min * 60 +
      tm.tm_sec = secs + tz.utcOffset secs ∧
    (1000 ≤ tm.tm_year + 1900 ∧ tm.tm_year + 1900 ≤ 9999 → Fields tm) := by
  obtain ⟨hdays, hmonth, hday⟩ := civilFromDays_spec ((secs + tz.utcOffset secs) / 86400)
  rw [localtime] at h
  simp only at h
  split_ifs at h
  cases h
  simp only [sub_add_cancel]
  constructor
  · rw [hdays]
    omega
  · intro hyear
    constructor <;> simp only [sub_add_cancel] <;> omega

theorem mktime_localtime (h : localtime tz secs = .ok tm) :
    mktime tz tm = secs + tz.utcOffset secs - tz.standardOffset (secs + tz.utcOffset secs) := by
  rw [mktime, (localtime_spec h).1]

end

end DistributedSns.Server
