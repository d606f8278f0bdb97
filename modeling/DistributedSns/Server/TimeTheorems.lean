import DistributedSns.Server.Lemmas.Time

/-!
# Reading a timestamp's text

The text has the local time, but not whether it is that of daylight saving, and is read as standard time.
-/

namespace DistributedSns.Server

variable {tz : TimeZone} {t : Timestamp} {tm : Tm}

/-- The zone's standard time is in force at the instant. -/
def StandardTime (tz : TimeZone) (secs : Int) : Prop :=
  tz.utcOffset secs = tz.standardOffset (secs + tz.utcOffset secs)

theorem strToSeconds_timestampToStr (h : localtime tz t.seconds = .ok tm)
    (hyear : 1000 ≤ tm.tm_year + 1900 ∧ tm.tm_year + 1900 ≤ 9999) :
    timestampToStr tz t >>= strToSeconds tz =
      .ok (t.seconds + tz.utcOffset t.seconds - tz.standardOffset (t.seconds + tz.utcOffset t.seconds)) := by
  have hfields := (localtime_spec h).2 hyear
  have hoverflow : ¬ tm.tm_year + 1900 ≥ 2 ^ 31 := by omega
  rw [timestampToStr, h, ok_bind, if_neg hoverflow]
  rw [pure_bind, strToSeconds, getTime_str hfields, ← mktime_localtime h]

/-- The text of a time is read back as the same time if and only if standard time is in force. -/
theorem time_round_trip_iff (h : localtime tz t.seconds = .ok tm)
    (hyear : 1000 ≤ tm.tm_year + 1900 ∧ tm.tm_year + 1900 ≤ 9999) :
    timestampToStr tz t >>= strToSeconds tz = .ok t.seconds ↔ StandardTime tz t.seconds := by
  rw [strToSeconds_timestampToStr h hyear, Except.ok.injEq, StandardTime]
  constructor
  · intro hsame
    omega
  · intro hsame
    omega

/-! ## A summer in Central Europe -/

def centralEurope : TimeZone where
  utcOffset t := if 1711846800 ≤ t ∧ t < 1729990800 then 7200 else 3600
  standardOffset _ := 3600

theorem time_round_trip_winter :
    timestampToStr centralEurope { seconds := 1705000000 } >>= strToSeconds centralEurope = .ok 1705000000 := by
  obtain ⟨tm, htm, hyear⟩ : ∃ tm, localtime centralEurope 1705000000 = .ok tm ∧
      1000 ≤ tm.tm_year + 1900 ∧ tm.tm_year + 1900 ≤ 9999 :=
    ⟨_, rfl, by decide, by decide⟩
  exact (time_round_trip_iff (t := { seconds := 1705000000 }) htm hyear).mpr rfl

/-- A time in summer is read back as one an hour later. -/
theorem summer_moves : ∃ tm text, localtime centralEurope 1720000000 = .ok tm ∧ tm.tm_year + 1900 = 2024 ∧
    timestampToStr centralEurope { seconds := 1720000000 } = .ok text ∧
    strToSeconds centralEurope text = .ok 1720003600 :=
  ⟨_, "2024-7-3T11:46:40".toList, rfl, by decide, by decide +kernel, by decide +kernel⟩

end DistributedSns.Server
