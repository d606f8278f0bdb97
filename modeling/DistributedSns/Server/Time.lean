import DistributedSns.Basic

/-!
# Timestamps and their text (`timestampToStr`, `strToSeconds`)

`localtime`, `mktime` and `get_time` belong to the C and C++ libraries. They depend on the time zone, which is
a parameter here.
-/

namespace DistributedSns.Server

/-- `google::protobuf::Timestamp`. -/
structure Timestamp where
  seconds : Int := 0
  nanos : Int := 0
  deriving DecidableEq

/-- `operator>` of `TimeUtil`. -/
def Timestamp.gt (a b : Timestamp) : Bool :=
  a.seconds > b.seconds || (a.seconds = b.seconds && a.nanos > b.nanos)

/-! ## Calendar -/

/-- The zone's offset to UTC at every instant, and that of its standard time at every local time, in seconds. -/
structure TimeZone where
  utcOffset : Int → Int
  standardOffset : Int → Int

def TimeZone.utc : TimeZone := { utcOffset := fun _ => 0, standardOffset := fun _ => 0 }

structure Tm where
  tm_sec : Int := 0
  tm_min : Int := 0
  tm_hour : Int := 0
  tm_mday : Int := 0
  tm_mon : Int := 0
  tm_year : Int := 0
  deriving DecidableEq

/-- The days from 1970-01-01 to a day of the Gregorian calendar. -/
def daysFromCivil (year month day : Int) : Int :=
  let y := if month ≤ 2 then year - 1 else year
  let era := y / 400
  let yearOfEra := y - era * 400
  let dayOfYear := (153 * (if month > 2 then month - 3 else month + 9) + 2) / 5 + day - 1
  let dayOfEra := yearOfEra * 365 + yearOfEra / 4 - yearOfEra / 100 + dayOfYear
  era * 146097 + dayOfEra - 719468

/-- Year, month and day of the day with the given number. -/
def civilFromDays (days : Int) : Int × Int × Int :=
  let z := days + 719468
  let era := z / 146097
  let dayOfEra := z - era * 146097
  let yearOfEra := (dayOfEra - dayOfEra / 1460 + dayOfEra / 36524 - dayOfEra / 146096) / 365
  let dayOfYear := dayOfEra - (365 * yearOfEra + yearOfEra / 4 - yearOfEra / 100)
  let m := (5 * dayOfYear + 2) / 153
  let day := dayOfYear - (153 * m + 2) / 5 + 1
  let month := if m < 10 then m + 3 else m - 9
  (yearOfEra + era * 400 + (if month ≤ 2 then 1 else 0), month, day)

/-- `localtime`, which returns `NULL` if the year does not fit into an `int`. -/
def localtime (tz : TimeZone) (secs : Int) : Except Fault Tm :=
  let t := secs + tz.utcOffset secs
  let (year, month, day) := civilFromDays (t / 86400)
  let rest := t % 86400
  if year - 1900 < -2 ^ 31 || year - 1900 ≥ 2 ^ 31 then .error .nullDereference
  else
    .ok {
      tm_sec := rest % 60
      tm_min := rest / 60 % 60
      tm_hour := rest / 3600
      tm_mday := day
      tm_mon := month - 1
      tm_year := year - 1900 }

/-- `mktime` with `tm_isdst = 0`: the fields are read as standard time. -/
def mktime (tz : TimeZone) (tm : Tm) : Int :=
  let t := daysFromCivil (tm.tm_year + 1900) (tm.tm_mon + 1) tm.tm_mday * 86400 + tm.tm_hour * 3600 + tm.tm_min * 60 +
    tm.tm_sec
  t - tz.standardOffset t

/-! ## Text -/

def timestampToStr (tz : TimeZone) (t : Timestamp) : Except Fault Str := do
  let tm ← localtime tz t.seconds
  if tm.tm_year + 1900 ≥ 2 ^ 31 then .error .overflow
  else
    -- "%Y-%m-%dT%H:%M:%S"
    return str (tm.tm_year + 1900) ++ ['-'] ++ str (tm.tm_mon + 1) ++ ['-'] ++ str tm.tm_mday ++ ['T'] ++
      str tm.tm_hour ++ [':'] ++ str tm.tm_min ++ [':'] ++ str tm.tm_sec

/-- Reads a number of one to `digits` digits between `least` and `most`. -/
def getNum (digits : Nat) (least most : Int) (s : Str) : Option (Int × Str) :=
  let field := (s.take digits).takeWhile Char.isDigit
  let value : Int := field.foldl (fun n c => 10 * n + (c.toNat - '0'.toNat)) 0
  if field = [] || value < least || value > most then none else some (value, s.drop field.length)

/-- What stands in the format of `get_time`: a character, in any case, or a number with the field it sets. One space may
stand before the number if `space` is set. -/
inductive Conversion where
  | literal (c : Char)
  | number (space : Bool) (digits : Nat) (least most : Int) (set : Tm → Int → Tm)

/-- `%Y-%m-%dT%H:%M:%S`. -/
def FORMAT : List Conversion :=
  [.number false 4 0 9999 fun tm year => { tm with tm_year := year - 1900 }, .literal '-',
    .number false 2 1 12 fun tm mon => { tm with tm_mon := mon - 1 }, .literal '-',
    .number true 2 1 31 fun tm mday => { tm with tm_mday := mday }, .literal 'T',
    .number false 2 0 23 fun tm hour => { tm with tm_hour := hour }, .literal ':',
    .number false 2 0 59 fun tm min => { tm with tm_min := min }, .literal ':',
    .number false 2 0 60 fun tm sec => { tm with tm_sec := sec }]

def isspace (c : Char) : Bool := c.isWhitespace || c = '\x0b' || c = '\x0c'

/-- The loop over the format. A text which ends after a number leaves the other fields as they are. -/
def getTimeLoop : List Conversion → Str → Tm → Option Tm
  | [], _, tm => some tm
  | _ :: _, [], _ => none
  | .literal c :: fmt, c' :: s, tm => if c'.toLower = c.toLower then getTimeLoop fmt s tm else none
  | .number space digits least most set :: fmt, c :: s, tm => do
    let (value, s) ← getNum digits least most (if space && isspace c then s else c :: s)
    if s = [] then some (set tm value) else getTimeLoop fmt s (set tm value)

/-- `ss >> get_time(&t, "%Y-%m-%dT%H:%M:%S")`, where `none` is a stream which has failed. -/
def getTime (s : Str) : Option Tm := getTimeLoop FORMAT (s.dropWhile isspace) {}

def strToSeconds (tz : TimeZone) (timestampStr : Str) : Except Fault Int :=
  match getTime timestampStr with
  | some t => .ok (mktime tz t)
  | none => .error .exception

def strToTimestamp (tz : TimeZone) (timestampStr : Str) : Except Fault Timestamp := do
  let seconds ← strToSeconds tz timestampStr
  return { seconds, nanos := 0 }

end DistributedSns.Server
