/-!
# Points in time as text

Times count nanoseconds from the start of 1970 in the time of Greenwich, and are written in the time of a zone.
The calendar repeats itself every 400 years, which are 146097 days. Its years begin in March here, so that the
leap day is the last day of a year and the days before a month follow from its number alone.
-/

namespace TokenDiff

structure Date where
  year : Int
  month : Nat
  day : Nat
deriving DecidableEq, Repr

namespace Date

/-- The days from the first of March of the year 0 to the start of 1970. -/
def dayOffset : Int := 719468

def ofDay (day : Int) : Date :=
  let day := day + dayOffset
  let era := day.fdiv 146097
  let dayOfEra := (day.fmod 146097).toNat
  let yearOfEra := (dayOfEra - dayOfEra / 1460 + dayOfEra / 36524 - dayOfEra / 146096) / 365
  let dayOfYear := dayOfEra - (365 * yearOfEra + yearOfEra / 4 - yearOfEra / 100)
  let monthFromMarch := (5 * dayOfYear + 2) / 153
  let month := if monthFromMarch < 10 then monthFromMarch + 3 else monthFromMarch - 9
  { year := era * 400 + yearOfEra + (if month ≤ 2 then 1 else 0)
    month := month
    day := dayOfYear - (153 * monthFromMarch + 2) / 5 + 1 }

end Date

def padded (width n : Nat) : String :=
  let digits := Nat.toDigits 10 n
  String.ofList (List.replicate (width - digits.length) '0' ++ digits)

/-- A year of four digits, or with its sign if that is not enough for it. -/
def yearText (year : Int) : String :=
  if year < 0 then "-" ++ padded 4 year.natAbs
  else if 9999 < year then "+" ++ padded 4 year.natAbs
  else padded 4 year.natAbs

structure Zone where
  /-- the seconds by which clocks are ahead of those of Greenwich, by the seconds since the start of 1970 -/
  ahead : Int → Int

def Zone.greenwich : Zone := ⟨fun _ => 0⟩

/-- The hours and minutes that clocks are ahead, to the nearest minute. -/
def offsetText (seconds : Int) : String :=
  let minutes := (seconds.natAbs + 30) / 60
  (if seconds < 0 then "-" else "+") ++ padded 2 (minutes / 60) ++ padded 2 (minutes % 60)

/-- Day, time of the day down to the nanosecond, and the offset from the time of Greenwich. -/
def timestamp (zone : Zone) (nanoseconds : Int) : String :=
  let offset := zone.ahead (nanoseconds.fdiv 1000000000)
  let seconds := nanoseconds.fdiv 1000000000 + offset
  let date := Date.ofDay (seconds.fdiv 86400)
  let time := (seconds.fmod 86400).toNat
  let fraction := padded 9 (nanoseconds.fmod 1000000000).toNat
  s!"{yearText date.year}-{padded 2 date.month}-{padded 2 date.day} " ++
    s!"{padded 2 (time / 3600)}:{padded 2 (time / 60 % 60)}:{padded 2 (time % 60)}.{fraction} " ++
    offsetText offset

end TokenDiff
