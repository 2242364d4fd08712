import BlockIr.Text.Integer
import BlockIr.Yaml.Character

/-!
# Timestamps

A timestamp is a date, optionally with a time of day and a time zone; without a zone it is
universal time. Months, days and hours beyond their range carry over. A point in time counts
milliseconds from the start of 1970.

* `Timestamp.read?`: the point in time that a text spells.
* `Timestamp.short`, `Timestamp.long`: the two ways a point in time is written.
-/

namespace BlockIr.Yaml.Timestamp

/-! ## Calendar -/

/-- Days from the first of March of the year 0 to the first of a month, counted from March of
a year. -/
def daysToMonth (year month : Int) : Int :=
  365 * year + year.fdiv 4 - year.fdiv 100 + year.fdiv 400 + (153 * month + 2).fdiv 5

/-- Days from the start of 1970 to a date. Months count from 0 and carry over into years. -/
def days (year month day : Int) : Int :=
  let months := 12 * year + month - 2
  daysToMonth (months.fdiv 12) (months.fmod 12) + day - 1 - 719468

structure Date where
  year : Int
  /-- Counts from 0. -/
  month : Int
  day : Int

/-- The date of a day counted from the start of 1970. -/
def Date.ofDays (n : Int) : Date :=
  let z := n + 719468
  let era := z.fdiv 146097
  let ofEra := z.fmod 146097
  let yearOfEra :=
    (ofEra - ofEra.fdiv 1460 + ofEra.fdiv 36524 - ofEra.fdiv 146096).fdiv 365
  let ofYear := ofEra - (365 * yearOfEra + yearOfEra.fdiv 4 - yearOfEra.fdiv 100)
  let m := (5 * ofYear + 2).fdiv 153
  let day := ofYear - (153 * m + 2).fdiv 5 + 1
  let month := if m < 10 then m + 2 else m - 10
  ⟨yearOfEra + 400 * era + (if month < 2 then 1 else 0), month, day⟩

def millisecondsPerDay : Int := 86400000

/-! ## Reading -/

/-- One to `most` digits at the start of a text, as many as there are. -/
def digits? (least most : Nat) (cs : List Char) : Option (Nat × List Char) :=
  let found := (cs.take most).takeWhile Char.isDigit
  if found.length < least then none
  else some (Nat.ofDigitChars 10 found 0, cs.drop found.length)

/-- The rest of a text behind a character. -/
def behind? (c : Char) : List Char → Option (List Char)
  | d :: rest => if d == c then some rest else none
  | [] => none

/-- Milliseconds of a fraction of a second at the start of a text; further digits do not
count. -/
def fraction? (cs : List Char) : Option (Nat × List Char) :=
  match cs with
  | '.' :: rest =>
    let found := rest.takeWhile Char.isDigit
    if found.isEmpty then none
    else some (Nat.ofDigitChars 10 ((found ++ ['0', '0']).take 3) 0, rest.drop found.length)
  | _ => some (0, cs)

/-- Minutes of a time zone: hours, or hours and minutes. -/
def zone? (cs : List Char) : Option Int :=
  match cs with
  | [] => some 0
  | _ =>
    match cs.dropWhile isBlank with
    | ['Z'] => some 0
    | sign :: rest =>
      if sign != '+' && sign != '-' then none
      else do
        let (hours, after) ← digits? 1 2 rest
        if 29 < hours then none
        else
          let minutes ← match after with
            | [] => some ((if hours < 30 then hours * 60 else hours : Nat) : Int)
            | [':', a, b] =>
              if a.isDigit && b.isDigit then
                let total := hours * 60 + Nat.ofDigitChars 10 [a, b] 0
                some ((if total < 30 then total * 60 else total : Nat) : Int)
              else none
            | _ => none
          return if sign == '-' then -minutes else minutes
    | [] => none

/-- Milliseconds of the time of day behind a date, less its time zone. -/
def time? (cs : List Char) : Option Int :=
  let start? := match cs with
    | 't' :: rest | 'T' :: rest => some rest
    | c :: rest => if isBlank c then some (rest.dropWhile isBlank) else none
    | [] => none
  do
    let (hour, cs) ← digits? 1 2 (← start?)
    let (minute, cs) ← digits? 1 2 (← behind? ':' cs)
    let (second, cs) ← digits? 1 2 (← behind? ':' cs)
    let (milliseconds, cs) ← fraction? cs
    let zone ← zone? cs
    return ((hour * 60 + minute) * 60 + second) * 1000 + milliseconds - zone * 60000

/-- The point in time a text spells. Years up to 99 lie in the twentieth century. -/
def read? (cs : List Char) : Option Int := do
  let (year, cs) ← digits? 4 4 cs
  let (month, cs) ← digits? 1 2 (← behind? '-' cs)
  let (day, cs) ← digits? 1 2 (← behind? '-' cs)
  let year := if year ≤ 99 then 1900 + year else year
  let start := days year (month - 1) day * millisecondsPerDay
  if cs.isEmpty then return start else return start + (← time? cs)

/-! ## Writing -/

/-- A number with zeros in front, up to a width. -/
def padded (width : Nat) (n : Int) : String :=
  let text := Text.integer n
  String.ofList (List.replicate (width - text.length) '0') ++ text

structure Clock where
  date : Date
  /-- Days from the start of 1970. -/
  day : Int
  hour : Int
  minute : Int
  second : Int
  millisecond : Int

/-- What a clock shows at a point in time. -/
def Clock.at (t : Int) : Clock :=
  let day := t.fdiv millisecondsPerDay
  let rest := t.fmod millisecondsPerDay
  ⟨.ofDays day, day, rest.fdiv 3600000, (rest.fdiv 60000).fmod 60, (rest.fdiv 1000).fmod 60,
    rest.fmod 1000⟩

/-- Hours, minutes and seconds. -/
def Clock.time (c : Clock) : String :=
  padded 2 c.hour ++ ":" ++ padded 2 c.minute ++ ":" ++ padded 2 c.second

/-- A point in time by numbers; a time of midnight and milliseconds of zero are left out. -/
def short (t : Int) : String :=
  let c := Clock.at t
  let year := if 9999 < c.date.year then "+" ++ padded 6 c.date.year else padded 4 c.date.year
  let date := year ++ "-" ++ padded 2 (c.date.month + 1) ++ "-" ++ padded 2 c.date.day
  if c.millisecond != 0 then date ++ "T" ++ c.time ++ "." ++ padded 3 c.millisecond ++ "Z"
  else if c.time == "00:00:00" then date
  else date ++ "T" ++ c.time

def weekdays : List String := ["Thu", "Fri", "Sat", "Sun", "Mon", "Tue", "Wed"]

def months : List String :=
  ["Jan", "Feb", "Mar", "Apr", "May", "Jun", "Jul", "Aug", "Sep", "Oct", "Nov", "Dec"]

/-- A point in time with the names of its day and month, in universal time. -/
def long (t : Int) : String :=
  let c := Clock.at t
  (weekdays[(c.day.fmod 7).toNat]?).getD "" ++ " " ++
    (months[c.date.month.toNat]?).getD "" ++ " " ++ padded 2 c.date.day ++ " " ++
    padded 4 c.date.year ++ " " ++ c.time ++ " GMT+0000 (Coordinated Universal Time)"

example : (read? "2001-12-14t21:59:43.10-05:00".toList).map short =
    some "2001-12-15T02:59:43.100Z" := by decide +kernel
example : (read? "2002-12-14".toList).map long =
    some "Sat Dec 14 2002 00:00:00 GMT+0000 (Coordinated Universal Time)" := by decide +kernel

end BlockIr.Yaml.Timestamp
