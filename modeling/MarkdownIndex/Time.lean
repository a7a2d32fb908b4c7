import MarkdownIndex.Decimal.Power

/-!
# Times: instants and their calendar

* `Instant` — nanoseconds since the start of 1970 in universal time.
* `Instant.seconds` — the same in seconds; an instant before 1970 counts as its start.
* `Civil`, `Instant.civil` — date and time of day in the proleptic Gregorian calendar.
* `Instant.minuteText`, `Instant.stamp` — `2024-01-31 09:05`, and `2024-01-31T09:05:07.125Z`.
* `Instant.read?` — an instant from a stamp with any offset.
-/

namespace MarkdownIndex

/-- Nanoseconds since the start of 1970. -/
abbrev Instant := Int

namespace Instant

/-- Nanoseconds in a second. -/
def second : Int := 1000000000

/-- The seconds since 1970: the whole ones, and the fraction added to them. -/
def seconds (t : Instant) : Float :=
  if t < 0 then 0
  else
    let n := t.toNat
    (n / 1000000000).toUInt64.toFloat + (n % 1000000000).toUInt64.toFloat / 1000000000

/-! ## Calendar -/

/-- The date and the time of day of an instant. -/
structure Civil where
  /-- the year; before the year 1 comes the year 0 -/
  year : Int
  /-- the month, from 1 -/
  month : Nat
  /-- the day of the month, from 1 -/
  day : Nat
  /-- the hour -/
  hour : Nat
  /-- the minute -/
  minute : Nat
  /-- the second -/
  second : Nat
  /-- nanoseconds within the second -/
  nanosecond : Nat
deriving DecidableEq, Repr

/-- Days from the first of March of the year 0 to the start of 1970. -/
def epochDay : Int := 719468

/-- Days in 400 years. -/
def daysInEra : Int := 146097

/-- The year, month and day of a number of days since 1970. Years are counted from March, so that
the leap day comes last. -/
def dateOfDay (days : Int) : Int × Nat × Nat :=
  let z := days + epochDay
  let era := z.fdiv daysInEra
  let d := (z - era * daysInEra).toNat
  let y := (d - d / 1460 + d / 36524 - d / 146096) / 365
  let dayOfYear := d - (365 * y + y / 4 - y / 100)
  let m := (5 * dayOfYear + 2) / 153
  let day := dayOfYear - (153 * m + 2) / 5 + 1
  let month := if m < 10 then m + 3 else m - 9
  (era * 400 + y + (if month ≤ 2 then 1 else 0), month, day)

/-- The number of days since 1970 of a date. -/
def dayOfDate (year : Int) (month day : Nat) : Int :=
  let y := if month ≤ 2 then year - 1 else year
  let era := y.fdiv 400
  let yearOfEra := y - era * 400
  let m : Int := if month > 2 then month - 3 else month + 9
  let dayOfYear := (153 * m + 2).fdiv 5 + day - 1
  era * daysInEra + (yearOfEra * 365 + yearOfEra.fdiv 4 - yearOfEra.fdiv 100 + dayOfYear) - epochDay

/-- The date and the time of day of an instant. -/
def civil (t : Instant) : Civil :=
  let s := t.fdiv second
  let day := s.fdiv 86400
  let rest := (s - day * 86400).toNat
  let (year, month, date) := dateOfDay day
  ⟨year, month, date, rest / 3600, rest / 60 % 60, rest % 60, (t - s * second).toNat⟩

/-! ## Writing -/

/-- A number with at least so many digits. -/
def padded (width n : Nat) : String :=
  let ds := Nat.toDigits 10 n
  String.ofList (List.replicate (width - ds.length) '0' ++ ds)

/-- A year: four digits, and a sign in front beyond them. -/
def yearText (y : Int) : String :=
  if 0 ≤ y ∧ y ≤ 9999 then padded 4 y.toNat
  else (if y < 0 then "-" else "+") ++ padded 4 y.natAbs

/-- The date of an instant. -/
def dateText (c : Civil) : String :=
  yearText c.year ++ "-" ++ padded 2 c.month ++ "-" ++ padded 2 c.day

/-- The date and the minute of an instant. -/
def minuteText (t : Instant) : String :=
  let c := t.civil
  dateText c ++ " " ++ padded 2 c.hour ++ ":" ++ padded 2 c.minute

/-- The fraction of a second: three, six or nine digits, or nothing when it is zero. -/
def fractionText (n : Nat) : String :=
  if n = 0 then ""
  else if n % 1000000 = 0 then "." ++ padded 3 (n / 1000000)
  else if n % 1000 = 0 then "." ++ padded 6 (n / 1000)
  else "." ++ padded 9 n

/-- The instant as a stamp in universal time. -/
def stamp (t : Instant) : String :=
  let c := t.civil
  dateText c ++ "T" ++ padded 2 c.hour ++ ":" ++ padded 2 c.minute ++ ":" ++ padded 2 c.second ++
    fractionText c.nanosecond ++ "Z"

/-! ## Reading -/

/-- A number of exactly so many digits, and what follows it. -/
def digits? : (count : Nat) → List Char → Option (Nat × List Char)
  | 0, cs => some (0, cs)
  | n + 1, c :: cs =>
    if c.isDigit then
      (digits? n cs).map fun (v, rest) => ((c.toNat - 48) * Decimal.tenTo n + v, rest)
    else none
  | _ + 1, [] => none

/-- What follows a character. -/
def after? (wanted : Char → Bool) : List Char → Option (List Char)
  | c :: cs => if wanted c then some cs else none
  | [] => none

/-- Nanoseconds of a fraction of a second, and what follows it; digits beyond the ninth are
dropped. -/
def fraction? : List Char → Option (Nat × List Char)
  | '.' :: cs =>
    let ds := cs.takeWhile Char.isDigit
    if ds.isEmpty then none
    else
      let nine := ((ds ++ List.replicate 9 '0').take 9).foldl (fun n c => n * 10 + (c.toNat - 48)) 0
      some (nine, cs.dropWhile Char.isDigit)
  | cs => some (0, cs)

/-- The seconds by which local time is ahead of universal time. -/
def offset? : List Char → Option Int
  | ['Z'] => some 0
  | ['z'] => some 0
  | sign :: cs => do
    let (hours, cs) ← digits? 2 cs
    let cs ← after? (· == ':') cs
    let (minutes, cs) ← digits? 2 cs
    if !cs.isEmpty || hours > 23 || minutes > 59 then none
    else
      let total : Int := hours * 3600 + minutes * 60
      match sign with
      | '+' => some total
      | '-' => some (-total)
      | _ => none
  | [] => none

/-- The number of days of a month. -/
def daysOfMonth (year month : Nat) : Nat :=
  if month = 2 then
    if year % 4 = 0 ∧ (year % 100 ≠ 0 ∨ year % 400 = 0) then 29 else 28
  else if month = 4 ∨ month = 6 ∨ month = 9 ∨ month = 11 then 30
  else 31

/-- The instant of a stamp. -/
def read? (s : String) : Option Instant := do
  let (year, cs) ← digits? 4 s.toList
  let cs ← after? (· == '-') cs
  let (month, cs) ← digits? 2 cs
  let cs ← after? (· == '-') cs
  let (day, cs) ← digits? 2 cs
  let cs ← after? (fun c => c == 'T' || c == 't' || c == ' ') cs
  let (hour, cs) ← digits? 2 cs
  let cs ← after? (· == ':') cs
  let (minute, cs) ← digits? 2 cs
  let cs ← after? (· == ':') cs
  let (sec, cs) ← digits? 2 cs
  let (nanos, cs) ← fraction? cs
  let offset ← offset? cs
  if 1 ≤ month ∧ month ≤ 12 ∧ 1 ≤ day ∧ day ≤ daysOfMonth year month ∧ hour ≤ 23 ∧ minute ≤ 59 ∧
      sec ≤ 60 then
    let s : Int := dayOfDate year month day * 86400 + hour * 3600 + minute * 60 + sec - offset
    some (s * second + nanos)
  else none

end Instant

end MarkdownIndex
