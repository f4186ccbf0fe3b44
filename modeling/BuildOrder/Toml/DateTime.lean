import BuildOrder.Toml.Number

/-! # Dates and times of TOML -/

namespace BuildOrder.Toml

open BuildOrder.Text

/-- A day of the calendar. -/
structure Date where
  year : Nat
  month : Nat
  day : Nat
deriving DecidableEq

/-- A time of day; the fraction of a second is given by its digits. -/
structure Time where
  hour : Nat
  minute : Nat
  second : Nat
  fraction : List Nat
deriving DecidableEq

/-- A point in time, or a part of one. -/
inductive DateTime
  | date (date : Date)
  | time (time : Time)
  | local (date : Date) (time : Time)
  /-- With the distance from universal time in minutes. -/
  | offset (date : Date) (time : Time) (minutes : Int)
deriving DecidableEq

/-- Whether a year has a leap day. -/
def isLeap (year : Nat) : Bool := year % 4 == 0 && (year % 100 != 0 || year % 400 == 0)

/-- The number of days of a month. -/
def daysOf (year month : Nat) : Nat :=
  if month = 2 then (if isLeap year then 29 else 28)
  else if month ∈ [4, 6, 9, 11] then 30 else 31

/-- A number of exactly so many digits, one more than said, within bounds. -/
def fixed (digitsPred low high : Nat) : Reader Nat :=
  (Reader.succTimes digitsPred (digit 10)).filterMap fun ds =>
    let n := ofDigits 10 ds
    if low ≤ n ∧ n ≤ high then some n else none

/-- A date: year, month and day. -/
def date : Reader Date :=
  (((fixed 3 0 9999).before (Reader.exactly '-')).pair
    (((fixed 1 1 12).before (Reader.exactly '-')).pair (fixed 1 1 31))).filterMap
    fun (year, month, day) => if day ≤ daysOf year month then some ⟨year, month, day⟩ else none

/-- A time of day: hour, minute and second, and perhaps a fraction. -/
def time : Reader Time :=
  ((((fixed 1 0 23).before (Reader.exactly ':')).pair
    (((fixed 1 0 59).before (Reader.exactly ':')).pair (fixed 1 0 60))).scan
    ((Reader.exactly '.').andThen (digit 10).many1).optional).map
    fun ((hour, minute, second), fraction) => ⟨hour, minute, second, fraction.getD []⟩

/-- The distance from universal time in minutes. -/
def zone : Reader Int :=
  ((Reader.char fun c => c == 'Z' || c == 'z').map fun _ => 0).or
    (((Reader.char fun c => c == '+' || c == '-').pair
      (((fixed 1 0 23).before (Reader.exactly ':')).pair (fixed 1 0 59))).map
      fun (c, hours, minutes) => signed (c == '-') (60 * hours + minutes))

/-- A date, with or without a time and a zone, or a time alone. -/
def dateTime : Reader DateTime :=
  let onward := ((Reader.char fun c => c == 'T' || c == 't' || c == ' ').andThen time).scan zone.optional
  ((date.scan onward.optional).map fun
    | (d, none) => .date d
    | (d, some (t, none)) => .local d t
    | (d, some (t, some minutes)) => .offset d t minutes).or
    (time.map .time)

end BuildOrder.Toml
