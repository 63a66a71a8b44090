/-! # Moments

A day of the calendar, a time of the day, both together, or an instant, which has an offset from
universal time besides. -/

namespace OperationGraph

/-- A number in decimal with at least `width` digits. -/
def paddedNumber (width n : Nat) : String :=
  let digits := toString n
  String.ofList (List.replicate (width - digits.length) '0') ++ digits

structure Day where
  year : Nat
  month : Nat
  day : Nat
deriving DecidableEq, Repr

namespace Day

def isLeap (year : Nat) : Bool := year % 4 = 0 && (year % 100 ≠ 0 || year % 400 = 0)

def daysIn (year month : Nat) : Nat :=
  if month = 2 then if isLeap year then 29 else 28
  else if [4, 6, 9, 11].contains month then 30
  else 31

def isValid (d : Day) : Bool :=
  1 ≤ d.month && d.month ≤ 12 && 1 ≤ d.day && d.day ≤ daysIn d.year d.month

def next (d : Day) : Day :=
  if d.day < daysIn d.year d.month then { d with day := d.day + 1 }
  else if d.month < 12 then { d with month := d.month + 1, day := 1 }
  else ⟨d.year + 1, 1, 1⟩

def text (d : Day) : String :=
  paddedNumber 4 d.year ++ "-" ++ paddedNumber 2 d.month ++ "-" ++ paddedNumber 2 d.day

def monthName (d : Day) : String :=
  ["January", "February", "March", "April", "May", "June", "July", "August", "September", "October",
    "November", "December"].getD (d.month - 1) ""

end Day

/-- A time of the day. Of the decimals of the second `precision` were given. -/
structure ClockTime where
  hour : Nat := 0
  minute : Nat := 0
  second : Nat := 0
  nanosecond : Nat := 0
  precision : Nat := 0
deriving DecidableEq, Repr

namespace ClockTime

/-- The nanoseconds that up to nine decimals of a second stand for. -/
def nanosecondsOf (decimals : List Nat) : Nat :=
  let ds := decimals.take 9
  ds.foldl (fun n d => 10 * n + d) 0 * Nat.pow 10 (9 - ds.length)

/-- Hours, minutes and seconds in figures. -/
def wholeText (t : ClockTime) : String :=
  paddedNumber 2 t.hour ++ ":" ++ paddedNumber 2 t.minute ++ ":" ++ paddedNumber 2 t.second

/-- The first decimals of the second with a point in front; none are no text. -/
def decimals (t : ClockTime) (count : Nat) : String :=
  if count = 0 then "" else "." ++ String.ofList ((paddedNumber 9 t.nanosecond).toList.take count)

def text (t : ClockTime) : String := t.wholeText ++ t.decimals t.precision

/-- The number of decimals without zeros at the end. -/
def significant (t : ClockTime) : Nat :=
  ((paddedNumber 9 t.nanosecond).toList.reverse.dropWhile (· = '0')).length

def shortText (t : ClockTime) : String := t.wholeText ++ t.decimals t.significant

end ClockTime

/-- How far the clocks of a place are from universal time, in seconds; none is universal time itself. -/
abbrev Zone := Option Int

def Zone.figures (z : Zone) : String :=
  let minutes := (z.getD 0).natAbs / 60
  (if z.getD 0 < 0 then "-" else "+") ++ paddedNumber 2 (minutes / 60) ++ paddedNumber 2 (minutes % 60)

inductive Moment where
  | date (d : Day)
  | time (t : ClockTime)
  | dateTime (d : Day) (t : ClockTime)
  | instant (d : Day) (t : ClockTime) (zone : Zone)
deriving DecidableEq, Repr

namespace Moment

/-- An instant whose second may be the sixtieth, which is the first of the next minute. -/
def instantOf (d : Day) (t : ClockTime) (zone : Zone) : Moment :=
  if t.second < 60 then .instant d t zone
  else if t.minute < 59 then .instant d { t with minute := t.minute + 1, second := 0 } zone
  else if t.hour < 23 then .instant d { t with hour := t.hour + 1, minute := 0, second := 0 } zone
  else .instant d.next { t with hour := 0, minute := 0, second := 0 } zone

def typeName : Moment → String
  | date _ => "toml.LocalDate"
  | time _ => "toml.LocalTime"
  | dateTime .. => "toml.LocalDateTime"
  | instant .. => "time.Time"

def text : Moment → String
  | date d => d.text
  | time t => t.text
  | dateTime d t => d.text ++ "T" ++ t.text
  | instant d t zone =>
    d.text ++ " " ++ t.shortText ++ " " ++ Zone.figures zone ++ " "
      ++ (match zone with
        | none => "UTC"
        | some _ => Zone.figures zone)

def expression : Moment → String
  | instant d t zone =>
    "time.Date(" ++ ", ".intercalate [toString d.year, "time." ++ d.monthName, toString d.day,
      toString t.hour, toString t.minute, toString t.second, toString t.nanosecond,
      match zone with
      | none => "time.UTC"
      | some _ => "time.Location(\"\")"] ++ ")"
  | m => m.text

end Moment

end OperationGraph
