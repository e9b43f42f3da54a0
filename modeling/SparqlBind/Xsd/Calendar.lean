import SparqlBind.Xsd.Decimal

/-!
# Calendar

Days of the proleptic Gregorian calendar, with a year zero, counted from 1 March of that year, and
the seven fields a date and a time are made of.
-/

namespace SparqlBind

/-- The fields of a local date and time. Seconds are a decimal. -/
structure CalendarFields where
  year : Int
  month : Nat
  day : Nat
  hour : Nat
  minute : Nat
  second : Decimal
deriving DecidableEq, Inhabited

namespace Calendar

def isLeap (year : Int) : Bool := year % 4 == 0 && (year % 100 != 0 || year % 400 == 0)

def daysInMonth (year : Int) (month : Nat) : Nat :=
  if month == 2 then if isLeap year then 29 else 28
  else if [4, 6, 9, 11].contains month then 30 else 31

/-- The number of a day. -/
def dayNumber (year : Int) (month day : Nat) : Int :=
  let y := if month ≤ 2 then year - 1 else year
  let m : Int := ((month + 9) % 12 : Nat)
  365 * y + y.fdiv 4 - y.fdiv 100 + y.fdiv 400 + (153 * m + 2).fdiv 5 + day - 1

/-- The year, month and day of a number. -/
def ofDayNumber (n : Int) : Int × Nat × Nat :=
  let era := n.fdiv 146097
  let dayOfEra := n - era * 146097
  let yearOfEra := (dayOfEra - dayOfEra.fdiv 1460 + dayOfEra.fdiv 36524 - dayOfEra.fdiv 146096).fdiv 365
  let dayOfYear := dayOfEra - (365 * yearOfEra + yearOfEra.fdiv 4 - yearOfEra.fdiv 100)
  let shifted := (5 * dayOfYear + 2).fdiv 153
  let day := dayOfYear - (153 * shifted + 2).fdiv 5 + 1
  let month := if shifted < 10 then shifted + 3 else shifted - 9
  (yearOfEra + era * 400 + (if month ≤ 2 then 1 else 0), month.toNat, day.toNat)

def secondsOfDay : Int := 86400

/-- The instant of some local fields, in units of decimals. -/
def instant (f : CalendarFields) : Int :=
  (dayNumber f.year f.month f.day * secondsOfDay + 3600 * f.hour + 60 * f.minute) * Decimal.one +
    f.second.units

def fieldsOf (units : Int) : CalendarFields :=
  let day := units.fdiv (secondsOfDay * Decimal.one)
  let rest := units - day * (secondsOfDay * Decimal.one)
  let seconds := (rest.fdiv Decimal.one).toNat
  let (year, month, dayOfMonth) := ofDayNumber day
  { year := year
    month := month
    day := dayOfMonth
    hour := seconds / 3600
    minute := seconds % 3600 / 60
    second := ⟨rest - (seconds - seconds % 60 : Nat) * Decimal.one⟩ }

/-- The fields some months later; the day is at most the last one of the month. -/
def addMonths (f : CalendarFields) (months : Int) : CalendarFields :=
  let total := f.year * 12 + (f.month - 1 : Nat) + months
  let year := total.fdiv 12
  let month := (total - year * 12).toNat + 1
  { f with year := year, month := month, day := min f.day (daysInMonth year month) }

end Calendar

end SparqlBind
