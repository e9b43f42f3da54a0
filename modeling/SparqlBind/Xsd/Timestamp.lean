import SparqlBind.Xsd.Duration

/-!
# Dates and times

The eight datatypes of dates, times and their parts, all held as an instant and an optional offset
from universal time in minutes. A part that a datatype lacks is taken from the end of 1972. Values
with and without offset are compared only when the answer is the same for every offset up to
fourteen hours.
-/

namespace SparqlBind

inductive TimestampKind
  | dateTime | time | date | gYearMonth | gYear | gMonthDay | gDay | gMonth
deriving DecidableEq, Inhabited

structure Timestamp where
  /-- Universal time in units of decimals, or local time when there is no offset. -/
  units : Int
  offset : Option Int
deriving DecidableEq, Inhabited

namespace Timestamp

def minute : Int := 60 * Decimal.one

def fields (t : Timestamp) : CalendarFields := Calendar.fieldsOf (t.units + t.offset.getD 0 * minute)

def ofFields? (f : CalendarFields) (offset : Option Int) : Option Timestamp :=
  let units := Calendar.instant f - offset.getD 0 * minute
  if Decimal.fits units then some ⟨units, offset⟩ else none

/-! ## Reading -/

abbrev Scan (α : Type) := List Char → Option (α × List Char)

def twoDigits : Scan Nat
  | a :: b :: rest =>
    if a.isDigit && b.isDigit then some (Decimal.digitsValue [a, b], rest) else none
  | _ => none

def inRange (least most : Nat) (s : Scan Nat) : Scan Nat := fun text =>
  (s text).bind fun p => if least ≤ p.1 && p.1 ≤ most then some p else none

def char (c : Char) : Scan Unit
  | d :: rest => if c == d then some ((), rest) else none
  | [] => none

def yearDigits : Scan Nat := fun text =>
  let digits := text.takeWhile Char.isDigit
  if digits.length < 4 || (4 < digits.length && digits.head? == some '0') then none
  else some (Decimal.digitsValue digits, text.dropWhile Char.isDigit)

def year : Scan Int := fun text =>
  let bounded (n : Int) (rest : List Char) : Option (Int × List Char) :=
    if XsdDuration.fitsMonths n then some (n, rest) else none
  match text with
  | '-' :: rest => (yearDigits rest).bind fun p => bounded (-p.1) p.2
  | rest => (yearDigits rest).bind fun p => bounded p.1 p.2

def seconds : Scan Decimal := fun text => do
  let (whole, rest) ← twoDigits text
  match rest with
  | '.' :: rest =>
    let digits := rest.takeWhile Char.isDigit
    if digits.isEmpty then none
    let d ← Decimal.parse? (String.ofList ('0' :: '.' :: digits))
    pure (⟨whole * Decimal.one + d.units⟩, rest.dropWhile Char.isDigit)
  | rest => pure (⟨whole * Decimal.one⟩, rest)

def offsetBody (negative : Bool) : Scan Int := fun text => do
  let (hours, rest) ← twoDigits text
  let (_, rest) ← char ':' rest
  let (minutes, rest) ← inRange 0 59 twoDigits rest
  let total := 60 * hours + minutes
  if 14 * 60 < total then none
  else pure (if negative then -(total : Int) else total, rest)

def zone : Scan (Option Int)
  | [] => some (none, [])
  | 'Z' :: rest => some (some 0, rest)
  | '+' :: rest => (offsetBody false rest).map fun p => (some p.1, p.2)
  | '-' :: rest => (offsetBody true rest).map fun p => (some p.1, p.2)
  | _ => none

def month : Scan Nat := inRange 1 12 twoDigits

def day : Scan Nat := inRange 1 31 twoDigits

/-- Hour, minute and second; `24:00:00` is the start of the next day, told by the hour 24. -/
def clock : Scan (Nat × Nat × Decimal) := fun text => do
  let (h, rest) ← inRange 0 24 twoDigits text
  let (_, rest) ← char ':' rest
  let (m, rest) ← inRange 0 59 twoDigits rest
  let (_, rest) ← char ':' rest
  let (s, rest) ← seconds rest
  if 60 * Decimal.one ≤ s.units || (h == 24 && (m ≠ 0 || s.units ≠ 0)) then none
  else pure ((h, m, s), rest)

/-- The year, month and day that stand in for missing ones. -/
def defaultFields : CalendarFields := ⟨1972, 12, 31, 0, 0, ⟨0⟩⟩

def withLastDay (f : CalendarFields) : CalendarFields :=
  { f with day := Calendar.daysInMonth f.year f.month }

def scanDate : Scan CalendarFields := fun text => do
  let (y, rest) ← year text
  let (_, rest) ← char '-' rest
  let (m, rest) ← month rest
  let (_, rest) ← char '-' rest
  let (d, rest) ← day rest
  if d ≤ Calendar.daysInMonth y m then pure (⟨y, m, d, 0, 0, ⟨0⟩⟩, rest) else none

def scan : TimestampKind → Scan CalendarFields
  | .dateTime, text => do
    let (f, rest) ← scanDate text
    let (_, rest) ← char 'T' rest
    let ((h, m, s), rest) ← clock rest
    pure ({ f with hour := h, minute := m, second := s }, rest)
  | .time, text => do
    let ((h, m, s), rest) ← clock text
    pure ({ defaultFields with hour := h % 24, minute := m, second := s }, rest)
  | .date, text => scanDate text
  | .gYearMonth, text => do
    let (y, rest) ← year text
    let (_, rest) ← char '-' rest
    let (m, rest) ← month rest
    pure (withLastDay { defaultFields with year := y, month := m }, rest)
  | .gYear, text => do
    let (y, rest) ← year text
    pure ({ defaultFields with year := y }, rest)
  | .gMonthDay, text => do
    let (_, rest) ← char '-' text
    let (_, rest) ← char '-' rest
    let (m, rest) ← month rest
    let (_, rest) ← char '-' rest
    let (d, rest) ← day rest
    if d ≤ Calendar.daysInMonth 1972 m then pure ({ defaultFields with month := m, day := d }, rest)
    else none
  | .gDay, text => do
    let (_, rest) ← char '-' text
    let (_, rest) ← char '-' rest
    let (_, rest) ← char '-' rest
    let (d, rest) ← day rest
    pure ({ defaultFields with day := d }, rest)
  | .gMonth, text => do
    let (_, rest) ← char '-' text
    let (_, rest) ← char '-' rest
    let (m, rest) ← month rest
    pure (withLastDay { defaultFields with month := m }, rest)

def parse? (kind : TimestampKind) (text : String) : Option Timestamp := do
  let (f, rest) ← scan kind text.toList
  let (z, rest) ← zone rest
  if rest.isEmpty then ofFields? f z else none

/-! ## Writing -/

def padded (width n : Nat) : String :=
  let digits := Nat.toDigits 10 n
  String.ofList (List.replicate (width - digits.length) '0' ++ digits)

def yearText (y : Int) : String := (if y < 0 then "-" else "") ++ padded 4 y.natAbs

def secondText (s : Decimal) : String :=
  if s.units < 10 * Decimal.one then "0" ++ s.render else s.render

def offsetText (minutes : Int) : String :=
  if minutes = 0 then "Z"
  else (if minutes < 0 then "-" else "+") ++ padded 2 (minutes.natAbs / 60) ++ ":" ++
    padded 2 (minutes.natAbs % 60)

def zoneText (t : Timestamp) : String := (t.offset.map offsetText).getD ""

def clockText (f : CalendarFields) : String :=
  padded 2 f.hour ++ ":" ++ padded 2 f.minute ++ ":" ++ secondText f.second

def dateText (f : CalendarFields) : String :=
  yearText f.year ++ "-" ++ padded 2 f.month ++ "-" ++ padded 2 f.day

def render (kind : TimestampKind) (t : Timestamp) : String :=
  let f := t.fields
  let body := match kind with
    | .dateTime => dateText f ++ "T" ++ clockText f
    | .time => clockText f
    | .date => dateText f
    | .gYearMonth => yearText f.year ++ "-" ++ padded 2 f.month
    | .gYear => yearText f.year
    | .gMonthDay => "--" ++ padded 2 f.month ++ "-" ++ padded 2 f.day
    | .gDay => "---" ++ padded 2 f.day
    | .gMonth => "--" ++ padded 2 f.month
  body ++ t.zoneText

/-! ## Order and arithmetic -/

def compare? (a b : Timestamp) : Option Ordering :=
  let widest := 14 * 60 * minute
  match a.offset, b.offset with
  | some _, none =>
    if a.units < b.units - widest then some .lt
    else if b.units + widest < a.units then some .gt
    else none
  | none, some _ =>
    if a.units + widest < b.units then some .lt
    else if b.units < a.units - widest then some .gt
    else none
  | _, _ => some (Ord.compare a.units b.units)

def equal (a b : Timestamp) : Bool := a.offset.isSome == b.offset.isSome && a.units == b.units

/-- The fields of a datatype, with those it lacks taken from the defaults. -/
def keep (kind : TimestampKind) (f : CalendarFields) : CalendarFields :=
  match kind with
  | .dateTime => f
  | .time => { defaultFields with hour := f.hour, minute := f.minute, second := f.second }
  | .date => ⟨f.year, f.month, f.day, 0, 0, ⟨0⟩⟩
  | .gYearMonth => withLastDay { defaultFields with year := f.year, month := f.month }
  | .gYear => { defaultFields with year := f.year }
  | .gMonthDay => { defaultFields with month := f.month, day := f.day }
  | .gDay => { defaultFields with day := f.day }
  | .gMonth => withLastDay { defaultFields with month := f.month }

def convert? (kind : TimestampKind) (t : Timestamp) : Option Timestamp :=
  ofFields? (keep kind t.fields) t.offset

def addDuration? (kind : TimestampKind) (t : Timestamp) (d : XsdDuration) : Option Timestamp := do
  let moved ← ofFields? (Calendar.addMonths t.fields d.months) t.offset
  let units := moved.units + d.seconds.units
  if Decimal.fits units then convert? kind ⟨units, t.offset⟩ else none

def difference? (a b : Timestamp) : Option XsdDuration :=
  if a.offset.isSome == b.offset.isSome then XsdDuration.make? 0 (a.units - b.units) else none

/-- The same instant seen from another offset; local time is kept when there is no offset. -/
def adjust? (kind : TimestampKind) (t : Timestamp) (target : Option Int) : Option Timestamp :=
  let units := match t.offset, target with
    | some own, none => t.units + own * minute
    | none, some wanted => t.units - wanted * minute
    | _, _ => t.units
  if Decimal.fits units then convert? kind ⟨units, target⟩ else none

end Timestamp

end SparqlBind
