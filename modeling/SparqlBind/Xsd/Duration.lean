import SparqlBind.Xsd.Calendar

/-!
# Durations as values

A duration is a number of months and a number of seconds. Durations are compared by adding them to
four reference dates: they are ordered only when all four agree.
-/

namespace SparqlBind

structure XsdDuration where
  months : Int
  seconds : Decimal
deriving DecidableEq, Inhabited

namespace XsdDuration

def fitsMonths (n : Int) : Bool := -0x8000000000000000 ≤ n && n < 0x8000000000000000

def make? (months : Int) (seconds : Int) : Option XsdDuration :=
  if fitsMonths months && Decimal.fits seconds then some ⟨months, ⟨seconds⟩⟩ else none

/-- The components that may stand in a lexical form, in their order. -/
inductive Part
  | years | months | days | hours | minutes | seconds
deriving DecidableEq

def Part.letter : Part → Char
  | years => 'Y'
  | months => 'M'
  | days => 'D'
  | hours => 'H'
  | minutes => 'M'
  | seconds => 'S'

/-- Reads digits followed by the letter of a part; only seconds may have a fraction. -/
def readPart? (p : Part) (text : List Char) : Option (Int × List Char) :=
  let number := text.takeWhile fun c => c.isDigit || c == '.'
  match text.dropWhile fun c => c.isDigit || c == '.' with
  | c :: rest =>
    if c != p.letter then none
    else if number.contains '.' then
      if p = .seconds && (number.head?.map Char.isDigit).getD false &&
          (number.getLast?.map Char.isDigit).getD false then
        (Decimal.parse? (String.ofList number)).map fun d => (d.units, rest)
      else none
    else if number.isEmpty then none
    else some (Decimal.digitsValue number * Decimal.one, rest)
  | [] => none

/-- Reads the parts that are there, and counts them. -/
def readParts : List Part → List Char → List (Part × Int) × List Char
  | [], text => ([], text)
  | p :: ps, text =>
    match readPart? p text with
    | some (n, rest) =>
      let (read, rest) := readParts ps rest
      ((p, n) :: read, rest)
    | none => readParts ps text

def partOf (read : List (Part × Int)) (p : Part) : Int := (read.lookup p).getD 0

def ofParts? (negative : Bool) (read : List (Part × Int)) : Option XsdDuration :=
  let months := (12 * partOf read .years + partOf read .months).tdiv Decimal.one
  let seconds := 86400 * partOf read .days + 3600 * partOf read .hours + 60 * partOf read .minutes +
    partOf read .seconds
  if negative then make? (-months) (-seconds) else make? months seconds

def parseBody? (negative : Bool) (dates times : List Part) (text : List Char) :
    Option XsdDuration :=
  let (date, rest) := readParts dates text
  match rest with
  | [] => if date.isEmpty then none else ofParts? negative date
  | 'T' :: rest =>
    match readParts times rest with
    | (time, []) => if time.isEmpty then none else ofParts? negative (date ++ time)
    | _ => none
  | _ => none

def parseWith? (dates times : List Part) (text : String) : Option XsdDuration :=
  match text.toList with
  | '-' :: 'P' :: rest => parseBody? true dates times rest
  | 'P' :: rest => parseBody? false dates times rest
  | _ => none

def timeParts : List Part := [.hours, .minutes, .seconds]

def parse? : String → Option XsdDuration := parseWith? [.years, .months, .days] timeParts

def parseYearMonth? : String → Option XsdDuration := parseWith? [.years, .months] []

def parseDayTime? : String → Option XsdDuration := parseWith? [.days] timeParts

def partText (n : Nat) (letter : String) : String := if n = 0 then "" else toString n ++ letter

def monthsText (months : Nat) : String := partText (months / 12) "Y" ++ partText (months % 12) "M"

def secondsText (units : Nat) : String :=
  let whole := units / Decimal.one.toNat
  let second : Decimal := ⟨units - (whole - whole % 60) * Decimal.one.toNat⟩
  let time := partText (whole % 86400 / 3600) "H" ++ partText (whole % 3600 / 60) "M" ++
    (if second.units = 0 then "" else second.render ++ "S")
  partText (whole / 86400) "D" ++ (if time.isEmpty then "" else "T" ++ time)

def signText (d : XsdDuration) : String := if d.months < 0 || d.seconds.units < 0 then "-" else ""

def render (d : XsdDuration) : String :=
  if d.months = 0 && d.seconds.units = 0 then "PT0S"
  else signText d ++ "P" ++ monthsText d.months.natAbs ++ secondsText d.seconds.units.natAbs

/-- The form of a duration of months only, whose zero is written in months. -/
def renderMonths (d : XsdDuration) : String := if d.months = 0 then "P0M" else render d

def add? (a b : XsdDuration) : Option XsdDuration :=
  make? (a.months + b.months) (a.seconds.units + b.seconds.units)

def neg? (a : XsdDuration) : Option XsdDuration := make? (-a.months) (-a.seconds.units)

def sub? (a b : XsdDuration) : Option XsdDuration :=
  make? (a.months - b.months) (a.seconds.units - b.seconds.units)

def referenceDates : List (Int × Nat) := [(1696, 9), (1697, 2), (1903, 3), (1903, 7)]

def after (d : XsdDuration) (start : Int × Nat) : Int :=
  Calendar.instant (Calendar.addMonths ⟨start.1, start.2, 1, 0, 0, ⟨0⟩⟩ d.months) + d.seconds.units

def compare? (a b : XsdDuration) : Option Ordering :=
  let orders := referenceDates.map fun start => Ord.compare (a.after start) (b.after start)
  match orders with
  | first :: rest => if rest.all (· == first) then some first else none
  | [] => none

end XsdDuration

end SparqlBind
