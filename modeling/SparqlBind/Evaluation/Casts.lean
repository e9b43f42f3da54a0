import SparqlBind.Evaluation.Order
import SparqlBind.Evaluation.Text

/-!
# Constructors of datatypes

A value is converted to an XML Schema datatype, or a plain text is read as one.
-/

namespace SparqlBind.Value

def decimalToInteger (d : Decimal) : Option Value :=
  if fitsInteger d.truncate then some (integer d.truncate) else none

def toBoolean? : Value → Option Value
  | string s => (parseBoolean? s).map boolean
  | v => v.truth?.map boolean

def toDouble? : Value → Option Value
  | double x => some (double x)
  | float x => some (double x.toFloat)
  | integer n => some (double (intToFloat n))
  | decimal d => some (double d.toFloat)
  | boolean b => some (double (if b then 1.0 else 0.0))
  | string s => (parseFloatText? s).map fun f => double (toDouble f)
  | _ => none

def toFloat? : Value → Option Value
  | double x => some (float x.toFloat32)
  | float x => some (float x)
  | integer n => some (float (intToFloat32 n))
  | decimal d => some (float (decimalToFloat32 d))
  | boolean b => some (float (if b then 1.0 else 0.0))
  | string s => (parseFloatText? s).map fun f => float (toSingle f)
  | _ => none

def toInteger? : Value → Option Value
  | double x => (Decimal.ofFloat? x).bind decimalToInteger
  | float x => (Decimal.ofFloat? x.toFloat).bind decimalToInteger
  | integer n => some (integer n)
  | decimal d => decimalToInteger d
  | boolean b => some (integer (if b then 1 else 0))
  | string s => (parseInteger? s).map integer
  | _ => none

def toDecimal? : Value → Option Value
  | double x => (Decimal.ofFloat? x).map decimal
  | float x => (Decimal.ofFloat? x.toFloat).map decimal
  | integer n => some (decimal (.ofInt n))
  | decimal d => some (decimal d)
  | boolean b => some (decimal (.ofInt (if b then 1 else 0)))
  | string s => (Decimal.parse? s).map decimal
  | _ => none

/-- Dates and times are made from texts, from their own kind and from fuller kinds. -/
def toTimestamp? (kind : TimestampKind) : Value → Option Value
  | timestamp k t =>
    if k = kind then some (timestamp k t)
    else if k == .dateTime || (k == .date && kind != .time) then
      (t.convert? kind).map (timestamp kind)
    else none
  | string s => (Timestamp.parse? kind s).map (timestamp kind)
  | _ => none

/-- A part of a full duration can be taken only when the other part is zero. -/
def toDuration? (kind : DurationKind) : Value → Option Value
  | duration k d =>
    let fits : Bool := match kind with
      | .full => true
      | .yearMonth => k == .yearMonth || (k == .full && d.seconds.units == 0)
      | .dayTime => k == .dayTime || (k == .full && d.months == 0)
    if fits then some (duration kind d) else none
  | string s =>
    let read := match kind with
      | .full => XsdDuration.parse? s
      | .yearMonth => XsdDuration.parseYearMonth? s
      | .dayTime => XsdDuration.parseDayTime? s
    read.map (duration kind)
  | _ => none

/-- The constructors, by the local names of the datatypes. -/
def constructors : List (String × (Value → Option Value)) :=
  [("string", fun v => v.text?.map string), ("boolean", toBoolean?), ("double", toDouble?),
    ("float", toFloat?), ("integer", toInteger?), ("decimal", toDecimal?),
    ("dateTime", toTimestamp? .dateTime), ("date", toTimestamp? .date),
    ("time", toTimestamp? .time), ("gYearMonth", toTimestamp? .gYearMonth),
    ("gYear", toTimestamp? .gYear), ("gMonthDay", toTimestamp? .gMonthDay),
    ("gDay", toTimestamp? .gDay), ("gMonth", toTimestamp? .gMonth),
    ("duration", toDuration? .full), ("yearMonthDuration", toDuration? .yearMonth),
    ("dayTimeDuration", toDuration? .dayTime)]

def constructor? (function : Iri) : Option (Value → Option Value) :=
  (xsdName? function).bind fun name => constructors.lookup name

end SparqlBind.Value
