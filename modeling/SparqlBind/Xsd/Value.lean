import SparqlBind.Rdf.Term
import SparqlBind.Number.Shortest
import SparqlBind.Xsd.Timestamp

/-!
# Typed values

Terms with their literals read as values. A literal of a known datatype whose text can be read takes
the canonical text of its value; the types derived from integers are read as integers. All other
literals keep their text and their datatype.
-/

namespace SparqlBind

inductive DurationKind
  | full | yearMonth | dayTime
deriving DecidableEq, Inhabited

inductive Value
  | iri (iri : Iri)
  | blank (label : String)
  | string (text : String)
  | tagged (text language : String)
  | boolean (b : Bool)
  | float (x : Float32)
  | double (x : Float)
  | integer (n : Int)
  | decimal (d : Decimal)
  | timestamp (kind : TimestampKind) (t : Timestamp)
  | duration (kind : DurationKind) (d : XsdDuration)
  | other (text : String) (datatype : Iri)

namespace Value

instance : Inhabited Value := ⟨string ""⟩

/-! ## Reading numbers -/

def fitsInteger (n : Int) : Bool := -0x8000000000000000 ≤ n && n < 0x8000000000000000

def integerDigits? (text : List Char) : Option Nat :=
  if text.isEmpty || !text.all Char.isDigit then none else some (Decimal.digitsValue text)

/-- Reads an optional sign and digits, within 64 bits. -/
def parseInteger? (text : String) : Option Int := do
  let n : Int ← match text.toList with
    | '-' :: rest => (integerDigits? rest).map fun n => -(n : Int)
    | '+' :: rest => (integerDigits? rest).map fun n => (n : Int)
    | rest => (integerDigits? rest).map fun n => (n : Int)
  if fitsInteger n then some n else none

def parseBoolean? : String → Option Bool
  | "true" => some true
  | "1" => some true
  | "false" => some false
  | "0" => some false
  | _ => none

/-- A float as it is written. -/
inductive FloatText
  | nan
  | infinite (negative : Bool)
  | finite (negative : Bool) (digits : Nat) (exponent : Int)
deriving DecidableEq

def parseExponent? : List Char → Option Int
  | [] => some 0
  | e :: rest =>
    if e == 'e' || e == 'E' then
      match rest with
      | '-' :: digits => (integerDigits? digits).map fun n => -(n : Int)
      | '+' :: digits => (integerDigits? digits).map fun n => (n : Int)
      | digits => (integerDigits? digits).map fun n => (n : Int)
    else none

def parseUnsignedFloat? (negative : Bool) (text : List Char) : Option FloatText :=
  let name := (String.ofList text).toLower
  if name == "inf" || name == "infinity" then some (.infinite negative)
  else if name == "nan" then some .nan
  else
    let whole := text.takeWhile Char.isDigit
    let rest := text.dropWhile Char.isDigit
    let (fraction, rest) := match rest with
      | '.' :: rest => (rest.takeWhile Char.isDigit, rest.dropWhile Char.isDigit)
      | rest => ([], rest)
    if whole.isEmpty && fraction.isEmpty then none
    else (parseExponent? rest).map fun e =>
      .finite negative (Decimal.digitsValue (whole ++ fraction)) (e - fraction.length)

def parseFloatText? (text : String) : Option FloatText :=
  match text.toList with
  | '-' :: rest => parseUnsignedFloat? true rest
  | '+' :: rest => parseUnsignedFloat? false rest
  | rest => parseUnsignedFloat? false rest

/-- Digits and an exponent that no float tells from the given ones. -/
def boundedExponent (digits : Nat) (exponent : Int) : Int :=
  let size : Int := (Nat.toDigits 10 digits).length
  if 400 < exponent + size then 400 - size else if exponent + size < -400 then -400 - size else exponent

def toDouble : FloatText → Float
  | .nan => 0.0 / 0.0
  | .infinite negative => if negative then -1.0 / 0.0 else 1.0 / 0.0
  | .finite negative digits exponent =>
    let e := boundedExponent digits exponent
    let x := Float.ofScientific digits (e < 0) e.natAbs
    if negative then -x else x

def toSingle : FloatText → Float32
  | .nan => 0.0 / 0.0
  | .infinite negative => if negative then -1.0 / 0.0 else 1.0 / 0.0
  | .finite negative digits exponent =>
    let e := boundedExponent digits exponent
    let x := Float32.ofScientific digits (e < 0) e.natAbs
    if negative then -x else x

def doubleText (x : Float) : String := Shortest.render Shortest.plainStyle (Shortest.decodeFloat x)

def singleText (x : Float32) : String :=
  Shortest.render Shortest.plainStyle (Shortest.decodeFloat32 x)

/-! ## Datatypes -/

def integerTypes : List String :=
  ["integer", "byte", "short", "int", "long", "unsignedByte", "unsignedShort", "unsignedInt",
    "unsignedLong", "positiveInteger", "negativeInteger", "nonPositiveInteger", "nonNegativeInteger"]

def timestampTypes : List (String × TimestampKind) :=
  [("dateTime", .dateTime), ("dateTimeStamp", .dateTime), ("time", .time), ("date", .date),
    ("gYearMonth", .gYearMonth), ("gYear", .gYear), ("gMonthDay", .gMonthDay), ("gDay", .gDay),
    ("gMonth", .gMonth)]

def timestampName (kind : TimestampKind) : String :=
  ((timestampTypes.find? fun p => p.2 == kind).map (·.1)).getD ""

def xsdName? (datatype : Iri) : Option String :=
  let start := Iri.xsdNamespace.toList
  if start.isPrefixOf datatype.text.toList then
    some (String.ofList (datatype.text.toList.drop start.length))
  else none

def parseXsd? (name text : String) : Option Value :=
  match name with
  | "string" => some (string text)
  | "boolean" => (parseBoolean? text).map boolean
  | "float" => (parseFloatText? text).map fun f => float (toSingle f)
  | "double" => (parseFloatText? text).map fun f => double (toDouble f)
  | "decimal" => (Decimal.parse? text).map decimal
  | "duration" => (XsdDuration.parse? text).map (duration .full)
  | "yearMonthDuration" => (XsdDuration.parseYearMonth? text).map (duration .yearMonth)
  | "dayTimeDuration" => (XsdDuration.parseDayTime? text).map (duration .dayTime)
  | name =>
    match timestampTypes.lookup name with
    | some kind => (Timestamp.parse? kind text).map (timestamp kind)
    | none => if integerTypes.contains name then (parseInteger? text).map integer else none

def ofLiteral : Literal → Value
  | .plain text => string text
  | .tagged text language => tagged text language
  | .typed text datatype =>
    ((xsdName? datatype).bind fun name => parseXsd? name text).getD (other text datatype)

def ofTerm : Term → Value
  | .iri i => iri i
  | .blank label => blank label
  | .literal l => ofLiteral l

/-- The canonical literal of a value that is one. -/
def toLiteral? : Value → Option Literal
  | iri _ => none
  | blank _ => none
  | string text => some (.plain text)
  | tagged text language => some (.tagged text language)
  | boolean b => some (.ofBool b)
  | float x => some (.typed (singleText x) Iri.xsdFloat)
  | double x => some (.typed (doubleText x) Iri.xsdDouble)
  | integer n => some (.ofInt n)
  | decimal d => some (.typed d.render Iri.xsdDecimal)
  | timestamp kind t => some (.typed (t.render kind) (Iri.xsd (timestampName kind)))
  | duration .full d => some (.typed d.render (Iri.xsd "duration"))
  | duration .yearMonth d => some (.typed d.renderMonths (Iri.xsd "yearMonthDuration"))
  | duration .dayTime d => some (.typed d.render (Iri.xsd "dayTimeDuration"))
  | other text datatype => some (.typed text datatype)

def toTerm : Value → Term
  | iri i => .iri i
  | blank label => .blank label
  | v => .literal (v.toLiteral?.getD default)

end Value

/-- A term with the canonical text of its value. -/
def Term.canonical (t : Term) : Term := (Value.ofTerm t).toTerm

end SparqlBind
