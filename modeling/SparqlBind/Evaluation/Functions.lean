import SparqlBind.Evaluation.Arithmetic
import SparqlBind.Evaluation.Casts
import SparqlBind.Evaluation.Chance
import SparqlBind.Rdf.Iri
import SparqlBind.Sparql.Algebra
import SparqlBind.Text.NameChar

/-!
# Built-in functions

The value of a built-in function on the values of its arguments, or nothing when it raises an error.
-/

namespace SparqlBind

/-- What functions know apart from their arguments. -/
structure FunctionContext where
  base : Option Iri
  now : Timestamp
  chance : Chance
deriving Inhabited

namespace BuiltIn

def ofBool (b : Bool) : Option Value := some (.boolean b)

/-! ## Terms -/

def makeIri? (base : Option Iri) : Value → Option Value
  | .iri i => some (.iri i)
  | .string s =>
    let root := base.bind fun b => (IriReference.parse b.text).toOption
    ((Iri.resolve root s).toOption).map .iri
  | _ => none

def makeBlank? : Value → Option Value
  | .string label => if NameChar.isLabel label then some (.blank label) else none
  | _ => none

def termFunction? (c : FunctionContext) : BuiltIn → List Value → Option Value
  | str, [v] => v.text?.map .string
  | lang, [v] => v.language?.map .string
  | datatype, [v] => v.datatype?.map .iri
  | iri, [v] => makeIri? c.base v
  | bnode, [] => some (.blank c.chance.label)
  | bnode, [v] => makeBlank? v
  | isIri, [.iri _] => ofBool true
  | isIri, [_] => ofBool false
  | isBlank, [.blank _] => ofBool true
  | isBlank, [_] => ofBool false
  | isLiteral, [v] => ofBool v.isLiteral
  | isNumeric, [v] => ofBool (Value.numberPair? v v).isSome
  | strLang, [s, l] => Value.withLanguage? s l
  | strDatatype, [s, d] => Value.withDatatype? s d
  | langMatches, [l, r] => Value.langMatches? l r
  | rand, [] => some (.double c.chance.double)
  | now, [] => some (.timestamp .dateTime c.now)
  | uuid, [] => some (.iri ⟨"urn:uuid:" ++ c.chance.uuid⟩)
  | strUuid, [] => some (.string c.chance.uuid)
  | _, _ => none

/-! ## Numbers and texts -/

def numberFunction? : BuiltIn → Value → Option Value
  | abs, v => v.abs?
  | ceil, v => v.ceil?
  | floor, v => v.floor?
  | round, v => v.round?
  | _, _ => none

def textFunction? : BuiltIn → List Value → Option Value
  | concat, vs => Value.concat? vs
  | subStr, [v, start] => Value.substring? v start none
  | subStr, [v, start, length] => Value.substring? v start (some length)
  | strLen, [v] => v.length?
  | upper, [v] => v.mapText? CaseMap.upper
  | lower, [v] => v.mapText? CaseMap.lower
  | encodeForUri, [v] => v.text?.map fun s => .string (Value.encodeForUri s)
  | contains, [a, b] => Value.contains? a b
  | strStarts, [a, b] => Value.startsWith? a b
  | strEnds, [a, b] => Value.endsWith? a b
  | strBefore, [a, b] => Value.before? a b
  | strAfter, [a, b] => Value.after? a b
  | replace, [v, p, r] => Value.replace? v p r none
  | replace, [v, p, r, f] => Value.replace? v p r (some f)
  | regex, [v, p] => Value.matches? v p none
  | regex, [v, p, f] => Value.matches? v p (some f)
  | md5, [v] => v.digest? Digest.md5
  | sha1, [v] => v.digest? Digest.sha1
  | sha256, [v] => v.digest? Digest.sha256
  | sha384, [v] => v.digest? Digest.sha384
  | sha512, [v] => v.digest? Digest.sha512
  | _, _ => none

/-! ## Dates and times -/

/-- A field of a date or time of one of the given kinds. -/
def field? (kinds : List TimestampKind) (read : CalendarFields → Value) : Value → Option Value
  | .timestamp kind t => if kinds.contains kind then some (read t.fields) else none
  | _ => none

def offsetDuration (minutes : Int) : Value :=
  .duration .dayTime ⟨0, ⟨minutes * Timestamp.minute⟩⟩

/-- The offset that a duration of whole minutes, fourteen hours at most, stands for. -/
def offset? : Value → Option Int
  | .duration _ d =>
    let minutes := d.seconds.units.tdiv Timestamp.minute
    if d.months == 0 && d.seconds.units == minutes * Timestamp.minute && minutes.natAbs ≤ 840 then
      some minutes
    else none
  | _ => none

def timeFunction? : BuiltIn → List Value → Option Value
  | year, [v] => field? [.dateTime, .date, .gYearMonth, .gYear] (fun f => .integer f.year) v
  | month, [v] =>
    field? [.dateTime, .date, .gYearMonth, .gMonthDay, .gMonth] (fun f => .integer f.month) v
  | day, [v] => field? [.dateTime, .date, .gMonthDay, .gDay] (fun f => .integer f.day) v
  | hours, [v] => field? [.dateTime, .time] (fun f => .integer f.hour) v
  | minutes, [v] => field? [.dateTime, .time] (fun f => .integer f.minute) v
  | seconds, [v] => field? [.dateTime, .time] (fun f => .decimal f.second) v
  | timezone, [.timestamp _ t] => t.offset.map offsetDuration
  | tz, [.timestamp _ t] => some (.string t.zoneText)
  | adjust, [.timestamp kind t, zone] => do
    pure (.timestamp kind (← t.adjust? kind (some (← offset? zone))))
  | _, _ => none

def isNumberFunction (f : BuiltIn) : Bool := [abs, ceil, floor, round].contains f

def isTimeFunction (f : BuiltIn) : Bool :=
  [year, month, day, hours, minutes, seconds, timezone, tz, adjust].contains f

def isTextFunction (f : BuiltIn) : Bool :=
  [concat, subStr, strLen, upper, lower, encodeForUri, contains, strStarts, strEnds, strBefore,
    strAfter, replace, regex, md5, sha1, sha256, sha384, sha512].contains f

def value? (c : FunctionContext) (f : BuiltIn) (arguments : List Value) : Option Value :=
  if isTextFunction f then textFunction? f arguments
  else if isTimeFunction f then timeFunction? f arguments
  else if isNumberFunction f then
    match arguments with
    | [v] => numberFunction? f v
    | _ => none
  else termFunction? c f arguments

end BuiltIn

end SparqlBind
