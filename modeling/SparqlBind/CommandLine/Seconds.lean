import SparqlBind.Number.Nearest
import SparqlBind.Time

/-!
# Seconds

A duration written as a number of seconds. The number is rounded to a binary one of 53 bits first and
then to whole nanoseconds; it must be at least zero and below `2 ^ 64`.
-/

namespace SparqlBind

inductive SecondsError
  | empty
  | malformed
  | negative
  | outOfRange
deriving DecidableEq, Inhabited

namespace SecondsError

def message : SecondsError → String
  | empty => "cannot parse float from empty string"
  | malformed => "invalid float literal"
  | negative => "cannot convert float seconds to Duration: value is negative"
  | outOfRange =>
    "cannot convert float seconds to Duration: value is either too big or NaN"

end SecondsError

namespace Seconds

/-- What a text without its sign stands for. -/
inductive Magnitude
  | notANumber
  | infinite
  | finite (digits : List Nat) (exponent : Int)

def digitValue (c : Char) : Nat := c.toNat - 48

def number (digits : List Char) : Nat := digits.foldl (fun n d => 10 * n + digitValue d) 0

def splitSign : List Char → Bool × List Char
  | '-' :: rest => (true, rest)
  | '+' :: rest => (false, rest)
  | text => (false, text)

/-- The exponent after the digits: nothing, or a mark and a signed number. -/
def readExponent? : List Char → Option Int
  | [] => some 0
  | mark :: rest =>
    let (negative, digits) := splitSign rest
    if (mark == 'e' || mark == 'E') && !digits.isEmpty && digits.all Char.isDigit then
      some (if negative then -(number digits : Int) else number digits)
    else none

def splitFraction : List Char → List Char × List Char
  | '.' :: rest => (rest.takeWhile Char.isDigit, rest.dropWhile Char.isDigit)
  | rest => ([], rest)

def readFinite? (text : List Char) : Option Magnitude :=
  let whole := text.takeWhile Char.isDigit
  let (fraction, rest) := splitFraction (text.dropWhile Char.isDigit)
  if whole.isEmpty && fraction.isEmpty then none
  else (readExponent? rest).map fun exponent =>
    .finite ((whole ++ fraction).map digitValue) (exponent - fraction.length)

def readMagnitude? (text : List Char) : Option Magnitude :=
  let lower := String.ofList (text.map Char.toLower)
  if lower == "inf" || lower == "infinity" then some .infinite
  else if lower == "nan" then some .notANumber
  else readFinite? text

def nanosecondsPerSecond : Nat := 1000000000

def durationOf (b : Nearest.Binary) : Except SecondsError Duration :=
  let total := b.roundTimes nanosecondsPerSecond
  if 0x10000000000000000 ≤ total / nanosecondsPerSecond then .error .outOfRange
  else .ok ⟨total / nanosecondsPerSecond, total % nanosecondsPerSecond⟩

def Magnitude.toDuration (negative : Bool) : Magnitude → Except SecondsError Duration
  | .notANumber => .error .outOfRange
  | .infinite => .error (if negative then .negative else .outOfRange)
  | .finite digits exponent =>
    match Nearest.ofDecimal? digits exponent with
    | none => .error (if negative then .negative else .outOfRange)
    | some b => if negative && !b.isZero then .error .negative else durationOf b

def parse (text : String) : Except SecondsError Duration :=
  let (negative, rest) := splitSign text.toList
  if text.isEmpty then .error .empty
  else
    match readMagnitude? rest with
    | none => .error .malformed
    | some m => m.toDuration negative

end Seconds

end SparqlBind
