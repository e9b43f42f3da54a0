import SparqlBind.Evaluation.Order

/-!
# Arithmetic

Sums, differences, products and quotients of numbers, and sums and differences of dates, times and
durations. Integers have 64 bits; a result that does not fit is an error, and so is a quotient of
decimals by zero. The quotient of integers is a decimal.
-/

namespace SparqlBind.Value

def integer? (n : Int) : Option Value := if fitsInteger n then some (integer n) else none

def joinKinds (a b : DurationKind) : DurationKind := if a = b then a else .full

def isDated (kind : TimestampKind) : Bool := kind == .dateTime || kind == .date || kind == .time

def shift? (kind : TimestampKind) (t : Timestamp) (durationKind : DurationKind) (d : XsdDuration) :
    Option Value :=
  if kind == .time && durationKind == .yearMonth then none
  else if isDated kind then (t.addDuration? kind d).map (timestamp kind)
  else none

def add? (a b : Value) : Option Value :=
  match numberPair? a b with
  | some (.integers a b) => integer? (a + b)
  | some (.decimals a b) => (a.add? b).map decimal
  | some (.floats a b) => some (float (a + b))
  | some (.doubles a b) => some (double (a + b))
  | none =>
    match a, b with
    | duration k d, duration l e => (d.add? e).map (duration (joinKinds k l))
    | timestamp k t, duration l d => shift? k t l d
    | duration l d, timestamp k t => shift? k t l d
    | _, _ => none

def subtract? (a b : Value) : Option Value :=
  match numberPair? a b with
  | some (.integers a b) => integer? (a - b)
  | some (.decimals a b) => (a.sub? b).map decimal
  | some (.floats a b) => some (float (a - b))
  | some (.doubles a b) => some (double (a - b))
  | none =>
    match a, b with
    | duration k d, duration l e => (d.sub? e).map (duration (joinKinds k l))
    | timestamp k t, duration l d => d.neg?.bind (shift? k t l)
    | timestamp k t, timestamp l u =>
      if k = l && isDated k then (t.difference? u).map (duration .dayTime) else none
    | _, _ => none

def multiply? (a b : Value) : Option Value :=
  match numberPair? a b with
  | some (.integers a b) => integer? (a * b)
  | some (.decimals a b) => (a.mul? b).map decimal
  | some (.floats a b) => some (float (a * b))
  | some (.doubles a b) => some (double (a * b))
  | none => none

def divide? (a b : Value) : Option Value :=
  match numberPair? a b with
  | some (.integers a b) => ((Decimal.ofInt a).div? (.ofInt b)).map decimal
  | some (.decimals a b) => (a.div? b).map decimal
  | some (.floats a b) => some (float (a / b))
  | some (.doubles a b) => some (double (a / b))
  | none => none

def plus? : Value → Option Value
  | integer n => some (integer n)
  | decimal d => some (decimal d)
  | float x => some (float x)
  | double x => some (double x)
  | duration k d => some (duration k d)
  | _ => none

def minus? : Value → Option Value
  | integer n => integer? (-n)
  | decimal d => d.neg?.map decimal
  | float x => some (float (-x))
  | double x => some (double (-x))
  | duration k d => d.neg?.map (duration k)
  | _ => none

def abs? : Value → Option Value
  | integer n => integer? n.natAbs
  | decimal d => d.abs?.map decimal
  | float x => some (float x.abs)
  | double x => some (double x.abs)
  | _ => none

def ceil? : Value → Option Value
  | integer n => some (integer n)
  | decimal d => d.ceil?.map decimal
  | float x => some (float x.ceil)
  | double x => some (double x.ceil)
  | _ => none

def floor? : Value → Option Value
  | integer n => some (integer n)
  | decimal d => d.floor?.map decimal
  | float x => some (float x.floor)
  | double x => some (double x.floor)
  | _ => none

/-- Halves of decimals are rounded up, halves of floats away from zero. -/
def round? : Value → Option Value
  | integer n => some (integer n)
  | decimal d => d.round?.map decimal
  | float x => some (float x.round)
  | double x => some (double x.round)
  | _ => none

end SparqlBind.Value
