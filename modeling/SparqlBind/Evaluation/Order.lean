import SparqlBind.Xsd.Value

/-!
# Equality and order of values

Numbers are compared by value across their types. Whether two literals are equal is unknown when one
of them could not be read and they are not the same; whether one is less than another is known only
within a type. The order of results extends this to all terms: unbound values, blank nodes, IRIs,
literals.
-/

namespace SparqlBind.Value

def isLiteral : Value → Bool
  | iri _ => false
  | blank _ => false
  | _ => true

/-- Two numbers brought to the wider of their types. -/
inductive NumberPair
  | integers (a b : Int)
  | decimals (a b : Decimal)
  | floats (a b : Float32)
  | doubles (a b : Float)

def intToFloat (n : Int) : Float :=
  let x := Float.ofScientific n.natAbs false 0
  if n < 0 then -x else x

def intToFloat32 (n : Int) : Float32 :=
  let x := Float32.ofScientific n.natAbs false 0
  if n < 0 then -x else x

def decimalToFloat32 (d : Decimal) : Float32 := d.toFloat.toFloat32

def numberPair? : Value → Value → Option NumberPair
  | integer a, integer b => some (.integers a b)
  | integer a, decimal b => some (.decimals (.ofInt a) b)
  | decimal a, integer b => some (.decimals a (.ofInt b))
  | decimal a, decimal b => some (.decimals a b)
  | float a, float b => some (.floats a b)
  | float a, integer b => some (.floats a (intToFloat32 b))
  | integer a, float b => some (.floats (intToFloat32 a) b)
  | float a, decimal b => some (.floats a (decimalToFloat32 b))
  | decimal a, float b => some (.floats (decimalToFloat32 a) b)
  | double a, double b => some (.doubles a b)
  | double a, integer b => some (.doubles a (intToFloat b))
  | integer a, double b => some (.doubles (intToFloat a) b)
  | double a, decimal b => some (.doubles a b.toFloat)
  | decimal a, double b => some (.doubles a.toFloat b)
  | double a, float b => some (.doubles a b.toFloat)
  | float a, double b => some (.doubles a.toFloat b)
  | _, _ => none

def orderFloats (a b : Float) : Option Ordering :=
  if a < b then some .lt else if b < a then some .gt else if a == b then some .eq else none

def orderFloats32 (a b : Float32) : Option Ordering :=
  if a < b then some .lt else if b < a then some .gt else if a == b then some .eq else none

def NumberPair.order : NumberPair → Option Ordering
  | integers a b => some (Ord.compare a b)
  | decimals a b => some (Ord.compare a.units b.units)
  | floats a b => orderFloats32 a b
  | doubles a b => orderFloats a b

def sameTerm (a b : Value) : Bool := a.toTerm = b.toTerm

/-- Whether two values are equal, if that is known. -/
def equal? (a b : Value) : Option Bool :=
  match numberPair? a b with
  | some pair => some (pair.order == some .eq)
  | none =>
    match a, b with
    | other s d, other t e => if s = t ∧ d = e then some true else none
    | other _ _, b => if b.isLiteral then none else some false
    | a, other _ _ => if a.isLiteral then none else some false
    | timestamp k t, timestamp l u => some (k = l && t.equal u)
    | duration _ d, duration _ e => some (d = e)
    | a, b => some (a.sameTerm b)

def orderText (a b : String) : Ordering := if a < b then .lt else if a = b then .eq else .gt

/-- How two literals of one type are ordered, if they are. -/
def orderLiterals? (a b : Value) : Option Ordering :=
  match numberPair? a b with
  | some pair => pair.order
  | none =>
    match a, b with
    | string s, string t => some (orderText s t)
    | tagged s l, tagged t m => if l = m then some (orderText s t) else none
    | boolean x, boolean y => some (Ord.compare x.toNat y.toNat)
    | timestamp k t, timestamp l u => if k = l then t.compare? u else none
    | duration _ d, duration _ e => d.compare? e
    | _, _ => none

/-- How two values are ordered by the comparison operators, if they are. -/
def compare? (a b : Value) : Option Ordering :=
  match numberPair? a b with
  | some pair => pair.order
  | none => if a.sameTerm b then some .eq else orderLiterals? a b

def literalKey (v : Value) : String × String × String :=
  let l := v.toLiteral?.getD default
  (l.value, l.datatype.text, l.language?.getD "")

def orderKeys (a b : String × String × String) : Ordering :=
  (orderText a.1 b.1).then ((orderText a.2.1 b.2.1).then (orderText a.2.2 b.2.2))

/-- The order of results, in which an unbound value comes first. -/
def order : Option Value → Option Value → Ordering
  | none, none => .eq
  | none, some _ => .lt
  | some _, none => .gt
  | some (blank a), some (blank b) => orderText a b
  | some (blank _), some _ => .lt
  | some _, some (blank _) => .gt
  | some (iri a), some (iri b) => orderText a.text b.text
  | some (iri _), some _ => .lt
  | some _, some (iri _) => .gt
  | some a, some b => (orderLiterals? a b).getD (orderKeys (literalKey a) (literalKey b))

/-- The truth of a value, if it has one. -/
def truth? : Value → Option Bool
  | boolean b => some b
  | string s => some (!s.isEmpty)
  | integer n => some (n ≠ 0)
  | decimal d => some (d.units ≠ 0)
  | float x => some (x < 0.0 || 0.0 < x)
  | double x => some (x < 0.0 || 0.0 < x)
  | _ => none

end SparqlBind.Value
