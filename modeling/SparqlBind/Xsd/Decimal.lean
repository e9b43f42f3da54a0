/-!
# Decimals

Fixed-point decimals with 18 places and 128 bits. An operation whose result does not fit has none:
a product has to be exact, and a quotient is cut after as many digits as the dividend can be shifted
by. Halves are rounded up.
-/

namespace SparqlBind

/-- The number `units / 10 ^ 18`. -/
structure Decimal where
  units : Int
deriving DecidableEq, Inhabited

namespace Decimal

def places : Nat := 18

def one : Int := (Nat.pow 10 places : Nat)

def fits (n : Int) : Bool := -0x80000000000000000000000000000000 ≤ n && n < 0x80000000000000000000000000000000

def ofUnits? (n : Int) : Option Decimal := if fits n then some ⟨n⟩ else none

def ofInt (n : Int) : Decimal := ⟨n * one⟩

/-- The whole part. -/
def truncate (d : Decimal) : Int := d.units.tdiv one

def digitsValue (digits : List Char) : Nat :=
  digits.foldl (fun n d => 10 * n + (d.toNat - 48)) 0

def dropTrailingZeros (digits : List Char) : List Char := (digits.reverse.dropWhile (· == '0')).reverse

def parseUnsigned? (text : List Char) : Option Nat :=
  let whole := text.takeWhile Char.isDigit
  match text.dropWhile Char.isDigit with
  | [] => if whole.isEmpty then none else some (digitsValue whole * Nat.pow 10 places)
  | '.' :: fraction =>
    let kept := dropTrailingZeros fraction
    if whole.isEmpty && fraction.isEmpty then none
    else if !fraction.all Char.isDigit || places < kept.length then none
    else some (digitsValue (whole ++ kept) * Nat.pow 10 (places - kept.length))
  | _ => none

/-- Reads an optional sign and digits with an optional point among them. -/
def parse? (text : String) : Option Decimal :=
  match text.toList with
  | '-' :: rest => (parseUnsigned? rest).bind fun n => ofUnits? (-n)
  | '+' :: rest => (parseUnsigned? rest).bind fun n => ofUnits? n
  | rest => (parseUnsigned? rest).bind fun n => ofUnits? n

def padLeft (width : Nat) (digits : List Char) : List Char :=
  List.replicate (width - digits.length) '0' ++ digits

/-- Without superfluous zeros, and without a point when there is no fraction. -/
def render (d : Decimal) : String :=
  let n := d.units.natAbs
  let fraction := dropTrailingZeros (padLeft places (Nat.toDigits 10 (n % Nat.pow 10 places)))
  let whole := Nat.toDigits 10 (n / Nat.pow 10 places)
  let sign := if d.units < 0 then ['-'] else []
  String.ofList (sign ++ whole ++ (if fraction.isEmpty then [] else '.' :: fraction))

def add? (a b : Decimal) : Option Decimal := ofUnits? (a.units + b.units)

def sub? (a b : Decimal) : Option Decimal := ofUnits? (a.units - b.units)

def neg? (a : Decimal) : Option Decimal := ofUnits? (-a.units)

def abs? (a : Decimal) : Option Decimal := ofUnits? a.units.natAbs

/-- Takes trailing zeros off a number and counts them. -/
def stripZeros : Nat → Int → Int × Nat
  | 0, n => (n, 0)
  | fuel + 1, n =>
    if n ≠ 0 && n.tmod 10 == 0 then
      let (m, k) := stripZeros fuel (n.tdiv 10)
      (m, k + 1)
    else (n, 0)

/-- Multiplies by ten as often as the result fits, and counts how often. -/
def shiftUp : Nat → Int → Int × Nat
  | 0, n => (n, 0)
  | fuel + 1, n =>
    if n ≠ 0 && fits (10 * n) then
      let (m, k) := shiftUp fuel (10 * n)
      (m, k + 1)
    else (n, 0)

def mul? (a b : Decimal) : Option Decimal :=
  let (m, k) := stripZeros 40 a.units
  let (n, l) := stripZeros 40 b.units
  if k + l < places then none
  else if fits (m * n) then ofUnits? (m * n * (Nat.pow 10 (k + l - places) : Nat))
  else none

def div? (a b : Decimal) : Option Decimal :=
  if b.units = 0 then none
  else
    let (m, k) := shiftUp 40 a.units
    let (n, l) := stripZeros 40 b.units
    if k + l < places then none
    else ofUnits? ((m.tdiv n).tdiv (Nat.pow 10 (k + l - places) : Nat))

/-- A half goes up, also below zero. Only the first place is looked at. -/
def round? (a : Decimal) : Option Decimal :=
  let tenths := a.units.tdiv (Nat.pow 10 (places - 1) : Nat)
  let whole := tenths.tdiv 10
  let rounded :=
    if 0 ≤ tenths then whole + (if 5 ≤ tenths.tmod 10 then 1 else 0)
    else whole - (if 5 < (-tenths).tmod 10 then 1 else 0)
  ofUnits? (rounded * one)

def ceil? (a : Decimal) : Option Decimal :=
  ofUnits? ((a.truncate + if 0 < a.units && a.units.tmod one ≠ 0 then 1 else 0) * one)

def floor? (a : Decimal) : Option Decimal :=
  ofUnits? ((a.truncate - if a.units < 0 && a.units.tmod one ≠ 0 then 1 else 0) * one)

/-- Takes zeros off a number while they are places, to divide by less. -/
def reduce : Nat → Int → Int × Nat
  | 0, n => (n, 0)
  | places + 1, n => if n.tmod 10 == 0 then reduce places (n.tdiv 10) else (n, places + 1)

def toFloat (a : Decimal) : Float :=
  let (n, k) := reduce places a.units
  let x := Float.ofScientific n.natAbs false 0 / Float.ofScientific (Nat.pow 10 k) false 0
  if n < 0 then -x else x

/-- An exact integer of a finite float with no fraction, and else its whole part. -/
def floatToInt (x : Float) : Int :=
  let bits := x.toBits.toNat
  let mantissa := bits % 0x10000000000000
  let biased := bits / 0x10000000000000 % 2048
  let m := if biased == 0 then mantissa else 0x10000000000000 + mantissa
  let e : Int := (max biased 1 : Nat) - 1075
  let n : Nat := if 0 ≤ e then m * Nat.pow 2 e.toNat else m / Nat.pow 2 (-e).toNat
  if x < 0 then -(n : Int) else n

def ofFloat? (x : Float) : Option Decimal :=
  let shifted := x * 1e18
  if -1.7014118346046923e38 ≤ shifted && shifted ≤ 1.7014118346046923e38 then
    let n := floatToInt shifted
    some ⟨if 0x80000000000000000000000000000000 ≤ n then 0x80000000000000000000000000000000 - 1 else n⟩
  else none

end Decimal

end SparqlBind
