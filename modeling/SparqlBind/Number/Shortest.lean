/-!
# Shortest decimal text of a binary number

A finite binary number `m * 2 ^ q` is written with the fewest decimal digits that read back as the
same number, and of those with the nearest. The search works in exact integer arithmetic on the
interval of reals that round to the number; only the decoding of the bits mentions a float type.
-/

namespace SparqlBind.Shortest

/-- A decimal number `digits * 10 ^ exponent`. -/
structure Scientific where
  digits : Nat
  exponent : Int
deriving DecidableEq, Inhabited

/-- A finite positive number `mantissa * 2 ^ exponent`. When `lowEdge` holds the gap below it is half
the gap above it. -/
structure Binary where
  mantissa : Nat
  exponent : Int
  lowEdge : Bool
deriving DecidableEq, Inhabited

def digitCount (n : Nat) : Nat := (Nat.toDigits 10 n).length

/-- `num / den` compared with powers of ten: the least `k` with `num / den < 10 ^ k`. -/
def magnitude (num den : Nat) : Int :=
  if den ≤ num then digitCount (num / den)
  else
    let j := digitCount (den / num) - 1
    if den ≤ num * Nat.pow 10 j then 1 - j else - j

/-- `x * 10 ^ e` as a quotient. -/
def scaled (num den : Nat) (e : Int) : Nat × Nat :=
  if 0 ≤ e then (num, den * Nat.pow 10 e.toNat) else (num * Nat.pow 10 (-e).toNat, den)

/-- The point of the decimal grid of step `10 ^ e` nearest to the number among those in the interval
of `low` to `high`, given as quotients by `den`. -/
def gridPoint? (low value high den : Nat) (closed : Bool) (e : Int) : Option Nat :=
  let (v, d) := scaled value den e
  let (lo, _) := scaled low den e
  let (hi, _) := scaled high den e
  let below := v / d
  let above := below + 1
  let belowIn := 0 < below && if closed then lo ≤ below * d else lo < below * d
  let aboveIn := if closed then above * d ≤ hi else above * d < hi
  if belowIn && aboveIn then
    if 2 * (v - below * d) < d then some below else some above
  else if belowIn then some below
  else if aboveIn then some above
  else none

def search (low value high den : Nat) (closed : Bool) (magnitude : Int) : Nat → Nat → Scientific
  | 0, _ => ⟨0, 0⟩
  | fuel + 1, count =>
    let e := magnitude - count
    match gridPoint? low value high den closed e with
    | some n => ⟨n, e⟩
    | none => search low value high den closed magnitude fuel (count + 1)

/-- Moves trailing zeros of the digits into the exponent. -/
def strip : Nat → Scientific → Scientific
  | 0, s => s
  | fuel + 1, s =>
    if s.digits ≠ 0 && s.digits % 10 == 0 then strip fuel ⟨s.digits / 10, s.exponent + 1⟩ else s

def ofBinary (b : Binary) : Scientific :=
  let e := b.exponent - 2
  let unit := if 0 ≤ e then Nat.pow 2 e.toNat else 1
  let den := if 0 ≤ e then 1 else Nat.pow 2 (-e).toNat
  let value := 4 * b.mantissa * unit
  let low := (4 * b.mantissa - if b.lowEdge then 1 else 2) * unit
  let high := (4 * b.mantissa + 2) * unit
  strip 20 (search low value high den (b.mantissa % 2 == 0) (magnitude value den) 17 1)

/-- What the bits of a float stand for. -/
inductive Decoded
  | nan
  | infinite (negative : Bool)
  | zero (negative : Bool)
  | finite (negative : Bool) (value : Binary)
deriving DecidableEq, Inhabited

/-- Decodes `1 + exponentBits + mantissaBits` bits. -/
def decode (exponentBits mantissaBits : Nat) (bits : Nat) : Decoded :=
  let mantissa := bits % Nat.pow 2 mantissaBits
  let biased := bits / Nat.pow 2 mantissaBits % Nat.pow 2 exponentBits
  let negative := bits / Nat.pow 2 (mantissaBits + exponentBits) % 2 == 1
  let top := Nat.pow 2 exponentBits - 1
  let bias : Int := (Nat.pow 2 (exponentBits - 1) : Nat) - 1 + mantissaBits
  if biased == top then if mantissa == 0 then .infinite negative else .nan
  else if biased == 0 then
    if mantissa == 0 then .zero negative else .finite negative ⟨mantissa, 1 - bias, false⟩
  else .finite negative ⟨Nat.pow 2 mantissaBits + mantissa, biased - bias, mantissa == 0 && 1 < biased⟩

def decodeFloat (x : Float) : Decoded := decode 11 52 x.toBits.toNat

def decodeFloat32 (x : Float32) : Decoded := decode 8 23 x.toBits.toNat

def digitsText (n : Nat) : List Char := Nat.toDigits 10 n

/-- Every digit in its place, without exponent. -/
def positional (s : Scientific) : String :=
  let digits := digitsText s.digits
  if 0 ≤ s.exponent then String.ofList (digits ++ List.replicate s.exponent.toNat '0')
  else
    let places := (-s.exponent).toNat
    if digits.length ≤ places then
      String.ofList ('0' :: '.' :: List.replicate (places - digits.length) '0' ++ digits)
    else
      String.ofList (digits.take (digits.length - places) ++ '.' :: digits.drop (digits.length - places))

/-- How a decoded float is written. -/
structure Style where
  nan : String
  infinity : String
  finite : Scientific → String

def signText (negative : Bool) : String := if negative then "-" else ""

def render (style : Style) : Decoded → String
  | .nan => style.nan
  | .infinite negative => signText negative ++ style.infinity
  | .zero negative => signText negative ++ style.finite ⟨0, 0⟩
  | .finite negative b => signText negative ++ style.finite (ofBinary b)

/-- Floats as datatype values are written: no exponent, `INF` and `NaN`. -/
def plainStyle : Style := ⟨"NaN", "INF", positional⟩

def exponentText (e : Int) : String := "e" ++ toString e

/-- Floats in JSON: always with a point or an exponent, positional from `1e-5` to below `1e16`. -/
def jsonFinite (s : Scientific) : String :=
  let digits := digitsText s.digits
  let point : Int := digits.length + s.exponent
  if s.digits == 0 then "0.0"
  else if 0 ≤ s.exponent && point ≤ 16 then positional s ++ ".0"
  else if -5 < point && point ≤ 16 then positional s
  else if digits.length == 1 then String.ofList digits ++ exponentText (point - 1)
  else String.ofList (digits.take 1 ++ '.' :: digits.drop 1) ++ exponentText (point - 1)

def jsonStyle : Style := ⟨"null", "null", jsonFinite⟩

end SparqlBind.Shortest
