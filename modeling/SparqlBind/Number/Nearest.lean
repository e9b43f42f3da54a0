/-!
# The nearest binary number

A decimal number rounded to 53 significant bits, to the even one of two equally near neighbours. The
result is exact: a mantissa and a power of two. Small numbers have fewer bits, and a number that
rounds to `2 ^ 1024` or more has no neighbour.
-/

namespace SparqlBind.Nearest

/-- A quotient rounded to the nearest number, a half to the even one. -/
def roundDiv (num den : Nat) : Nat :=
  let below := num / den
  let rest := num % den
  if 2 * rest < den then below
  else if den < 2 * rest then below + 1
  else below + below % 2

/-- `num / den` divided by `2 ^ e` and rounded. -/
def roundScaled (num den : Nat) (e : Int) : Nat :=
  if 0 ≤ e then roundDiv num (den * Nat.pow 2 e.toNat) else roundDiv (num * Nat.pow 2 (-e).toNat) den

/-- The exponent of the leading bit of `num / den`. -/
def leading (num den : Nat) : Int :=
  let guess : Int := Int.ofNat num.log2 - Int.ofNat den.log2
  let reached : Bool :=
    if 0 ≤ guess then den * Nat.pow 2 guess.toNat ≤ num else den ≤ num * Nat.pow 2 (-guess).toNat
  if reached then guess else guess - 1

/-- A number `mantissa * 2 ^ exponent`. -/
structure Binary where
  mantissa : Nat
  exponent : Int
deriving DecidableEq, Inhabited

def Binary.isZero (b : Binary) : Bool := b.mantissa == 0

/-- `b * factor` rounded to the nearest whole number, a half to the even one. -/
def Binary.roundTimes (b : Binary) (factor : Nat) : Nat :=
  if 0 ≤ b.exponent then b.mantissa * Nat.pow 2 b.exponent.toNat * factor
  else roundDiv (b.mantissa * factor) (Nat.pow 2 (-b.exponent).toNat)

def minExponent : Int := -1074

def ofQuotient? (num den : Nat) : Option Binary :=
  if num == 0 then some ⟨0, 0⟩
  else
    let e := max minExponent (leading num den - 52)
    let m := roundScaled num den e
    if 971 < e || (e == 971 && 0x20000000000000 ≤ m) then none else some ⟨m, e⟩

/-- The binary number nearest to `digits * 10 ^ exponent`; the digits are given one by one. -/
def ofDecimal? (digits : List Nat) (exponent : Int) : Option Binary :=
  let significant := digits.dropWhile (· == 0)
  let size := exponent + significant.length
  let n := significant.foldl (fun n d => 10 * n + d) 0
  if significant.isEmpty || size < -400 then some ⟨0, 0⟩
  else if 400 < size then none
  else if 0 ≤ exponent then ofQuotient? (n * Nat.pow 10 exponent.toNat) 1
  else ofQuotient? n (Nat.pow 10 (-exponent).toNat)

end SparqlBind.Nearest
