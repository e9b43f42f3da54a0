import SparqlBind.Text.Utf8

/-!
# Form data

Pairs of names and values as one line of text: pairs are joined by `&`, a name and its value by the
first `=`, a blank is `+`, and other bytes outside a small set are written as `%` and two digits. The
reader takes any bytes; a `%` without two digits after it stands for itself.
-/

namespace SparqlBind.FormData

/-! ## Percent encoding -/

def upperHexDigit (n : Nat) : Char := if n < 10 then Char.ofNat (48 + n) else Char.ofNat (55 + n)

def percentByte (b : UInt8) : List Char :=
  ['%', upperHexDigit (b.toNat / 16), upperHexDigit (b.toNat % 16)]

def hexValue? (b : UInt8) : Option UInt8 :=
  if 48 ≤ b && b ≤ 57 then some (b - 48)
  else if 97 ≤ b && b ≤ 102 then some (b - 87)
  else if 65 ≤ b && b ≤ 70 then some (b - 55)
  else none

def pairValue? (high low : UInt8) : Option UInt8 := do
  pure (16 * (← hexValue? high) + (← hexValue? low))

def percent : UInt8 := 37

/-- Goes through the bytes with the result so far, its last byte first. -/
def percentDecodeFrom (read : List UInt8) : List UInt8 → List UInt8
  | [] => read.reverse
  | b :: rest =>
    if b = percent then
      match rest with
      | high :: low :: tail =>
        match pairValue? high low with
        | some value => percentDecodeFrom (value :: read) tail
        | none => percentDecodeFrom (b :: read) (high :: low :: tail)
      | tail => (tail.reverse ++ b :: read).reverse
    else percentDecodeFrom (b :: read) rest

def percentDecode (bytes : List UInt8) : List UInt8 := percentDecodeFrom [] bytes

/-! ## Reading -/

/-- The parts between separators; there is one more part than separators. -/
def splitOn (separator : UInt8) (bytes : List UInt8) : List (List UInt8) :=
  bytes.foldr (fun b parts =>
    if b = separator then [] :: parts
    else
      match parts with
      | part :: rest => (b :: part) :: rest
      | [] => [[b]]) [[]]

def plusToBlank (b : UInt8) : UInt8 := if b = 43 then 32 else b

def decode (bytes : List UInt8) : String :=
  Utf8.decodeLossy (percentDecode (bytes.map plusToBlank))

def equalsSign : UInt8 := 61

def parsePair (bytes : List UInt8) : String × String :=
  (decode (bytes.takeWhile (· != equalsSign)), decode ((bytes.dropWhile (· != equalsSign)).drop 1))

/-- The pairs in their order. Empty parts are left out. -/
def parse (bytes : List UInt8) : List (String × String) :=
  ((splitOn 38 bytes).filter fun part => !part.isEmpty).map parsePair

/-- The value of the first pair with the name. -/
def field? (name : String) (bytes : List UInt8) : Option String := (parse bytes).lookup name

/-! ## Writing -/

def isBare (b : UInt8) : Bool :=
  (48 ≤ b && b ≤ 57) || (65 ≤ b && b ≤ 90) || (97 ≤ b && b ≤ 122) ||
    b == 42 || b == 45 || b == 46 || b == 95

def encodeByte (b : UInt8) : List Char :=
  if b = 32 then ['+'] else if isBare b then [Char.ofNat b.toNat] else percentByte b

def encode (s : String) : String := String.ofList ((Utf8.encode s).flatMap encodeByte)

def encodePair (p : String × String) : String := encode p.1 ++ "=" ++ encode p.2

def render (pairs : List (String × String)) : String := String.intercalate "&" (pairs.map encodePair)

end SparqlBind.FormData
