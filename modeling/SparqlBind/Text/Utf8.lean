/-!
# UTF-8

Texts as lists of bytes. Bytes that are no text can still be shown: every longest start of a character
that breaks off, and every byte that starts none, gives one replacement character.
-/

namespace SparqlBind.Utf8

def encode (s : String) : List UInt8 := s.toUTF8.toList

def decode? (bytes : List UInt8) : Option String := String.fromUTF8? bytes.toByteArray

def replacement : Char := '\uFFFD'

/-- How many bytes follow the first byte of a character, and the range of the second one. -/
def continuation? (first : UInt8) : Option (Nat × UInt8 × UInt8) :=
  if first < 0xC2 then none
  else if first < 0xE0 then some (1, 0x80, 0xBF)
  else if first = 0xE0 then some (2, 0xA0, 0xBF)
  else if first = 0xED then some (2, 0x80, 0x9F)
  else if first < 0xF0 then some (2, 0x80, 0xBF)
  else if first = 0xF0 then some (3, 0x90, 0xBF)
  else if first < 0xF4 then some (3, 0x80, 0xBF)
  else if first = 0xF4 then some (3, 0x80, 0x8F)
  else none

def isTail (b : UInt8) : Bool := 0x80 ≤ b && b ≤ 0xBF

/-- The bytes after the first that belong to the character it starts, or to its broken start. -/
def tailOf (low high : UInt8) : List UInt8 → List UInt8
  | [] => []
  | second :: rest =>
    if low ≤ second && second ≤ high then second :: rest.takeWhile isTail else []

def codePoint (first : UInt8) (tail : List UInt8) : Nat :=
  tail.foldl (fun n b => 64 * n + b.toNat % 64) (first.toNat % Nat.pow 2 (6 - tail.length))

/-- The character that a byte starts, and how many more bytes it takes. -/
def front (first : UInt8) (rest : List UInt8) : Char × Nat :=
  if first < 0x80 then (Char.ofNat first.toNat, 0)
  else
    match continuation? first with
    | none => (replacement, 0)
    | some (count, low, high) =>
      let tail := tailOf low high (rest.take count)
      if tail.length = count then (Char.ofNat (codePoint first tail), count)
      else (replacement, tail.length)

/-- Goes through the bytes with the characters so far, the last one first. `skip` bytes belong to the
character before them. -/
def lossyFrom (read : List Char) : Nat → List UInt8 → List Char
  | _, [] => read.reverse
  | skip + 1, _ :: rest => lossyFrom read skip rest
  | 0, b :: rest =>
    let (c, taken) := front b rest
    lossyFrom (c :: read) taken rest

def decodeLossy (bytes : List UInt8) : String :=
  match decode? bytes with
  | some s => s
  | none => String.ofList (lossyFrom [] 0 bytes)

end SparqlBind.Utf8
