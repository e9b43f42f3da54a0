import SparqlBind.Number.Shortest

/-!
# JSON

Values, a reader and a writer. Members of an object are kept sorted by key, and the last of several
members with one key stands. Integers from -2^63 to 2^64 - 1 are exact; other numbers are floats.
The writer escapes quotes, backslashes and control characters, and nothing else.
-/

namespace SparqlBind

inductive JsonNumber
  | integer (n : Int)
  | float (x : Float)

inductive Json
  | null
  | bool (b : Bool)
  | number (n : JsonNumber)
  | string (s : String)
  | array (items : List Json)
  | object (members : List (String × Json))

namespace Json

instance : Inhabited Json := ⟨null⟩

def ofNat (n : Nat) : Json := .number (.integer n)

def member? (key : String) : Json → Option Json
  | object members => members.lookup key
  | _ => none

/-- Puts a member in its place among sorted ones, in the place of one with the same key. -/
def insertMember (key : String) (value : Json) : List (String × Json) → List (String × Json)
  | [] => [(key, value)]
  | m :: rest =>
    if key = m.1 then (key, value) :: rest
    else if key < m.1 then (key, value) :: m :: rest
    else m :: insertMember key value rest

def ofMembers (members : List (String × Json)) : Json :=
  object (members.foldl (fun sorted m => insertMember m.1 m.2 sorted) [])

/-! ## Writing -/

def hexDigit (n : Nat) : Char := if n < 10 then Char.ofNat (48 + n) else Char.ofNat (87 + n)

def escapeChar (c : Char) : List Char :=
  if c = '"' then ['\\', '"']
  else if c = '\\' then ['\\', '\\']
  else if c = '\n' then ['\\', 'n']
  else if c = '\r' then ['\\', 'r']
  else if c = '\t' then ['\\', 't']
  else if c = '\x08' then ['\\', 'b']
  else if c = '\x0c' then ['\\', 'f']
  else if c.toNat < 32 then ['\\', 'u', '0', '0', hexDigit (c.toNat / 16), hexDigit (c.toNat % 16)]
  else [c]

def quote (s : String) : List Char := '"' :: s.toList.flatMap escapeChar ++ ['"']

def numberText : JsonNumber → String
  | .integer n => toString n
  | .float x => Shortest.render Shortest.jsonStyle (Shortest.decodeFloat x)

mutual

def chars : Json → List Char
  | null => ['n', 'u', 'l', 'l']
  | bool b => if b then ['t', 'r', 'u', 'e'] else ['f', 'a', 'l', 's', 'e']
  | number n => (numberText n).toList
  | string s => quote s
  | array items => '[' :: itemChars items ++ [']']
  | object members => '\x7b' :: memberChars members ++ ['\x7d']

def itemChars : List Json → List Char
  | [] => []
  | [item] => item.chars
  | item :: rest => item.chars ++ ',' :: itemChars rest

def memberChars : List (String × Json) → List Char
  | [] => []
  | [(key, value)] => quote key ++ ':' :: value.chars
  | (key, value) :: rest => quote key ++ ':' :: value.chars ++ ',' :: memberChars rest

end

/-- The compact text of a value. -/
def render (j : Json) : String := String.ofList j.chars

/-! ## Reading -/

def isBlank (c : Char) : Bool := c == ' ' || c == '\n' || c == '\r' || c == '\t'

def skipBlank (text : List Char) : List Char := text.dropWhile isBlank

def hexValue? (c : Char) : Option Nat :=
  if c.isDigit then some (c.toNat - 48)
  else if 'a' ≤ c && c ≤ 'f' then some (c.toNat - 87)
  else if 'A' ≤ c && c ≤ 'F' then some (c.toNat - 55)
  else none

def hexCode? (a b c d : Char) : Option Nat := do
  pure (4096 * (← hexValue? a) + 256 * (← hexValue? b) + 16 * (← hexValue? c) + (← hexValue? d))

def isHighSurrogate (n : Nat) : Bool := 0xD800 ≤ n && n < 0xDC00

def isLowSurrogate (n : Nat) : Bool := 0xDC00 ≤ n && n < 0xE000

def simpleEscape? : Char → Option Char
  | '"' => some '"'
  | '\\' => some '\\'
  | '/' => some '/'
  | 'b' => some '\x08'
  | 'f' => some '\x0c'
  | 'n' => some '\n'
  | 'r' => some '\r'
  | 't' => some '\t'
  | _ => none

/-- Reads the rest of a string after its opening quote; `read` holds its characters so far, last
first. -/
def readString (read : List Char) : List Char → Option (String × List Char)
  | [] => none
  | '"' :: rest => some (String.ofList read.reverse, rest)
  | '\\' :: 'u' :: a :: b :: c :: d :: rest =>
    match hexCode? a b c d with
    | none => none
    | some high =>
      if isLowSurrogate high then none
      else if isHighSurrogate high then
        match rest with
        | '\\' :: 'u' :: e :: f :: g :: h :: rest =>
          match hexCode? e f g h with
          | none => none
          | some low =>
            if isLowSurrogate low then
              readString (Char.ofNat (0x10000 + (high - 0xD800) * 0x400 + (low - 0xDC00)) :: read) rest
            else none
        | _ => none
      else readString (Char.ofNat high :: read) rest
  | '\\' :: c :: rest =>
    match simpleEscape? c with
    | some c => readString (c :: read) rest
    | none => none
  | c :: rest => if c.toNat < 32 then none else readString (c :: read) rest

def digitsValue (digits : List Char) : Nat :=
  digits.foldl (fun n d => 10 * n + (d.toNat - 48)) 0

/-- The float of a decimal number, if it is finite. -/
def floatOf? (negative : Bool) (digits : Nat) (exponent : Int) : Option JsonNumber :=
  let x :=
    if exponent < 0 then Float.ofScientific digits true exponent.natAbs
    else Float.ofScientific digits false exponent.natAbs
  if x.isFinite then some (.float (if negative then -x else x)) else none

def readFraction : List Char → Option (List Char × List Char)
  | '.' :: rest =>
    let digits := rest.takeWhile Char.isDigit
    if digits.isEmpty then none else some (digits, rest.dropWhile Char.isDigit)
  | rest => some ([], rest)

def readExponent (text : List Char) : Option (Option Int × List Char) :=
  let signed (negative : Bool) (rest : List Char) : Option (Option Int × List Char) :=
    let digits := rest.takeWhile Char.isDigit
    let size : Int := min (digitsValue digits) 100000
    if digits.isEmpty then none
    else some (some (if negative then -size else size), rest.dropWhile Char.isDigit)
  match text with
  | e :: rest =>
    if e == 'e' || e == 'E' then
      match rest with
      | '+' :: rest => signed false rest
      | '-' :: rest => signed true rest
      | rest => signed false rest
    else some (none, e :: rest)
  | [] => some (none, [])

def integerNumber? (negative : Bool) (n : Nat) : Option JsonNumber :=
  if negative then
    if n ≠ 0 && n ≤ 0x8000000000000000 then some (.integer (-n)) else floatOf? true n 0
  else if n < 0x10000000000000000 then some (.integer n) else floatOf? false n 0

def readUnsigned (negative : Bool) (text : List Char) : Option (JsonNumber × List Char) := do
  let whole := text.takeWhile Char.isDigit
  if whole.isEmpty || (whole.length > 1 && whole.head? == some '0') then none
  let (fraction, rest) ← readFraction (text.dropWhile Char.isDigit)
  let (exponent, rest) ← readExponent rest
  if fraction.isEmpty && exponent.isNone then
    pure (← integerNumber? negative (digitsValue whole), rest)
  else
    let digits := digitsValue (whole ++ fraction)
    if digits == 0 then pure (.float (if negative then -0.0 else 0.0), rest)
    else pure (← floatOf? negative digits (exponent.getD 0 - fraction.length), rest)

def readNumber : List Char → Option (JsonNumber × List Char)
  | '-' :: rest => readUnsigned true rest
  | rest => readUnsigned false rest

mutual

/-- Reads one value; `fuel` bounds the characters it may take. -/
def readValue : Nat → List Char → Option (Json × List Char)
  | 0, _ => none
  | fuel + 1, text =>
    match skipBlank text with
    | 'n' :: 'u' :: 'l' :: 'l' :: rest => some (null, rest)
    | 't' :: 'r' :: 'u' :: 'e' :: rest => some (bool true, rest)
    | 'f' :: 'a' :: 'l' :: 's' :: 'e' :: rest => some (bool false, rest)
    | '"' :: rest => (readString [] rest).map fun p => (string p.1, p.2)
    | '[' :: rest =>
      match skipBlank rest with
      | ']' :: rest => some (array [], rest)
      | rest => (readItems fuel rest).map fun p => (array p.1, p.2)
    | '\x7b' :: rest =>
      match skipBlank rest with
      | '\x7d' :: rest => some (object [], rest)
      | rest => (readMembers fuel rest).map fun p => (ofMembers p.1, p.2)
    | rest => (readNumber rest).map fun p => (number p.1, p.2)

def readItems : Nat → List Char → Option (List Json × List Char)
  | 0, _ => none
  | fuel + 1, text =>
    match readValue fuel text with
    | none => none
    | some (item, rest) =>
      match skipBlank rest with
      | ',' :: rest => (readItems fuel rest).map fun p => (item :: p.1, p.2)
      | ']' :: rest => some ([item], rest)
      | _ => none

def readMembers : Nat → List Char → Option (List (String × Json) × List Char)
  | 0, _ => none
  | fuel + 1, text =>
    match skipBlank text with
    | '"' :: rest =>
      match readString [] rest with
      | none => none
      | some (key, rest) =>
        match skipBlank rest with
        | ':' :: rest =>
          match readValue fuel rest with
          | none => none
          | some (value, rest) =>
            match skipBlank rest with
            | ',' :: rest => (readMembers fuel rest).map fun p => ((key, value) :: p.1, p.2)
            | '\x7d' :: rest => some ([(key, value)], rest)
            | _ => none
        | _ => none
    | _ => none

end

def parse? (text : String) : Option Json :=
  let chars := text.toList
  match readValue (2 * chars.length + 1) chars with
  | some (value, rest) => if (skipBlank rest).isEmpty then some value else none
  | none => none

end Json

end SparqlBind
