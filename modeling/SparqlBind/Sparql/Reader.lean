import SparqlBind.Sparql.Algebra
import SparqlBind.Rdf.Iri
import SparqlBind.Rdf.LanguageTag
import SparqlBind.Text.NameChar

/-!
# Reading queries: text and names

The state of a reader of query text and the readers of its smallest parts: blanks, keywords, IRIs,
variables, literals and blank nodes. A reader takes characters from the front of the text or fails;
after a failure the other way of reading starts again from the same state. Keywords are read without
regard to case and need no blank after them.
-/

namespace SparqlBind

structure ReaderState where
  input : List Char
  /-- The length of the whole text, a bound for every repetition. -/
  size : Nat
  base : Option Iri
  prefixes : List (String × String)
  /-- Labels of groups that are closed: they name no node any more. -/
  usedLabels : List String
  currentLabels : List String
  /-- The aggregates of the selections being read, the innermost first. -/
  aggregates : List (List Aggregate)
  /-- How many names have been made up. -/
  fresh : Nat

abbrev Reader := StateT ReaderState Option

namespace Reader

open NameChar

def fail {α : Type} : Reader α := fun _ => none

def peek : Reader (List Char) := fun s => some (s.input, s)

def drop (n : Nat) : Reader Unit := fun s => some ((), { s with input := s.input.drop n })

/-- Reads `first`, or else `second` from the same place. -/
def either {α : Type} (first second : Reader α) : Reader α := fun s =>
  match first s with
  | some r => some r
  | none => second s

def firstOf {α : Type} (readers : List (Reader α)) : Reader α := readers.foldr either fail

def option {α : Type} (r : Reader α) : Reader (Option α) := fun s =>
  match r s with
  | some (a, s) => some (some a, s)
  | none => some (none, s)

def manyFrom {α : Type} (r : Reader α) : Nat → ReaderState → List α × ReaderState
  | 0, s => ([], s)
  | n + 1, s =>
    match r s with
    | some (a, s) =>
      let (rest, s) := manyFrom r n s
      (a :: rest, s)
    | none => ([], s)

/-- Reads as often as it succeeds. -/
def many {α : Type} (r : Reader α) : Reader (List α) := fun s => some (manyFrom r (s.size + 1) s)

def many1 {α : Type} (r : Reader α) : Reader (List α) := do
  let first ← r
  pure (first :: (← many r))

/-- One or more items with a separator before each but the first. -/
def separated {α : Type} (separator : Reader Unit) (r : Reader α) : Reader (List α) := do
  let first ← r
  pure (first :: (← many (do separator; r)))

def require (b : Bool) : Reader Unit := fun s => if b then some ((), s) else none

def ofOption {α : Type} : Option α → Reader α
  | some a => pure a
  | none => fail

/-! ## Blanks and keywords -/

def isBlankChar (c : Char) : Bool := c == ' ' || c == '\t' || c == '\n' || c == '\r'

def isLineEnd (c : Char) : Bool := c == '\n' || c == '\r'

/-- Drops blanks and comments; `comment` holds inside a comment. -/
def dropBlanks (comment : Bool) : List Char → List Char
  | [] => []
  | c :: rest =>
    if comment then dropBlanks (!isLineEnd c) rest
    else if isBlankChar c then dropBlanks false rest
    else if c == '#' then dropBlanks true rest
    else c :: rest

def blanks : Reader Unit := fun s => some ((), { s with input := dropBlanks false s.input })

def dropKeyword? : List Char → List Char → Option (List Char)
  | [], input => some input
  | _ :: _, [] => none
  | k :: ks, c :: cs => if c.toUpper == k then dropKeyword? ks cs else none

def dropExact? : List Char → List Char → Option (List Char)
  | [], input => some input
  | _ :: _, [] => none
  | k :: ks, c :: cs => if c == k then dropExact? ks cs else none

/-- Reads a word, given in capitals, in either case. -/
def keyword (word : String) : Reader Unit := fun s =>
  (dropKeyword? word.toList s.input).map fun rest => ((), { s with input := rest })

def exact (text : String) : Reader Unit := fun s =>
  (dropExact? text.toList s.input).map fun rest => ((), { s with input := rest })

/-- A keyword or sign followed by blanks. -/
def word (text : String) : Reader Unit := do keyword text; blanks

def sign (text : String) : Reader Unit := do exact text; blanks

def satisfy (p : Char → Bool) : Reader Char := fun s =>
  match s.input with
  | c :: rest => if p c then some (c, { s with input := rest }) else none
  | [] => none

def takeWhile (p : Char → Bool) : Reader (List Char) := fun s =>
  some (s.input.takeWhile p, { s with input := s.input.dropWhile p })

/-! ## Names -/

def dotted (p : Char → Bool) : Reader (List Char) := fun s =>
  let (name, rest) := readDotted p s.input
  some (name, { s with input := rest })

def queryVariable : Reader Variable := do
  let _ ← satisfy fun c => c == '?' || c == '$'
  let first ← satisfy fun c => isNameStart c || c.isDigit
  pure ⟨String.ofList (first :: (← takeWhile isInner))⟩

/-- The prefix of a prefixed name, with its colon. -/
def namespaceName : Reader String := do
  let name ← either
    (do let first ← satisfy isNameBase; pure (first :: (← dotted isNameChar)))
    (pure [])
  exact ":"
  pure (String.ofList name)

def isLocalEscape (c : Char) : Bool := "_~.-!$&'()*+,;=/?#@%".toList.contains c

/-- Reads a local name: characters, percent encodings and escaped punctuation, with inner dots. -/
def readLocal (start : Bool) : List Char → List Char × List Char
  | [] => ([], [])
  | '\\' :: c :: rest =>
    if isLocalEscape c then
      let (name, rest) := readLocal false rest
      (c :: name, rest)
    else ([], '\\' :: c :: rest)
  | '%' :: a :: b :: rest =>
    if IriReference.isHex a && IriReference.isHex b then
      let (name, rest) := readLocal false rest
      ('%' :: a :: b :: name, rest)
    else ([], '%' :: a :: b :: rest)
  | c :: rest =>
    if (if start then isNameStart c || c.isDigit else isNameChar c) || c == ':' then
      let (name, rest) := readLocal false rest
      (c :: name, rest)
    else if c == '.' && !start then
      match readLocal false rest with
      | ([], _) => ([], c :: rest)
      | (name, rest) => (c :: name, rest)
    else ([], c :: rest)

def localName : Reader (List Char) := fun s =>
  let (name, rest) := readLocal true s.input
  some (name, { s with input := rest })

/-! ## IRIs -/

def resolve (text : String) : Reader Iri := fun s =>
  let base := s.base.bind fun b => (IriReference.parse b.text).toOption
  (Iri.resolve base text).toOption.map (·, s)

def iriReference : Reader Iri := do
  exact "<"
  let text ← takeWhile (· != '>')
  exact ">"
  resolve (String.ofList text)

def prefixedName : Reader Iri := do
  let name ← namespaceName
  let rest ← localName
  let s ← get
  let start ← ofOption (s.prefixes.lookup name)
  let text := start ++ String.ofList rest
  require (Iri.isValid text)
  pure ⟨text⟩

def iri : Reader Iri := either iriReference prefixedName

/-! ## Literals -/

def escapedChar? : Char → Option Char
  | 't' => some '\t'
  | 'b' => some '\x08'
  | 'n' => some '\n'
  | 'r' => some '\r'
  | 'f' => some '\x0c'
  | '"' => some '"'
  | '\'' => some '\''
  | '\\' => some '\\'
  | _ => none

/-- Reads the rest of a short string; `read` holds its characters so far, last first. -/
def readShort (quote : Char) (read : List Char) : List Char → Option (List Char × List Char)
  | [] => none
  | '\\' :: c :: rest =>
    match escapedChar? c with
    | some c => readShort quote (c :: read) rest
    | none => none
  | c :: rest =>
    if c == quote then some (read.reverse, rest)
    else if isLineEnd c then none
    else readShort quote (c :: read) rest

/-- Reads the rest of a long string, which ends with three quotes. -/
def readLong (quote : Char) (read : List Char) : List Char → Option (List Char × List Char)
  | [] => none
  | '\\' :: c :: rest =>
    match escapedChar? c with
    | some c => readLong quote (c :: read) rest
    | none => none
  | c :: rest =>
    if c == quote && rest.take 2 == [quote, quote] then some (read.reverse, rest.drop 2)
    else readLong quote (c :: read) rest

def quoted (quote : Char) : Reader String := fun s =>
  match s.input with
  | a :: rest =>
    if a != quote then none
    else
      let long := rest.take 2 == [quote, quote]
      match if long then readLong quote [] (rest.drop 2) else none with
      | some (text, rest) => some (String.ofList text, { s with input := rest })
      | none =>
        (readShort quote [] rest).map fun p => (String.ofList p.1, { s with input := p.2 })
  | [] => none

def string : Reader String := either (quoted '\'') (quoted '"')

def languageTag : Reader String := do
  exact "@"
  let first ← takeWhile Char.isAlpha
  require !first.isEmpty
  let rest ← many do
    exact "-"
    let part ← takeWhile Char.isAlphanum
    require !part.isEmpty
    pure ('-' :: part)
  let tag := (String.ofList (first ++ rest.flatten)).toLower
  require (LanguageTag.isValid tag)
  pure tag

def stringLiteral : Reader Literal := do
  let text ← string
  let typed : Reader Literal := do
    blanks
    sign "^^"
    pure (.ofTyped text (← iri))
  let tagged : Reader Literal := do
    blanks
    pure (.tagged text (← languageTag))
  firstOf [typed, tagged, pure (.plain text)]

def digits : Reader (List Char) := takeWhile Char.isDigit

def digits1 : Reader (List Char) := do
  let d ← digits
  require !d.isEmpty
  pure d

def exponent : Reader (List Char) := do
  let e ← satisfy fun c => c == 'e' || c == 'E'
  let mark ← option (satisfy fun c => c == '+' || c == '-')
  pure (e :: (mark.toList ++ (← digits1)))

/-- A double has an exponent, a decimal a point with digits after it, an integer neither. -/
def unsignedNumber : Reader (List Char × Iri) :=
  let double : Reader (List Char × Iri) := do
    let whole ← digits
    let point ← option (exact ".")
    let fraction ← if point.isSome then digits else pure []
    require !(whole.isEmpty && fraction.isEmpty)
    let dot := if point.isSome then ['.'] else []
    pure (whole ++ dot ++ fraction ++ (← exponent), Iri.xsdDouble)
  let decimal : Reader (List Char × Iri) := do
    let whole ← digits
    exact "."
    pure (whole ++ '.' :: (← digits1), Iri.xsdDecimal)
  firstOf [double, decimal, do pure (← digits1, Iri.xsdInteger)]

def numericLiteral : Reader Literal := do
  let mark ← option (satisfy fun c => c == '+' || c == '-')
  let (text, datatype) ← unsignedNumber
  pure (.ofTyped (String.ofList (mark.toList ++ text)) datatype)

def booleanLiteral : Reader Literal :=
  either (do exact "true"; pure (.ofBool true)) (do exact "false"; pure (.ofBool false))

def literal : Reader Literal := firstOf [stringLiteral, numericLiteral, booleanLiteral]

/-! ## Made-up names and blank nodes -/

def hexDigit (n : Nat) : Char := if n < 10 then Char.ofNat (48 + n) else Char.ofNat (87 + n)

def hexDigits : Nat → Nat → List Char
  | 0, _ => []
  | width + 1, n => hexDigits width (n / 16) ++ [hexDigit (n % 16)]

/-- The `n`-th made-up name: `mark`, a letter, and 31 hexadecimal digits. -/
def madeUpName (mark : Char) (n : Nat) : String := String.ofList (mark :: hexDigits 31 n)

def freshName : Reader String := fun s =>
  some (madeUpName 'a' s.fresh, { s with fresh := s.fresh + 1 })

def freshVariable : Reader Variable := do pure ⟨← freshName⟩

def freshBlank : Reader Term := do pure (.blank (← freshName))

def anonymous : Reader Unit := do sign "["; exact "]"

def emptyList : Reader Unit := do sign "("; exact ")"

/-- A label that a closed group has used cannot be used again. -/
def blankLabel : Reader String := do
  exact "_:"
  let first ← satisfy fun c => isNameStart c || c.isDigit
  let label := String.ofList (first :: (← dotted isNameChar))
  let s ← get
  require !s.usedLabels.contains label
  set { s with currentLabels := label :: s.currentLabels }
  pure label

def blankNode : Reader Term :=
  either (do pure (.blank (← blankLabel))) (do anonymous; freshBlank)

/-- Closes the scope of the labels read so far. -/
def closeLabels : Reader Unit := modify fun s =>
  { s with usedLabels := s.currentLabels ++ s.usedLabels, currentLabels := [] }

/-! ## Code point escapes -/

def hexValue? (digits : List Char) : Option Nat :=
  if digits.all IriReference.isHex then
    some (digits.foldl (fun n d =>
      16 * n + (if d.isDigit then d.toNat - 48 else d.toLower.toNat - 87)) 0)
  else none

def charOf? (width : Nat) (digits : List Char) : Option Char := do
  if digits.length ≠ width then none
  let n ← hexValue? digits
  if n < 0xD800 || (0xDFFF < n && n < 0x110000) then some (Char.ofNat n) else none

/-- Goes through the text with the result so far, its last character first. `skip` characters are part
of an escape that is done. -/
def unescapeFrom (read : List Char) (skip : Nat) : List Char → List Char
  | [] => read.reverse
  | c :: rest =>
    if 0 < skip then unescapeFrom read (skip - 1) rest
    else if c == '\\' then
      match rest with
      | 'u' :: tail =>
        match charOf? 4 (tail.take 4) with
        | some d => unescapeFrom (d :: read) 5 rest
        | none => unescapeFrom (c :: read) 0 rest
      | 'U' :: tail =>
        match charOf? 8 (tail.take 8) with
        | some d => unescapeFrom (d :: read) 9 rest
        | none => unescapeFrom (c :: read) 0 rest
      | d :: _ => unescapeFrom (d :: c :: read) 1 rest
      | [] => (c :: read).reverse
    else unescapeFrom (c :: read) 0 rest

/-- Replaces `\u` and `\U` escapes anywhere in the text. Escaped backslashes are kept together, and
an escape that names no character stays. -/
def unescapeCodePoints (text : List Char) : List Char := unescapeFrom [] 0 text

end Reader

end SparqlBind
