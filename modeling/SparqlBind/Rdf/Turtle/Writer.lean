import SparqlBind.Rdf.Term
import SparqlBind.Text.NameChar

/-!
# Writing Turtle

Triples in their order. A triple with the subject of the one before it leaves its subject out, and
its predicate too if that is the same. An IRI is shortened by the first prefix that leaves a local
name, and literals of four datatypes are written bare when their text allows it.
-/

namespace SparqlBind.Turtle

/-- A name and the start of the IRIs it shortens. -/
structure Prefix where
  name : String
  iri : String
deriving DecidableEq, Inhabited

/-! ## Terms -/

def upperHexDigit (n : Nat) : Char := if n < 10 then Char.ofNat (48 + n) else Char.ofNat (55 + n)

def quoteChar (c : Char) : List Char :=
  let n := c.toNat
  if n == 8 then ['\\', 'b']
  else if n == 12 then ['\\', 'f']
  else if c == '\t' then ['\\', 't']
  else if c == '\n' then ['\\', 'n']
  else if c == '\r' then ['\\', 'r']
  else if c == '"' then ['\\', '"']
  else if c == '\\' then ['\\', '\\']
  else if n < 32 || n == 127 then ['\\', 'u', '0', '0', upperHexDigit (n / 16), upperHexDigit (n % 16)]
  else [c]

def quote (s : String) : String := String.ofList ('"' :: s.toList.flatMap quoteChar ++ ['"'])

def isEscapable (c : Char) : Bool := "_~.-!$&'()*+,;=/?#@%".toList.contains c

/-- The rest of a local name with its escapes, if it can be one. -/
def localRest? : List Char → Option (List Char)
  | [] => some []
  | c :: rest =>
    if NameChar.isNameChar c || c == ':' || (c == '.' && !rest.isEmpty) then
      (localRest? rest).map (c :: ·)
    else if isEscapable c then (localRest? rest).map fun name => '\\' :: c :: name
    else none

def localName? : List Char → Option (List Char)
  | [] => none
  | c :: rest =>
    if NameChar.isNameStart c || c == ':' || c.isDigit then (localRest? rest).map (c :: ·)
    else if isEscapable c then (localRest? rest).map fun name => '\\' :: c :: name
    else none

def shortened? (p : Prefix) (i : Iri) : Option String :=
  if p.iri.toList.isPrefixOf i.text.toList then
    (localName? (i.text.toList.drop p.iri.length)).map fun name =>
      p.name ++ ":" ++ String.ofList name
  else none

def iriText (prefixes : List Prefix) (i : Iri) : String :=
  (prefixes.findSome? (shortened? · i)).getD ("<" ++ i.text ++ ">")

def dropSign : List Char → List Char
  | '+' :: rest => rest
  | '-' :: rest => rest
  | text => text

def isDigits (text : List Char) : Bool := !text.isEmpty && text.all Char.isDigit

def isInteger (text : String) : Bool := isDigits (dropSign text.toList)

def isDecimal (text : String) : Bool :=
  match (dropSign text.toList).dropWhile Char.isDigit with
  | '.' :: rest => isDigits rest
  | _ => false

def isDouble (text : String) : Bool :=
  let unsigned := dropSign text.toList
  let whole := unsigned.takeWhile Char.isDigit
  let rest := unsigned.dropWhile Char.isDigit
  let (fraction, rest) := match rest with
    | '.' :: rest => (rest.takeWhile Char.isDigit, rest.dropWhile Char.isDigit)
    | rest => ([], rest)
  match rest with
  | e :: rest =>
    (e == 'e' || e == 'E') && (!whole.isEmpty || !fraction.isEmpty) && isDigits (dropSign rest)
  | [] => false

def isBare (text : String) (datatype : Iri) : Bool :=
  if datatype = Iri.xsdBoolean then text == "true" || text == "false"
  else if datatype = Iri.xsdInteger then isInteger text
  else if datatype = Iri.xsdDecimal then isDecimal text
  else if datatype = Iri.xsdDouble then isDouble text
  else false

def literalText (prefixes : List Prefix) : Literal → String
  | .plain s => quote s
  | .tagged s l => quote s ++ "@" ++ l
  | .typed s d => if isBare s d then s else quote s ++ "^^" ++ iriText prefixes d

def termText (prefixes : List Prefix) : Term → String
  | .iri i => iriText prefixes i
  | .blank label => "_:" ++ label
  | .literal l => literalText prefixes l

def predicateText (prefixes : List Prefix) (i : Iri) : String :=
  if i = Iri.rdfType then "a" else iriText prefixes i

/-! ## Graphs -/

/-- A triple after `last`, the triple written before it. -/
def tripleText (prefixes : List Prefix) (last : Option Triple) (t : Triple) : String :=
  let object := termText prefixes t.object
  let property := predicateText prefixes t.predicate ++ " " ++ object
  match last with
  | none => termText prefixes t.subject.toTerm ++ " " ++ property
  | some u =>
    if t.subject = u.subject then
      if t.predicate = u.predicate then " , " ++ object else " ;\n\t" ++ property
    else " .\n" ++ termText prefixes t.subject.toTerm ++ " " ++ property

def triplesText (prefixes : List Prefix) : Option Triple → List Triple → String
  | none, [] => ""
  | some _, [] => " .\n"
  | last, t :: rest => tripleText prefixes last t ++ triplesText prefixes (some t) rest

def declaration (p : Prefix) : String := "@prefix " ++ p.name ++ ": <" ++ p.iri ++ "> .\n"

/-- A document: the declarations in order of their text, then the triples. -/
def render (prefixes : List Prefix) (triples : List Triple) : String :=
  String.join ((prefixes.map declaration).mergeSort (· ≤ ·)) ++ triplesText prefixes none triples

end SparqlBind.Turtle
