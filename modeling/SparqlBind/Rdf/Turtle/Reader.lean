import SparqlBind.Sparql.Reader

/-!
# Reading Turtle, TriG and the line formats

Readers of quads. What describes a nested node comes before the quad that holds the node, and the
cells of a collection after it. Labels of a document are kept with a colon in front, so that no
made-up label is one of them. In the line formats IRIs are absolute, names have no prefixes, and a
line holds at most one statement.
-/

namespace SparqlBind.TurtleReader

open Reader NameChar

/-! ## Escapes -/

/-- The character of an escape and how many characters it has after the backslash. -/
def codePointEscape? : List Char → Option (Char × Nat)
  | 'u' :: rest => (charOf? 4 (rest.take 4)).map (·, 5)
  | 'U' :: rest => (charOf? 8 (rest.take 8)).map (·, 9)
  | _ => none

def stringEscape? (text : List Char) : Option (Char × Nat) :=
  match codePointEscape? text, text with
  | some e, _ => some e
  | none, c :: _ => (escapedChar? c).map (·, 1)
  | none, [] => none

/-- Goes through a text with the result so far, its last character first. `skip` characters belong
to an escape that is done. -/
def unescapeFrom (escape? : List Char → Option (Char × Nat)) (read : List Char) :
    Nat → List Char → Option (List Char)
  | _, [] => some read.reverse
  | skip + 1, _ :: rest => unescapeFrom escape? read skip rest
  | 0, c :: rest =>
    if c == '\\' then
      match escape? rest with
      | some (d, n) => unescapeFrom escape? (d :: read) n rest
      | none => none
    else unescapeFrom escape? (c :: read) 0 rest

/-! ## Terms -/

/-- The text between angle brackets, without its escapes. -/
def iriText : Reader String := do
  exact "<"
  let text ← takeWhile (· != '>')
  exact ">"
  pure (String.ofList (← ofOption (unescapeFrom codePointEscape? [] 0 text)))

def iriReference : Reader Iri := do resolve (← iriText)

def absoluteIri : Reader Iri := do
  let text ← iriText
  require (Iri.isValid text)
  pure ⟨text⟩

def iri : Reader Iri := either iriReference prefixedName

/-- The raw text of a string of one line, up to its closing quote; `read` holds its characters so
far, the last one first. -/
def rawShort (quote : Char) (read : List Char) : List Char → Option (List Char × List Char)
  | [] => none
  | '\\' :: c :: rest => rawShort quote (c :: '\\' :: read) rest
  | c :: rest =>
    if c == quote then some (read.reverse, rest)
    else if isLineEnd c then none
    else rawShort quote (c :: read) rest

/-- The raw text of a long string, up to three quotes. -/
def rawLong (quote : Char) (read : List Char) : List Char → Option (List Char × List Char)
  | [] => none
  | '\\' :: c :: rest => rawLong quote (c :: '\\' :: read) rest
  | c :: rest =>
    if c == quote && rest.take 2 == [quote, quote] then some (read.reverse, rest.drop 2)
    else rawLong quote (c :: read) rest

def rawString (quote : Char) (long : Bool) : Reader (List Char) := fun s =>
  match s.input with
  | [] => none
  | c :: rest =>
    if c != quote then none
    else
      let raw :=
        if long && rest.take 2 == [quote, quote] then rawLong quote [] (rest.drop 2)
        else rawShort quote [] rest
      raw.map fun p => (p.1, { s with input := p.2 })

def unescaped (raw : Reader (List Char)) : Reader String := do
  pure (String.ofList (← ofOption (unescapeFrom stringEscape? [] 0 (← raw))))

def string : Reader String := unescaped (either (rawString '"' true) (rawString '\'' true))

/-- A string with its language or its datatype. -/
def stringLiteral (string : Reader String) (datatype : Reader Iri) : Reader Literal := do
  let text ← string
  blanks
  firstOf [do sign "^^"; pure (.ofTyped text (← datatype)), do pure (.tagged text (← languageTag)),
    pure (.plain text)]

def literal : Reader Literal :=
  firstOf [stringLiteral string iri, numericLiteral, booleanLiteral]

def blankLabel : Reader Term := do
  exact "_:"
  let first ← satisfy fun c => isNameStart c || c.isDigit
  pure (.blank (String.ofList (':' :: first :: (← dotted isNameChar))))

/-! ## Triples -/

def verb : Reader Iri := either iri (do exact "a"; pure Iri.rdfType)

def objects (object : Resource → Iri → Reader (List Triple)) (subject : Resource) (predicate : Iri) :
    Reader (List Triple) := do
  pure (← separated (sign ",") (do let o ← object subject predicate; blanks; pure o)).flatten

def verbObjects (object : Resource → Iri → Reader (List Triple)) (subject : Resource) :
    Reader (List Triple) := do
  let predicate ← verb
  blanks
  objects object subject predicate

/-- Verbs with their objects, separated by semicolons that may stand alone. -/
def properties (object : Resource → Iri → Reader (List Triple)) (subject : Resource) :
    Reader (List Triple) := do
  let first ← verbObjects object subject
  blanks
  let rest ← many do
    sign ";"
    let next ← option (verbObjects object subject)
    blanks
    pure (next.getD [])
  pure (first ++ rest.flatten)

def propertyList (object : Resource → Iri → Reader (List Triple)) : Reader (Resource × List Triple) := do
  sign "["
  let node := Resource.blank (← freshName)
  let triples ← properties object node
  blanks
  exact "]"
  pure (node, triples)

def rdfNil : Resource := .iri (Iri.rdf "nil")

/-- The items after the first one of a collection with the given cell. -/
def cells (object : Resource → Iri → Reader (List Triple)) :
    Nat → Resource → Reader (List Triple)
  | 0, _ => fail
  | fuel + 1, cell => do
    let item ← object cell (Iri.rdf "first")
    blanks
    let last : Reader (List Triple) := do
      exact ")"
      pure (item ++ [⟨cell, Iri.rdf "rest", rdfNil.toTerm⟩])
    let more : Reader (List Triple) := do
      let next := Resource.blank (← freshName)
      let rest ← cells object fuel next
      pure (item ++ ⟨cell, Iri.rdf "rest", next.toTerm⟩ :: rest)
    either last more

/-- The first node of a collection and the triples of its cells. -/
def collection (object : Resource → Iri → Reader (List Triple)) :
    Reader (Resource × List Triple) := do
  sign "("
  let empty : Reader (Resource × List Triple) := do exact ")"; pure (rdfNil, [])
  let filled : Reader (Resource × List Triple) := do
    let cell := Resource.blank (← freshName)
    pure (cell, ← cells object ((← peek).length + 1) cell)
  either empty filled

def anonymousNode : Reader Term := do anonymous; freshBlank

/-- One object and all triples that come with it; `fuel` bounds the nesting. -/
def object : Nat → Resource → Iri → Reader (List Triple)
  | 0, _, _ => fail
  | fuel + 1, subject, predicate =>
    let plain : Reader (List Triple) := do
      let o ← firstOf [do pure (.iri (← iri)), blankLabel, anonymousNode,
        do pure (.literal (← literal))]
      pure [⟨subject, predicate, o⟩]
    let nested : Reader (List Triple) := do
      let (node, triples) ← propertyList (object fuel)
      pure (triples ++ [⟨subject, predicate, node.toTerm⟩])
    let listed : Reader (List Triple) := do
      let (node, triples) ← collection (object fuel)
      pure (⟨subject, predicate, node.toTerm⟩ :: triples)
    firstOf [plain, nested, listed]

def nodeReader : Reader Resource := do
  ofOption (Resource.ofTerm? (← firstOf [do pure (.iri (← iri)), blankLabel, anonymousNode]))

def anyObject (subject : Resource) (predicate : Iri) : Reader (List Triple) := do
  object ((← get).size + 1) subject predicate

/-- A subject with its properties, which a property list of its own can do without. -/
def triples : Reader (List Triple) := do
  let plain : Reader (List Triple) := do
    let subject ← nodeReader
    blanks
    properties anyObject subject
  let listed : Reader (List Triple) := do
    let (node, cells) ← collection anyObject
    blanks
    pure (cells ++ (← properties anyObject node))
  let described : Reader (List Triple) := do
    let (node, inner) ← propertyList anyObject
    blanks
    pure (inner ++ (← option (properties anyObject node)).getD [])
  firstOf [plain, listed, described]

/-! ## Statements -/

def inGraph (graph : Option Resource) (triples : List Triple) : List Quad :=
  triples.map fun t => ⟨t.subject, t.predicate, t.object, graph⟩

def declarePrefix : Reader Unit := do
  let name ← namespaceName
  blanks
  let i ← iriReference
  modify fun s => { s with prefixes := (name, i.text) :: s.prefixes.filter (·.1 != name) }

def declareBase : Reader Unit := do
  let i ← iriReference
  modify fun s => { s with base := some i }

/-- A declaration after an at sign ends with a dot, one in the style of queries does not. -/
def directive : Reader Unit :=
  let ended (r : Reader Unit) : Reader Unit := do r; blanks; exact "."
  firstOf [do sign "@prefix"; ended declarePrefix, do sign "@base"; ended declareBase,
    do word "PREFIX"; declarePrefix, do word "BASE"; declareBase]

/-- The triples of a block in braces; the last dot may be left out. -/
def block (graph : Option Resource) : Reader (List Quad) := do
  sign "\x7b"
  let first ← option triples
  blanks
  let rest ← many do
    sign "."
    let next ← triples
    blanks
    pure next
  let _ ← option (sign ".")
  exact "\x7d"
  match first with
  | none => do
    require rest.isEmpty
    pure []
  | some first => pure (inGraph graph (first ++ rest.flatten))

def namedBlock : Reader (List Quad) := do
  let name ← nodeReader
  blanks
  block (some name)

def statement (graphs : Bool) : Reader (List Quad) :=
  let plain : Reader (List Quad) := do
    let t ← triples
    blanks
    exact "."
    pure (inGraph none t)
  let declaration : Reader (List Quad) := do directive; pure []
  if graphs then
    firstOf [declaration, plain, block none, namedBlock, do word "GRAPH"; namedBlock]
  else either declaration plain

/-- All statements up to the end of the text, with the quads so far, the last one first. -/
def statements (graphs : Bool) : Nat → List Quad → Reader (List Quad)
  | 0, _ => fail
  | fuel + 1, read => do
    blanks
    if (← peek).isEmpty then pure read.reverse
    else statements graphs fuel ((← statement graphs).reverse ++ read)

def start (text : List Char) (base : Option Iri) : ReaderState :=
  { input := text, size := text.length, base := base, prefixes := [], usedLabels := [],
    currentLabels := [], aggregates := [], fresh := 0 }

/-- The quads of a document and the prefixes it declares. -/
def document (graphs : Bool) (text : List Char) (base : Option Iri) :
    Option (List Quad × List (String × String)) :=
  let s := start text base
  (statements graphs (s.size + 1) [] s).map fun r => (r.1, r.2.prefixes)

/-! ## Lines -/

def lineLiteral : Reader Literal := stringLiteral (unescaped (rawString '"' false)) absoluteIri

def lineNode : Reader Term := either (do pure (.iri (← absoluteIri))) blankLabel

def lineResource : Reader Resource := do ofOption (Resource.ofTerm? (← lineNode))

def lineStatement (graphs : Bool) : Reader (List Quad) := do
  let subject ← lineResource
  blanks
  let predicate ← absoluteIri
  blanks
  let object ← either lineNode (do pure (.literal (← lineLiteral)))
  blanks
  let graph ← if graphs then option (do let g ← lineResource; blanks; pure g) else pure none
  sign "."
  pure [⟨subject, predicate, object, graph⟩]

def line (graphs : Bool) (text : List Char) : Option (List Quad) :=
  let r : Reader (List Quad) := do
    blanks
    let quads ← if (← peek).isEmpty then pure [] else lineStatement graphs
    require (← peek).isEmpty
    pure quads
  (r (start text none)).map (·.1)

def lines (text : List Char) : List (List Char) :=
  text.foldr (fun c lines =>
    if isLineEnd c then [] :: lines
    else
      match lines with
      | line :: rest => (c :: line) :: rest
      | [] => [[c]]) [[]]

def lineDocument (graphs : Bool) (text : List Char) : Option (List Quad) := do
  pure (← (lines text).mapM (line graphs)).flatten

end SparqlBind.TurtleReader
