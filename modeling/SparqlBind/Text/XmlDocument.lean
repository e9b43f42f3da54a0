import SparqlBind.Text.Xml

/-!
# Reading XML

A document as a tree of elements and texts. Comments, processing instructions and declarations are
left out; of a document type only the entities with a quoted value are used. Names are kept as they
are written. A text is cut into tokens first, and the tokens are then put together to a tree.
-/

namespace SparqlBind

inductive XmlNode
  | text (content : List Char)
  | element (name : List Char) (attributes : List (List Char × List Char)) (children : List XmlNode)

namespace XmlNode

inductive Token
  | opening (name : List Char) (attributes : List (List Char × List Char))
  | closing (name : List Char)
  | text (content : List Char)

abbrev Entities := List (List Char × List Char)

/-! ## References -/

def digitsValue? (base : Nat) (value? : Char → Option Nat) (digits : List Char) : Option Nat :=
  if digits.isEmpty then none
  else digits.foldlM (fun n d => (value? d).map (base * n + ·)) 0

def decimalValue? (c : Char) : Option Nat := if c.isDigit then some (c.toNat - 48) else none

def hexValue? (c : Char) : Option Nat :=
  if 'a' ≤ c && c ≤ 'f' then some (c.toNat - 87)
  else if 'A' ≤ c && c ≤ 'F' then some (c.toNat - 55)
  else decimalValue? c

def charOf? (n : Nat) : Option Char :=
  if n ≠ 0 && (n < 0xD800 || (0xDFFF < n && n < 0x110000)) then some (Char.ofNat n) else none

def standardEntities : Entities :=
  [("lt", "<"), ("gt", ">"), ("amp", "&"), ("apos", "'"), ("quot", "\"")].map fun e =>
    (e.1.toList, e.2.toList)

/-- What the text between `&` and `;` stands for. -/
def reference? (entities : Entities) : List Char → Option (List Char)
  | '#' :: 'x' :: digits => do pure [← charOf? (← digitsValue? 16 hexValue? digits)]
  | '#' :: digits => do pure [← charOf? (← digitsValue? 10 decimalValue? digits)]
  | name => (standardEntities.lookup name).or (entities.lookup name)

/-- Goes through a text with the result so far, its last character first. `skip` characters belong to
a reference that is done. -/
def resolveFrom (entities : Entities) (read : List Char) : Nat → List Char → Option (List Char)
  | _, [] => some read.reverse
  | skip + 1, _ :: rest => resolveFrom entities read skip rest
  | 0, c :: rest =>
    if c == '&' then
      let name := rest.takeWhile (· != ';')
      if name.length == rest.length then none
      else
        match reference? entities name with
        | some value => resolveFrom entities (value.reverse ++ read) (name.length + 1) rest
        | none => none
    else resolveFrom entities (c :: read) 0 rest

def resolve? (entities : Entities) (text : List Char) : Option (List Char) :=
  resolveFrom entities [] 0 text

/-! ## Tokens -/

def dropBlanks (text : List Char) : List Char := text.dropWhile Xml.isBlank

/-- Cuts a text at the first occurrence of a mark, which is left out. `read` holds what comes before,
its last character first. -/
def cutAt? (mark read : List Char) : List Char → Option (List Char × List Char)
  | [] => none
  | c :: rest =>
    if mark.isPrefixOf (c :: rest) then some (read.reverse, rest.drop (mark.length - 1))
    else cutAt? mark (c :: read) rest

def readName? (text : List Char) : Option (List Char × List Char) :=
  match text with
  | c :: _ =>
    if Xml.isNameStart c then
      some (text.takeWhile Xml.isNameChar, text.dropWhile Xml.isNameChar)
    else none
  | [] => none

def readValue? (entities : Entities) (text : List Char) : Option (List Char × List Char) :=
  match text with
  | quote :: rest =>
    if quote == '"' || quote == '\'' then do
      let (raw, rest) ← cutAt? [quote] [] rest
      pure (← resolve? entities raw, rest)
    else none
  | [] => none

/-- Reads attributes up to the end of a tag, and tells whether the tag closes itself. -/
def readAttributes (entities : Entities) : Nat → List (List Char × List Char) → List Char →
    Option (List (List Char × List Char) × Bool × List Char)
  | 0, _, _ => none
  | fuel + 1, attributes, input =>
    match dropBlanks input with
    | '>' :: rest => some (attributes.reverse, false, rest)
    | '/' :: '>' :: rest => some (attributes.reverse, true, rest)
    | input => do
      let (name, rest) ← readName? input
      match dropBlanks rest with
      | '=' :: rest => do
        let (value, rest) ← readValue? entities (dropBlanks rest)
        if (attributes.lookup name).isSome then none
        readAttributes entities fuel ((name, value) :: attributes) rest
      | _ => none

/-- The text of a document type up to its closing bracket; `depth` counts the open ones. -/
def readDoctype (depth : Nat) (read : List Char) : List Char → Option (List Char × List Char)
  | [] => none
  | c :: rest =>
    if c == '<' then readDoctype (depth + 1) (c :: read) rest
    else if c == '>' then
      if depth == 0 then some (read.reverse, rest) else readDoctype (depth - 1) (c :: read) rest
    else readDoctype depth (c :: read) rest

/-- The entity that a declaration adds; other declarations add none. -/
def declareEntity (entities : Entities) (declaration : List Char) : Option Entities :=
  if "!ENTITY".toList.isPrefixOf declaration then do
    let named := match dropBlanks (declaration.drop 7) with
      | '%' :: rest => dropBlanks rest
      | rest => rest
    match dropBlanks (named.dropWhile (!Xml.isBlank ·)) with
    | '"' :: rest => do
      let (value, _) ← cutAt? ['"'] [] rest
      pure ((named.takeWhile (!Xml.isBlank ·), ← resolve? entities value) :: entities)
    | _ => none
  else some entities

def splitAtBrackets (text : List Char) : List (List Char) :=
  text.foldr (fun c parts =>
    if c == '<' then [] :: parts
    else
      match parts with
      | part :: rest => (c :: part) :: rest
      | [] => [[c]]) [[]]

def entitiesOf (doctype : List Char) : Option Entities :=
  ((splitAtBrackets doctype).drop 1).foldlM declareEntity []

def nameTag? (entities : Entities) (text : List Char) : Option (List Token × List Char) := do
  let (name, rest) ← readName? text
  let (attributes, closed, rest) ← readAttributes entities (rest.length + 1) [] rest
  let opening := Token.opening name attributes
  pure (if closed then [opening, .closing name] else [opening], rest)

def closingTag? (text : List Char) : Option (List Token × List Char) := do
  let (name, rest) ← readName? text
  match dropBlanks rest with
  | '>' :: rest => pure ([.closing name], rest)
  | _ => none

/-- The tokens of what begins with an opening bracket, and the entities known after it. -/
def markup? (entities : Entities) : List Char → Option (Entities × List Token × List Char)
  | '<' :: '?' :: rest => (cutAt? ['?', '>'] [] rest).map fun p => (entities, [], p.2)
  | '<' :: '!' :: '-' :: '-' :: rest =>
    (cutAt? ['-', '-', '>'] [] rest).map fun p => (entities, [], p.2)
  | '<' :: '!' :: '[' :: rest =>
    if "CDATA[".toList.isPrefixOf rest then
      (cutAt? [']', ']', '>'] [] (rest.drop 6)).map fun p => (entities, [.text p.1], p.2)
    else none
  | '<' :: '!' :: rest =>
    if "DOCTYPE".toList.isPrefixOf rest then do
      let (doctype, rest) ← readDoctype 0 [] (rest.drop 7)
      pure (← entitiesOf doctype, [], rest)
    else none
  | '<' :: '/' :: rest => (closingTag? rest).map fun p => (entities, p)
  | '<' :: rest => (nameTag? entities rest).map fun p => (entities, p)
  | _ => none

/-- All tokens of a text, with those so far, the last one first. -/
def tokensFrom : Nat → Entities → List Token → List Char → Option (List Token)
  | 0, _, _, _ => none
  | _ + 1, _, read, [] => some read.reverse
  | fuel + 1, entities, read, '<' :: rest => do
    let (entities, tokens, rest) ← markup? entities ('<' :: rest)
    tokensFrom fuel entities (tokens.reverse ++ read) rest
  | fuel + 1, entities, read, input => do
    let content ← resolve? entities (input.takeWhile (· != '<'))
    tokensFrom fuel entities (.text content :: read) (input.dropWhile (· != '<'))

/-! ## Trees -/

/-- An element whose end has not been met, with its children so far, the last one first. -/
structure Pending where
  name : List Char
  attributes : List (List Char × List Char)
  children : List XmlNode

/-- Adds a child; a text after a text goes on with it. -/
def addChild (child : XmlNode) : List XmlNode → List XmlNode
  | .text before :: rest =>
    match child with
    | .text content => .text (before ++ content) :: rest
    | child => child :: .text before :: rest
  | children => child :: children

def Pending.add (p : Pending) (child : XmlNode) : Pending :=
  { p with children := addChild child p.children }

def Pending.close (p : Pending) : XmlNode := .element p.name p.attributes p.children.reverse

/-- The elements that are open, the innermost first, and the closed ones outside of all others. -/
structure Building where
  pending : List Pending
  roots : List XmlNode

def step (b : Building) : Token → Option Building
  | .text content =>
    match b.pending with
    | p :: rest => some { b with pending := p.add (.text content) :: rest }
    | [] => if content.all Xml.isBlank then some b else none
  | .opening name attributes =>
    some { b with pending := ⟨name, attributes, []⟩ :: b.pending }
  | .closing name =>
    match b.pending with
    | p :: outer :: rest =>
      if p.name == name then some { b with pending := outer.add p.close :: rest } else none
    | [p] => if p.name == name then some ⟨[], b.roots ++ [p.close]⟩ else none
    | [] => none

/-- The elements of a document that are in no other. -/
def parse? (input : List Char) : Option (List XmlNode) := do
  let tokens ← tokensFrom (input.length + 1) [] [] input
  let built ← tokens.foldlM step ⟨[], []⟩
  if built.pending.isEmpty then pure built.roots else none

/-! ## Writing -/

def renderAttribute (a : List Char × List Char) : String :=
  Xml.attr (String.ofList a.1) (String.ofList a.2)

mutual

def render : XmlNode → String
  | .text content => Xml.escape (String.ofList content)
  | .element name attributes children =>
    Xml.element (String.ofList name) (String.join (attributes.map renderAttribute))
      (renderAll children)

def renderAll : List XmlNode → String
  | [] => ""
  | node :: rest => render node ++ renderAll rest

end

end XmlNode

end SparqlBind
