import SparqlBind.Rdf.Xml.Writer
import SparqlBind.Sparql.Reader
import SparqlBind.Text.XmlDocument

/-!
# Reading RDF/XML

Elements of nodes and of properties take turns. The reader goes down the tree of a document with the
base IRI, the language and the namespaces in scope. Labels of a document are kept with a colon in
front, so that no made-up label is one of them.
-/

namespace SparqlBind.RdfXmlReader

open RdfXml (rdfName)

structure Scope where
  base : Option Iri
  language : Option String
  /-- The namespaces by their prefixes, the innermost first; the default one has no name. -/
  namespaces : List (List Char × String)

structure State where
  /-- How many nodes have been made up. -/
  fresh : Nat
  /-- The values of `rdf:ID` met so far. -/
  ids : List Iri

abbrev Reading := StateT State Option

def fail {α : Type} : Reading α := fun _ => none

def require (b : Bool) : Reading Unit := fun s => if b then some ((), s) else none

def ofOption {α : Type} : Option α → Reading α
  | some a => pure a
  | none => fail

def freshNode : Reading Resource := fun s =>
  some (.blank (Reader.madeUpName 'a' s.fresh), { s with fresh := s.fresh + 1 })

/-! ## Names -/

def splitQualified (name : List Char) : List Char × List Char :=
  if name.contains ':' then (name.takeWhile (· != ':'), (name.dropWhile (· != ':')).drop 1)
  else ([], name)

/-- The IRI of a qualified name; a name needs a namespace. -/
def qualified? (scope : Scope) (name : List Char) : Option Iri := do
  let (mark, rest) := splitQualified name
  let start ← scope.namespaces.lookup mark
  if start.isEmpty then none
  pure ⟨start ++ String.ofList rest⟩

def attributeName? (scope : Scope) (name : List Char) : Option Iri :=
  if name.contains ':' then qualified? scope name else none

def isLocalName (text : List Char) : Bool :=
  match text with
  | c :: _ => Xml.isNameStart c && text.all fun c => Xml.isNameChar c && c != ':'
  | [] => false

def resolve (scope : Scope) (text : String) : Reading Iri :=
  ofOption (Iri.resolve (scope.base.bind fun b => (IriReference.parse b.text).toOption) text).toOption

def absolute (i : Iri) : Reading Iri := do
  require (Iri.isValid i.text)
  pure i

def reservedElements : List Iri :=
  ["about", "aboutEach", "aboutEachPrefix", "bagID", "datatype", "ID", "li", "nodeID", "parseType",
    "RDF", "resource"].map rdfName

def reservedAttributes : List Iri :=
  ["aboutEach", "aboutEachPrefix", "li", "RDF"].map rdfName

/-! ## Attributes -/

abbrev RawAttributes := List (List Char × List Char)

def declared? (a : List Char × List Char) : Option (List Char × String) :=
  if a.1 = "xmlns".toList then some ([], String.ofList a.2)
  else if "xmlns:".toList.isPrefixOf a.1 then some (a.1.drop 6, String.ofList a.2)
  else none

/-- The scope inside an element. -/
def enter (scope : Scope) (attributes : RawAttributes) : Reading Scope := do
  let scope := { scope with namespaces := attributes.filterMap declared? ++ scope.namespaces }
  let scope ← match attributes.lookup "xml:base".toList with
    | none => pure scope
    | some text => do pure { scope with base := some (← absolute ⟨String.ofList text⟩) }
  match attributes.lookup "xml:lang".toList with
  | none => pure scope
  | some text => do
    let tag := String.ofList (text.map Char.toLower)
    require (LanguageTag.isValid tag)
    pure { scope with language := some tag }

structure Attributes where
  id : Option Iri
  nodeId : Option String
  about : Option Iri
  resource : Option Iri
  datatype : Option Iri
  parseType : Option String
  type : Option Iri
  properties : List (Iri × String)

def label (text : String) : Reading String := do
  require (isLocalName text.toList)
  pure (":" ++ text)

/-- An identifier is used once in a document. -/
def identifier (scope : Scope) (text : String) : Reading Iri := do
  require (isLocalName text.toList)
  let i ← resolve scope ("#" ++ text)
  require !(← get).ids.contains i
  modify fun s => { s with ids := i :: s.ids }
  pure i

def addAttribute (scope : Scope) (a : Attributes) (name : Iri) (text : String) : Reading Attributes :=
  if name = rdfName "ID" then do pure { a with id := some (← identifier scope text) }
  else if name = rdfName "bagID" then do
    require (isLocalName text.toList)
    pure a
  else if name = rdfName "nodeID" then do pure { a with nodeId := some (← label text) }
  else if name = rdfName "about" then do pure { a with about := some (← resolve scope text) }
  else if name = rdfName "resource" then do pure { a with resource := some (← resolve scope text) }
  else if name = rdfName "datatype" then do pure { a with datatype := some (← resolve scope text) }
  else if name = rdfName "parseType" then pure { a with parseType := some text }
  else if name = Iri.rdfType then do pure { a with type := some (← resolve scope text) }
  else do
    require !reservedAttributes.contains name
    pure { a with properties := a.properties ++ [(← absolute name, text)] }

/-- Reads the attributes in their order, without those of XML itself. -/
def attributesOf (scope : Scope) (raw : RawAttributes) : Reading Attributes :=
  (raw.filter fun a => !"xml".toList.isPrefixOf a.1).foldlM (fun a r => do
    addAttribute scope a (← ofOption (attributeName? scope r.1)) (String.ofList r.2))
    ⟨none, none, none, none, none, none, none, []⟩

def subjectOf (a : Attributes) : Reading Resource :=
  match a.id, a.nodeId, a.about with
  | some i, none, none => pure (.iri i)
  | none, some l, none => pure (.blank l)
  | none, none, some i => pure (.iri i)
  | none, none, none => freshNode
  | _, _, _ => fail

/-! ## Triples -/

def literal (scope : Scope) (datatype : Option Iri) (text : String) : Literal :=
  match datatype, scope.language with
  | some d, _ => .ofTyped text d
  | none, some l => .tagged text l
  | none, none => .plain text

def attributeTriples (scope : Scope) (subject : Resource) (a : Attributes) : List Triple :=
  a.properties.map (fun p => ⟨subject, p.1, .literal (literal scope none p.2)⟩) ++
    a.type.toList.map fun i => ⟨subject, Iri.rdfType, .iri i⟩

/-- The statement about a triple that an identifier names. -/
def reified (t : Triple) : Option Iri → List Triple
  | none => [t]
  | some i =>
    [⟨.iri i, Iri.rdfType, .iri (rdfName "Statement")⟩,
      ⟨.iri i, rdfName "subject", t.subject.toTerm⟩, ⟨.iri i, rdfName "predicate", .iri t.predicate⟩,
      ⟨.iri i, rdfName "object", t.object⟩, t]

/-- The cells of a collection, from its last item to its first, and the node it starts with. -/
def cells : List Resource → Reading (Resource × List Triple)
  | [] => pure (.iri (rdfName "nil"), [])
  | item :: rest => do
    let (next, triples) ← cells rest
    let cell ← freshNode
    pure (cell, triples ++ [⟨cell, rdfName "first", item.toTerm⟩, ⟨cell, rdfName "rest", next.toTerm⟩])

/-- The object that the attributes of a property give, if there is one. -/
def objectOf (a : Attributes) : Reading (Option Resource) :=
  match a.resource, a.nodeId with
  | some _, some _ => fail
  | some i, none => pure (some (.iri i))
  | none, some l => pure (some (.blank l))
  | none, none => if a.properties.isEmpty then pure none else do pure (some (← freshNode))

/-- What a property holds so far. -/
inductive Content
  | nothing
  | text (content : List Char)
  | node (node : Resource)

def Content.isFree : Content → Bool
  | .nothing => true
  | .text content => content.all Xml.isBlank
  | .node _ => false

def Content.addText (c : Content) (text : List Char) : Reading Content :=
  match c with
  | .nothing => pure (.text text)
  | c => do
    require (text.all Xml.isBlank)
    pure c

def Content.toTerm (scope : Scope) (datatype : Option Iri) : Content → Term
  | .nothing => .literal (literal scope datatype "")
  | .text content => .literal (literal scope datatype (String.ofList content))
  | .node n => n.toTerm

/-- The IRI of a property and the number of list members after it. -/
def propertyName (scope : Scope) (members : Nat) (name : List Char) : Reading (Iri × Nat) := do
  let i ← ofOption (qualified? scope name)
  if i = rdfName "li" then pure (rdfName ("_" ++ toString (members + 1)), members + 1)
  else do
    require !(reservedElements.contains i || i = rdfName "Description")
    pure (← absolute i, members)

mutual

/-- The node of an element and all triples inside it. -/
def nodeElement (scope : Scope) : XmlNode → Reading (Resource × List Triple)
  | .text _ => fail
  | .element name raw children => do
    let scope ← enter scope raw
    let i ← ofOption (qualified? scope name)
    let a ← attributesOf scope raw
    require !reservedElements.contains i
    let subject ← subjectOf a
    let named := if i = rdfName "Description" then [] else [⟨subject, Iri.rdfType, .iri i⟩]
    let inner ← properties scope subject 0 children
    pure (subject, attributeTriples scope subject a ++ named ++ inner)

/-- The properties of a node, of which so many have been list members. -/
def properties (scope : Scope) (subject : Resource) (members : Nat) :
    List XmlNode → Reading (List Triple)
  | [] => pure []
  | .text content :: rest => do
    require (content.all Xml.isBlank)
    properties scope subject members rest
  | .element name raw children :: rest => do
    let inside ← enter scope raw
    let a ← attributesOf inside raw
    let (predicate, members) ← propertyName inside members name
    let triples ← match a.parseType with
      | none => do
        let given ← objectOf a
        let start := match given with
          | some node => Content.node node
          | none => .nothing
        let (found, nested) ← content inside start children
        let own := (given.map fun node => attributeTriples inside node a).getD []
        pure (own ++ nested ++
          reified ⟨subject, predicate, found.toTerm inside a.datatype⟩ a.id)
      | some "Resource" => do
        let node ← freshNode
        let inner ← properties inside node 0 children
        pure (reified ⟨subject, predicate, node.toTerm⟩ a.id ++ inner)
      | some "Collection" => do
        let (items, nested) ← nodes inside children
        let (first, cells) ← cells items
        pure (nested ++ cells ++ reified ⟨subject, predicate, first.toTerm⟩ a.id)
      | some _ =>
        let text := XmlNode.renderAll children
        pure (reified ⟨subject, predicate, .literal (.typed text (rdfName "XMLLiteral"))⟩ a.id)
    pure (triples ++ (← properties scope subject members rest))

/-- What a property holds: one node, or a text. -/
def content (scope : Scope) (found : Content) : List XmlNode → Reading (Content × List Triple)
  | [] => pure (found, [])
  | .text text :: rest => do content scope (← found.addText text) rest
  | .element name raw children :: rest => do
    require found.isFree
    let (node, triples) ← nodeElement scope (.element name raw children)
    let (found, more) ← content scope (.node node) rest
    pure (found, triples ++ more)

/-- Nodes with nothing but blanks between them. -/
def nodes (scope : Scope) : List XmlNode → Reading (List Resource × List Triple)
  | [] => pure ([], [])
  | .text text :: rest => do
    require (text.all Xml.isBlank)
    nodes scope rest
  | .element name raw children :: rest => do
    let (node, triples) ← nodeElement scope (.element name raw children)
    let (others, more) ← nodes scope rest
    pure (node :: others, triples ++ more)

end

/-- The outermost element holds nodes, or is one. -/
def root (scope : Scope) : XmlNode → Reading (List Triple)
  | .text _ => fail
  | .element name raw children => do
    let inside ← enter scope raw
    let i ← ofOption (qualified? inside name)
    if i = rdfName "RDF" then do
      let _ ← attributesOf inside raw
      pure (← nodes inside children).2
    else pure (← nodeElement scope (.element name raw children)).2

def xmlNamespace : String := "http://www.w3.org/XML/1998/namespace"

def document (text : List Char) (base : Option Iri) : Option (List Quad) := do
  let roots ← XmlNode.parse? text
  let scope : Scope := ⟨base, none, [("xml".toList, xmlNamespace)]⟩
  let (triples, _) ← (roots.mapM (root scope)) ⟨0, []⟩
  pure (triples.flatten.map fun t => ⟨t.subject, t.predicate, t.object, none⟩)

end SparqlBind.RdfXmlReader
