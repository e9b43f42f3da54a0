import SparqlBind.Rdf.JsonLd.Context
import SparqlBind.Rdf.JsonLd.Item
import SparqlBind.Rdf.LanguageTag

/-!
# Reading JSON-LD

Works out what the members of a document stand for. Members that stand for nothing are left out.
Labels of a document are kept with a colon in front, so that no made-up label is one of them. Nested
members, indexes by node and literals of JSON are refused.
-/

namespace SparqlBind.JsonLd

/-! ## Names -/

def resourceOf? (text : String) : Option Resource :=
  match text.toList with
  | '_' :: ':' :: label => some (.blank (":" ++ String.ofList label))
  | _ => if Iri.isValid text then some (.iri ⟨text⟩) else none

def nodeName (text : Option String) : NodeName :=
  match text.bind resourceOf? with
  | some r => .named r
  | none => .unusable

def reference (text : Option String) : Item := .node (nodeName text) [] [] [] []

/-- The texts of a member that holds one text or many. -/
def texts? : Json → Option (List String)
  | .string s => some [s]
  | .array items =>
    items.mapM fun
      | .string s => some s
      | _ => none
  | _ => none

/-! ## Literals -/

def taggedLiteral (text language : String) : Item :=
  let tag := String.ofList (language.toList.map Char.toLower)
  if LanguageTag.isValid tag then .literal (.tagged text tag) else .nothing

/-- The text of a number and the datatype that it has of itself. A number without fraction is an
integer if it has at most 21 digits. -/
def numberLiteral : JsonNumber → String × Iri
  | .integer n => (toString n, Iri.xsdInteger)
  | .float x =>
    let text := Shortest.render Shortest.plainStyle (Shortest.decodeFloat x)
    if text.toList.contains '.' || 21 < (text.toList.filter Char.isDigit).length then
      (text, Iri.xsdDouble)
    else (text, Iri.xsdInteger)

/-- A scalar with a datatype, or with the one it has of itself. -/
def scalarLiteral (datatype : Option Iri) (language : Option String) : Json → Item
  | .string s =>
    match datatype, language with
    | some d, _ => .literal (.ofTyped s d)
    | none, some l => taggedLiteral s l
    | none, none => .literal (.plain s)
  | .bool b => .literal (.ofTyped (if b then "true" else "false") (datatype.getD Iri.xsdBoolean))
  | .number n => .literal (.ofTyped (numberLiteral n).1 (datatype.getD (numberLiteral n).2))
  | _ => .nothing

def noDefinition : TermDefinition := ⟨none, false, false, none, none, []⟩

/-- What a scalar stands for as a value of a term. -/
def scalar (c : Context) (d : TermDefinition) : Json → Item
  | .string s =>
    match d.coercion with
    | some .identifier => reference (c.expandIdentifier s)
    | some .vocabulary => reference (c.expandType s)
    | some (.datatype i) => scalarLiteral (some ⟨i⟩) none (.string s)
    | _ => scalarLiteral none (d.language.getD c.language) (.string s)
  | j =>
    match d.coercion with
    | some (.datatype i) => scalarLiteral (some ⟨i⟩) none j
    | _ => scalarLiteral none none j

/-- A scalar with the datatype that a text stands for. -/
def typedValue? (c : Context) (type : String) (value : Json) : Option (List Item) :=
  match c.expandType type with
  | none => some [.nothing]
  | some i =>
    if i = "@json" then none
    else some [if Iri.isValid i then scalarLiteral (some ⟨i⟩) none value else .nothing]

/-- Only a text can be in a language. -/
def taggedValue? (language : String) : Json → Option (List Item)
  | .string s => some [taggedLiteral s language]
  | _ => none

def valueMembers : List String :=
  ["@value", "@type", "@language", "@index", "@direction", "@context"]

/-- An object with a `@value`. -/
def valueObject? (c : Context) (members : List (String × Json)) (value : Json) :
    Option (List Item) := do
  if members.any fun m => !valueMembers.contains m.1 then none
  let type ← textMember? members "@type"
  let language ← textMember? members "@language"
  match value, type, language with
  | .array _, _, _ => none
  | .object _, _, _ => none
  | _, some _, some _ => none
  | .null, _, _ => some []
  | value, some t, none => typedValue? c t value
  | value, none, some l => taggedValue? l value
  | value, none, none => some [scalarLiteral none none value]

/-- The values of a term whose members are named by languages. -/
def languageMap? (members : List (String × Json)) : Option (List Item) := do
  let values ← members.mapM fun m => do
    let texts ← if let .null := m.2 then pure [] else texts? m.2
    pure (texts.map fun s =>
      if m.1 = "@none" then Item.literal (.plain s) else taggedLiteral s m.1)
  pure values.flatten

/-! ## Objects -/

/-- The members of an object by what their names stand for, with the definitions of the names. -/
def expandMembers (c : Context) (members : List (String × Json)) :
    List (String × TermDefinition × Json) :=
  members.filterMap fun m =>
    match c.expandName m.1 with
    | none => none
    | some name =>
      if name.toList.contains ':' || isKeyword name then
        some (name, (c.terms.lookup m.1).getD noDefinition, m.2)
      else none

def addValues (predicate : String) (values : List Item) (properties : List (Iri × List Item)) :
    List (Iri × List Item) :=
  if Iri.isValid predicate then properties ++ [(⟨predicate⟩, values)] else properties

structure Node where
  name : NodeName
  types : List Resource
  forward : List (Iri × List Item)
  backward : List (Iri × List Item)
  graph : List Item
  /-- Nodes that merely stand beside this one. -/
  beside : List Item

namespace Node

def empty : Node := ⟨.madeUp, [], [], [], [], []⟩

def toItem (n : Node) : Item := .node n.name n.types n.forward n.backward n.graph

def add (n : Node) (reverse : Bool) (predicate : String) (values : List Item) : Node :=
  if reverse then { n with backward := addValues predicate values n.backward }
  else { n with forward := addValues predicate values n.forward }

end Node

/-- The values of a term, as one list if the term says so. -/
def contain (d : TermDefinition) (values : List Item) : List Item :=
  if d.containers.contains "@list" then
    match values with
    | [.list items] => [.list items]
    | values => [.list values]
  else values

mutual

/-- The items of a value. A document nests less deep than its text is long, and its length is the
fuel. -/
def items? (start : Context) : Nat → Context → TermDefinition → Json → Option (List Item)
  | 0, _, _, _ => none
  | fuel + 1, c, d, j =>
    match j with
    | .null => some []
    | .array values => (values.mapM (items? start fuel c d)).map List.flatten
    | .object members => objectItems? start fuel c members
    | j => some [scalar c d j]

def objectItems? (start : Context) :
    Nat → Context → List (String × Json) → Option (List Item)
  | 0, _, _ => none
  | fuel + 1, c, members => do
    let c ← optionalMember (Context.extend? start c) c (members.lookup "@context")
    let expanded := expandMembers c members
    let plain := expanded.map fun m => (m.1, m.2.2)
    match plain.lookup "@value", plain.lookup "@list", plain.lookup "@set" with
    | some value, _, _ => valueObject? c plain value
    | none, some values, _ => do
      pure [.list (← items? start fuel c noDefinition values)]
    | none, none, some values => items? start fuel c noDefinition values
    | none, none, none => do
      let node ← expanded.foldlM (addMember? start fuel c) Node.empty
      pure (node.toItem :: node.beside)

def addMember? (start : Context) : Nat → Context → Node → String × TermDefinition × Json →
    Option Node
  | 0, _, _, _ => none
  | fuel + 1, c, n, (name, d, value) =>
    match name with
    | "@context" => some n
    | "@index" => some n
    | "@id" =>
      match value with
      | .string s => some { n with name := nodeName (c.expandIdentifier s) }
      | _ => none
    | "@type" => do
      let types ← texts? value
      pure { n with types := n.types ++ types.filterMap fun t => (c.expandType t).bind resourceOf? }
    | "@graph" => do
      pure { n with graph := n.graph ++ (← items? start fuel c noDefinition value) }
    | "@included" => do
      pure { n with beside := n.beside ++ (← items? start fuel c noDefinition value) }
    | "@reverse" =>
      match value with
      | .object members =>
        (expandMembers c members).foldlM (fun n m => do
          if isKeyword m.1 then none
          pure (n.add (!m.2.1.reverse) m.1 (← items? start fuel c m.2.1 m.2.2))) n
      | _ => none
    | name =>
      if isKeyword name then none
      else do
        let values ←
          match value with
          | .object members =>
            if d.containers.contains "@language" then languageMap? members
            else if d.containers.contains "@index" then
              (members.mapM fun m => items? start fuel c d m.2).map List.flatten
            else items? start fuel c d value
          | value => items? start fuel c d value
        pure (n.add d.reverse name (contain d values))

end

/-! ## Documents -/

/-- A document of one node that only holds a graph stands for the items of that graph. -/
def topItems : List Item → List Item
  | [.node .madeUp [] [] [] graph] => graph
  | items => items

/-- The quads of a document and the prefixes of its outermost context. -/
def document (text : List Char) (base : Option Iri) : Option (List Quad × List (String × String)) := do
  let json ← Json.parse? (String.ofList text)
  let start := Context.initial base
  let items ← items? start (4 * text.length + 4) start noDefinition json
  let outermost ←
    match json with
    | .object members => optionalMember (Context.extend? start start) start (members.lookup "@context")
    | _ => pure start
  pure (Item.quads (topItems items), outermost.prefixes)

end SparqlBind.JsonLd
