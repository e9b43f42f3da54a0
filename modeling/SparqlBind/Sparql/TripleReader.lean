import SparqlBind.Sparql.ExpressionReader

/-!
# Reading triple and path patterns

Triples with shared subjects and predicates, blank node property lists, collections and property
paths. What describes a nested node comes before the triple that holds the node. A path of one step
is a triple, and a sequence is split at a made-up blank node.
-/

namespace SparqlBind.TripleReader

open Reader NameChar

/-- The predicate of a triple: a variable, or a path. -/
inductive Verb
  | var (x : Variable)
  | path (path : PropertyPath)

/-! ## Paths -/

def typeMark : Reader Iri := do exact "a"; pure Iri.rdfType

def stepIri : Reader Iri := either iri typeMark

/-- A member of a negated set, and whether it is inverted. -/
def negatedMember : Reader (Bool × Iri) :=
  either (do sign "^"; pure (true, ← stepIri)) (do pure (false, ← stepIri))

def negatedPath (members : List (Bool × Iri)) : PropertyPath :=
  let direct := (members.filter fun m => !m.1).map (·.2)
  let inverted := (members.filter (·.1)).map (·.2)
  if inverted.isEmpty then .negated direct
  else if direct.isEmpty then .inverse (.negated inverted)
  else .alternative (.negated direct) (.inverse (.negated inverted))

def negatedSet : Reader PropertyPath := do
  sign "!"
  let members ← either
    (do
      sign "("
      let members ← separated (sign "|") (do let m ← negatedMember; blanks; pure m)
      exact ")"
      pure members)
    (do pure [← negatedMember])
  pure (negatedPath members)

def pathPrimary (inner : Nested) : Reader PropertyPath :=
  firstOf [do pure (.iri (← stepIri)), negatedSet,
    do sign "("; let p ← inner.path; blanks; exact ")"; pure p]

/-- A question mark that starts a variable does not make a path optional. -/
def optionalMark : Reader Unit := do
  exact "?"
  let rest ← peek
  require !((rest.head?.map fun c => isNameStart c || c.isDigit).getD false)

def pathElement (inner : Nested) : Reader PropertyPath := do
  let p ← pathPrimary inner
  blanks
  firstOf [do exact "*"; pure (.zeroOrMore p), do exact "+"; pure (.oneOrMore p),
    do optionalMark; pure (.zeroOrOne p), pure p]

def pathStep (inner : Nested) : Reader PropertyPath :=
  either (do sign "^"; pure (.inverse (← pathElement inner))) (pathElement inner)

def foldPaths (join : PropertyPath → PropertyPath → PropertyPath) :
    List PropertyPath → Reader PropertyPath
  | [] => fail
  | first :: rest => pure (rest.foldl join first)

def pathSequence (inner : Nested) : Reader PropertyPath := do
  foldPaths .sequence (← separated (sign "/") (do let p ← pathStep inner; blanks; pure p))

def pathAlternative (inner : Nested) : Reader PropertyPath := do
  foldPaths .alternative
    (← separated (sign "|") (do let p ← pathSequence inner; blanks; pure p))

def verb (paths : Bool) (inner : Nested) : Reader Verb :=
  if paths then
    either (do pure (.path (← pathAlternative inner))) (do pure (.var (← queryVariable)))
  else either (do pure (.var (← queryVariable))) (do pure (.path (.iri (← stepIri))))

/-- The patterns of a path between two nodes. -/
def linkPath (subject : TermPattern) (path : PropertyPath) (object : TermPattern) :
    Reader (List Link) :=
  match path with
  | .iri i => pure [.triple ⟨subject, .iri i, object⟩]
  | .inverse p => linkPath object p subject
  | .sequence p q => do
    let middle ← freshBlank
    let first ← linkPath subject p (.term middle)
    pure (first ++ (← linkPath (.term middle) q object))
  | p => pure [.path subject p object]

def link (subject : TermPattern) (verb : Verb) (object : TermPattern) : Reader (List Link) :=
  match verb with
  | .var x => pure [.triple ⟨subject, .var x, object⟩]
  | .path p => linkPath subject p object

/-! ## Triples -/

def term : Reader Term :=
  firstOf [do pure (.iri (← iri)), do pure (.literal (← literal)), blankNode,
    do emptyList; pure (.iri (Iri.rdf "nil"))]

def variableOrTerm : Reader TermPattern :=
  either (do pure (.var (← queryVariable))) (do pure (.term (← term)))

def objects (paths : Bool) (inner : Nested) : Reader (List Described) :=
  separated (sign ",") (do let o ← inner.node paths; blanks; pure o)

def verbObjects (paths : Bool) (inner : Nested) : Reader (Verb × List Described) := do
  let v ← verb paths inner
  blanks
  pure (v, ← objects paths inner)

/-- Verbs with their objects, separated by semicolons that may stand alone. -/
def properties (paths : Bool) (inner : Nested) : Reader (List (Verb × List Described)) := do
  let first ← verbObjects paths inner
  blanks
  let rest ← many do
    sign ";"
    let next ← option (verbObjects paths inner)
    blanks
    pure next
  pure (first :: rest.filterMap id)

/-- What describes the objects, then the links from `subject` to each of them. -/
def linkAll (subject : TermPattern) (properties : List (Verb × List Described)) :
    Reader (List Link) := do
  let nested := properties.flatMap fun p => p.2.flatMap Described.links
  let links ← properties.mapM fun p => p.2.mapM fun o => link subject p.1 o.node
  pure (nested ++ links.flatten.flatten)

def propertyListNode (paths : Bool) (inner : Nested) : Reader Described := do
  sign "["
  let properties ← properties paths inner
  blanks
  exact "]"
  let node := TermPattern.term (← freshBlank)
  pure ⟨node, ← linkAll node properties⟩

/-- The cells of a list, given the node that follows it; the last cell comes first. -/
def collectionCells : List Described → Reader Described
  | [] => pure ⟨.term (.iri (Iri.rdf "nil")), []⟩
  | item :: rest => do
    let next ← collectionCells rest
    let cell := TermPattern.term (← freshBlank)
    pure ⟨cell, next.links ++ [.triple ⟨cell, .iri (Iri.rdf "first"), item.node⟩,
      .triple ⟨cell, .iri (Iri.rdf "rest"), next.node⟩] ++ item.links⟩

def collection (paths : Bool) (inner : Nested) : Reader Described := do
  sign "("
  let items ← many1 (do let o ← inner.node paths; blanks; pure o)
  exact ")"
  collectionCells items

def describedNode (paths : Bool) (inner : Nested) : Reader Described :=
  either (collection paths inner) (propertyListNode paths inner)

def node (paths : Bool) (inner : Nested) : Reader Described :=
  either (do pure ⟨← variableOrTerm, []⟩) (describedNode paths inner)

def sameSubject (paths : Bool) (inner : Nested) : Reader (List Link) :=
  either
    (do
      let subject ← variableOrTerm
      blanks
      linkAll subject (← properties paths inner))
    (do
      let subject ← describedNode paths inner
      blanks
      let properties ← option (properties paths inner)
      pure (subject.links ++ (← linkAll subject.node (properties.getD []))))

/-- Subjects with their properties, separated by dots; the last dot may be left out. -/
def triples (paths : Bool) (inner : Nested) : Reader (List Link) := do
  let first ← sameSubject paths inner
  blanks
  let rest ← many do
    sign "."
    let links ← sameSubject paths inner
    blanks
    pure links
  let _ ← option (sign ".")
  pure (first ++ rest.flatten)

/-- The triples of a template, in braces. -/
def template (inner : Nested) : Reader (List TriplePattern) := do
  sign "\x7b"
  let links ← option (triples false inner)
  blanks
  exact "\x7d"
  pure ((links.getD []).filterMap fun
    | .triple t => some t
    | .path .. => none)

end SparqlBind.TripleReader
