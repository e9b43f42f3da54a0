import SparqlBind.Sparql.Reader

/-!
# Items of JSON-LD documents

A document with its contexts worked out: literals, lists, and nodes with their properties. Writing an
item down as quads makes a blank node for each node without a name and for each cell of a list. What
has no IRI leaves no quad, but what stands in it is written all the same.
-/

namespace SparqlBind.JsonLd

inductive NodeName
  | madeUp
  | named (name : Resource)
  /-- A name that is no IRI. -/
  | unusable
deriving DecidableEq, Inhabited

inductive Item
  | literal (literal : Literal)
  /-- A literal that cannot be written. -/
  | nothing
  | list (items : List Item)
  | node (name : NodeName) (types : List Resource) (forward backward : List (Iri × List Item))
      (graph : List Item)

namespace Item

structure Output where
  /-- How many nodes have been made up. -/
  fresh : Nat
  /-- The quads, the last one first. -/
  quads : List Quad

abbrev Writing := StateM Output

def freshNode : Writing Resource := fun o =>
  (.blank (Reader.madeUpName 'a' o.fresh), { o with fresh := o.fresh + 1 })

def emit (q : Quad) : Writing Unit := modify fun o => { o with quads := q :: o.quads }

def subjectOf : NodeName → Writing (Option Resource)
  | .madeUp => do pure (some (← freshNode))
  | .named name => pure (some name)
  | .unusable => pure none

/-- States something about a subject, if both have a name. -/
def state (graph : Option Resource) (subject : Option Resource) (predicate : Iri) :
    Option Term → Writing Unit
  | none => pure ()
  | some object =>
    match subject with
    | none => pure ()
    | some subject => emit ⟨subject, predicate, object, graph⟩

/-- The opposite statement: about the object, that it stands in the relation to the subject. -/
def stateBackward (graph : Option Resource) (subject : Option Resource) (predicate : Iri)
    (object : Option Term) : Writing Unit :=
  state graph (object.bind Resource.ofTerm?) predicate (subject.map Resource.toTerm)

abbrev Statement := Option Resource → Iri → Option Term → Writing Unit

mutual

/-- Writes an item down and gives the term it stands for. -/
def write (graph : Option Resource) : Item → Writing (Option Term)
  | literal l => pure (some (.literal l))
  | nothing => pure none
  | list items => do pure (some (← writeList graph items))
  | node name types forward backward contents => do
    let subject ← subjectOf name
    types.forM fun t => state graph subject Iri.rdfType (some t.toTerm)
    writeProperties graph (state graph) subject forward
    writeProperties graph (stateBackward graph) subject backward
    match subject with
    | none => pure ()
    | some s => writeAll (some s) contents
    pure (subject.map Resource.toTerm)

def writeList (graph : Option Resource) : List Item → Writing Term
  | [] => pure (.iri (Iri.rdf "nil"))
  | item :: rest => do
    let cell ← freshNode
    state graph (some cell) (Iri.rdf "first") (← write graph item)
    state graph (some cell) (Iri.rdf "rest") (some (← writeList graph rest))
    pure cell.toTerm

def writeProperties (graph : Option Resource) (statement : Statement) (subject : Option Resource) :
    List (Iri × List Item) → Writing Unit
  | [] => pure ()
  | (predicate, values) :: rest => do
    writeValues graph statement subject predicate values
    writeProperties graph statement subject rest

def writeValues (graph : Option Resource) (statement : Statement) (subject : Option Resource)
    (predicate : Iri) : List Item → Writing Unit
  | [] => pure ()
  | value :: rest => do
    statement subject predicate (← write graph value)
    writeValues graph statement subject predicate rest

def writeAll (graph : Option Resource) : List Item → Writing Unit
  | [] => pure ()
  | item :: rest => do
    let _ ← write graph item
    writeAll graph rest

end

/-- The quads of the items of a document. -/
def quads (items : List Item) : List Quad := ((writeAll none items).run ⟨0, []⟩).2.quads.reverse

end Item

end SparqlBind.JsonLd
