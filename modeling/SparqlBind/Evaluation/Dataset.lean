import SparqlBind.Binding
import SparqlBind.Rdf.Store
import SparqlBind.Sparql.Algebra
import SparqlBind.Text.Digest
import SparqlBind.Xsd.Value

/-!
# Datasets and the matching of triples

The graphs a query sees, and how a row grows when a triple pattern meets a triple. A blank node of a
pattern is a variable that no query can name.
-/

namespace SparqlBind

/-- A default graph and the named graphs, as lists of triples. -/
structure Dataset where
  default : List Triple
  named : List (Resource × List Triple)

namespace Dataset

/-- What a query sees: the whole store, or the graphs of its dataset clause. Several default graphs
are put one after the other. -/
def ofStore (store : Store) : Option DatasetClause → Dataset
  | none => ⟨store.graph none, store.graphNames.map fun g => (g, store.graph (some g))⟩
  | some clause =>
    let graph (i : Iri) : List Triple := store.graph (some (.iri i))
    let named := (clause.named.getD []).map fun i => (Resource.iri i, graph i)
    ⟨clause.default.flatMap graph, named⟩

end Dataset

/-- The variable that a blank node of a pattern is. -/
def Variable.ofBlank (label : String) : Variable := ⟨Digest.hexText (Digest.md5 (Digest.bytesOf label))⟩

namespace TermPattern

/-- The variable that a pattern leaves open. -/
def asVariable? : TermPattern → Option Variable
  | term (.blank label) => some (.ofBlank label)
  | term _ => none
  | var x => some x

/-- The term that a row gives to a pattern. -/
def value? (row : Binding) (p : TermPattern) : Option Term :=
  match p, p.asVariable? with
  | _, some x => row.get? x
  | term t, none => some t.canonical
  | var x, none => row.get? x

/-- The row in which the pattern is the term. -/
def unify? (p : TermPattern) (t : Term) (row : Binding) : Option Binding :=
  match p.value? row with
  | some u => if t = u then some row else none
  | none => p.asVariable?.map fun x => row.set x t

end TermPattern

namespace TriplePattern

def unify? (p : TriplePattern) (row : Binding) (t : Triple) : Option Binding := do
  let row ← p.subject.unify? t.subject.toTerm row
  let row ← p.predicate.toTermPattern.unify? (.iri t.predicate) row
  p.object.unify? t.object row

end TriplePattern

namespace Dataset

/-- The graphs that a pattern under `GRAPH` stands for, each with the row that names it. -/
def graphs (d : Dataset) (row : Binding) : Option NamePattern → List (Binding × List Triple)
  | none => [(row, d.default)]
  | some name => d.named.filterMap fun g =>
    (name.toTermPattern.unify? g.1.toTerm row).map (·, g.2)

/-- All ways to meet the triple patterns in one graph, in the order of its triples. -/
def matchAll (triples : List Triple) : List TriplePattern → Binding → List Binding
  | [], row => [row]
  | p :: ps, row => (triples.filterMap (p.unify? row)).flatMap (matchAll triples ps)

def matchBasic (d : Dataset) (graph : Option NamePattern) (ps : List TriplePattern) (row : Binding) :
    List Binding :=
  (d.graphs row graph).flatMap fun g => matchAll g.2 ps g.1

end Dataset

end SparqlBind
