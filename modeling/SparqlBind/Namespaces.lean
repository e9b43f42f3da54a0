import SparqlBind.Error
import SparqlBind.Sparql.QueryReader

/-!
# Namespaces and classification

The prefixes and the base IRI every query of an endpoint is read with. A name declared again keeps
its place and takes the new IRI. The IRIs are checked when a query is read, the base first and then
the prefixes in order, so a wrong one fails every query whatever its text.
-/

namespace SparqlBind

structure Namespaces where
  prefixes : List (String × String)
  base : Option String
deriving DecidableEq, Inhabited

namespace Namespaces

def empty : Namespaces := ⟨[], none⟩

def declare (name iri : String) : List (String × String) → List (String × String)
  | [] => [(name, iri)]
  | p :: rest => if p.1 = name then (name, iri) :: rest else p :: declare name iri rest

def withPrefix (n : Namespaces) (name iri : String) : Namespaces :=
  { n with prefixes := declare name iri n.prefixes }

def withPrefixes (n : Namespaces) (declarations : List (String × String)) : Namespaces :=
  declarations.foldl (fun n d => n.withPrefix d.1 d.2) n

def withBase (n : Namespaces) (iri : String) : Namespaces := { n with base := some iri }

def wellKnownPrefixes : List (String × String) :=
  [("rdf", Iri.rdfNamespace), ("rdfs", Iri.rdfsNamespace), ("xsd", Iri.xsdNamespace),
    ("owl", Iri.owlNamespace)]

def wellKnown : Namespaces := empty.withPrefixes wellKnownPrefixes

def checkBase (n : Namespaces) : Except ParseError Unit :=
  match n.base with
  | none => pure ()
  | some iri =>
    match Iri.check iri with
    | .ok _ => pure ()
    | .error cause => throw (.invalidBase iri cause)

def checkPrefixes : List (String × String) → Except ParseError Unit
  | [] => pure ()
  | (name, iri) :: rest =>
    match Iri.check iri with
    | .ok _ => checkPrefixes rest
    | .error cause => throw (.invalidPrefix name iri cause)

def check (n : Namespaces) : Except ParseError Unit := do
  n.checkBase
  checkPrefixes n.prefixes

end Namespaces

def parseQuery (text : String) (n : Namespaces) : Except ParseError Query := do
  n.check
  match Query.parse? text (n.base.map Iri.mk) n.prefixes with
  | some q => pure q
  | none => throw .malformed

/-- Reads a query and tells its kind. -/
def classify (text : String) (n : Namespaces) : Except ParseError (Query × OperationKind) := do
  let q ← parseQuery text n
  pure (q, .ofAlgebraName q.algebraName)

end SparqlBind
