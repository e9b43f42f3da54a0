import SparqlBind.Binding
import SparqlBind.Sparql.Algebra

/-!
# Tables of evaluated solutions

Bindings become the rows of a table of values and are read back from one. Such a table holds no
blank nodes, so they travel as IRIs under one prefix. A term of the prefix that was an IRI before is
read back as a blank node as well; the statements about tables exclude it.
-/

namespace SparqlBind

/-- Evaluated solutions and the columns they may fill. -/
structure Table where
  vars : List Variable
  rows : List Binding
deriving Inhabited

namespace Skolem

/-- The IRIs that stand for blank nodes start with this text. -/
def namespaceText : String := "https://sparext.invalid/.well-known/genid/"

def encode : Term → GroundTerm
  | .blank label => .iri ⟨namespaceText ++ label⟩
  | .iri i => .iri i
  | .literal l => .literal l

def label? (i : Iri) : Option String :=
  let start := namespaceText.toList
  if start.isPrefixOf i.text.toList then some (String.ofList (i.text.toList.drop start.length))
  else none

def decode : Term → Term
  | .iri i =>
    match label? i with
    | some label => .blank label
    | none => .iri i
  | t => t

def decodeSolution (s : Solution) : Solution :=
  ⟨s.columns.map fun c => (c.1, c.2.map decode)⟩

/-- Subject and object are read back; a predicate stays as it is. -/
def decodeTriple (t : Triple) : Triple :=
  { t with
    subject := match decode t.subject.toTerm with
      | .blank label => .blank label
      | _ => t.subject
    object := decode t.object }

end Skolem

namespace Table

def row (vars : List Variable) (b : Binding) : List (Option GroundTerm) :=
  vars.map fun x => (b.get? x).map Skolem.encode

/-- The table as a pattern. -/
def toPattern (t : Table) : Pattern := .values t.vars (t.rows.map (row t.vars))

end Table

end SparqlBind
