import SparqlBind.Evaluation.Chance
import SparqlBind.Rdf.Format
import SparqlBind.Rdf.JsonLd.Reader
import SparqlBind.Rdf.Store
import SparqlBind.Rdf.Turtle.Reader
import SparqlBind.Rdf.Xml.Reader
import SparqlBind.Text.Utf8

/-!
# Loading documents

A document is read as a whole before any of its quads is inserted, so a malformed one changes nothing.
Its blank nodes get labels that no other document has.
-/

namespace SparqlBind

/-- The quads of a text and the prefixes it declares. -/
structure Document where
  quads : List Quad
  prefixes : List (String × String)
deriving DecidableEq, Inhabited

namespace RdfFormat

/-- Whether relative IRIs are read with a base. -/
def usesBase : RdfFormat → Bool
  | nQuads => false
  | nTriples => false
  | _ => true

def read? (format : RdfFormat) (base : Option Iri) (text : List Char) : Option Document :=
  let withoutPrefixes (quads : List Quad) : Document := ⟨quads, []⟩
  let declared (p : List Quad × List (String × String)) : Document := ⟨p.1, p.2⟩
  match format with
  | nTriples => (TurtleReader.lineDocument false text).map withoutPrefixes
  | nQuads => (TurtleReader.lineDocument true text).map withoutPrefixes
  | turtle => (TurtleReader.document false text base).map declared
  | n3 => (TurtleReader.document false text base).map declared
  | triG => (TurtleReader.document true text base).map declared
  | rdfXml => (RdfXmlReader.document text base).map withoutPrefixes
  | jsonLd _ => (JsonLd.document text base).map declared

end RdfFormat

inductive LoadError
  | invalidBase (base : String) (cause : IriError)
  | malformed
deriving DecidableEq, Inhabited

namespace LoadError

/-- The message of the error and those of its causes. -/
def messages : LoadError → List String
  | invalidBase base cause => ["Invalid base IRI " ++ base, cause.message]
  | malformed => ["The document is malformed"]

end LoadError

def Resource.relabel (label : String → String) : Resource → Resource
  | .iri i => .iri i
  | .blank l => .blank (label l)

def Term.relabel (label : String → String) : Term → Term
  | .blank l => .blank (label l)
  | t => t

def Quad.relabel (label : String → String) (q : Quad) : Quad :=
  ⟨q.subject.relabel label, q.predicate, q.object.relabel label, q.graph.map (·.relabel label)⟩

namespace Store

/-- The base IRI that a format reads a document with. -/
def checkBase (format : RdfFormat) : Option String → Except LoadError (Option Iri)
  | none => .ok none
  | some base =>
    if format.usesBase then
      match Iri.check base with
      | .ok _ => .ok (some ⟨base⟩)
      | .error cause => .error (.invalidBase base cause)
    else .ok none

/-- The store with the quads of a document, and the prefixes that the document declares. The seed
makes the labels of its blank nodes. -/
def load (s : Store) (seed : String) (format : RdfFormat) (base : Option String)
    (bytes : List UInt8) : Except LoadError (Store × List (String × String)) := do
  let base ← checkBase format base
  match (Utf8.decode? bytes).bind fun text => format.read? base text.toList with
  | none => throw .malformed
  | some d =>
    let label (l : String) : String := Chance.label ⟨seed ++ l⟩
    pure (s.insertAll (d.quads.map (·.relabel label)), d.prefixes)

end Store

end SparqlBind
