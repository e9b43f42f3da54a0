import SparqlBind.Rdf.Turtle.Writer
import SparqlBind.Text.Xml

/-!
# Writing RDF/XML

One element for each run of triples with the same subject. When the first of them gives the subject
a class, the element is named after it. Names are cut from the ends of IRIs; an IRI without such an
end makes an element with an empty local name.
-/

namespace SparqlBind.RdfXml

open Turtle (Prefix)

def rdfName (name : String) : Iri := ⟨Iri.rdfNamespace ++ name⟩

/-- Names of the syntax itself, which name no property and no element of a class. -/
def reserved : List Iri :=
  ["Description", "li", "RDF", "ID", "about", "parseType", "resource", "nodeID", "datatype"].map rdfName

/-- The declarations that every document has. -/
def basePrefixes : List Prefix :=
  [⟨"its", "http://www.w3.org/2005/11/its"⟩, ⟨"rdf", Iri.rdfNamespace⟩]

/-- Cuts an IRI before the name at its end. -/
def splitName (i : Iri) : String × String :=
  let text := i.text.toList
  let tail := (text.reverse.takeWhile Xml.isNameChar).reverse
  let name := tail.dropWhile fun c => !Xml.isNameStart c || c == ':'
  if tail.length == text.length then (i.text, "")
  else (String.ofList (text.take (text.length - name.length)), String.ofList name)

/-- The name of an element and the declaration it needs. -/
def elementName (prefixes : List Prefix) (i : Iri) : String × String :=
  let (start, name) := splitName i
  match prefixes.find? (·.iri == start) with
  | some p => (p.name ++ ":" ++ name, "")
  | none =>
    if start == "http://www.w3.org/2000/xmlns/" then ("xmlns:" ++ name, "")
    else if name.isEmpty then ("oxprefix:", Xml.attr "xmlns:oxprefix" start)
    else (name, Xml.attr "xmlns" start)

def property (prefixes : List Prefix) (t : Triple) : String :=
  let (name, declaration) := elementName prefixes t.predicate
  let closed (attributes : String) : String :=
    "\t\t<" ++ name ++ declaration ++ attributes ++ "/>\n"
  let filled (attributes content : String) : String :=
    "\t\t" ++ Xml.element name (declaration ++ attributes) (Xml.escape content) ++ "\n"
  match t.object with
  | .iri i => closed (Xml.attr "rdf:resource" i.text)
  | .blank label => closed (Xml.attr "rdf:nodeID" label)
  | .literal (.plain s) => filled "" s
  | .literal (.tagged s l) => filled (Xml.attr "xml:lang" l) s
  | .literal (.typed s d) => filled (Xml.attr "rdf:datatype" d.text) s

/-- The class that names the element of a subject. -/
def class? (t : Triple) : Option Iri :=
  match t.object with
  | .iri i => if t.predicate = Iri.rdfType && !reserved.contains i then some i else none
  | _ => none

def subjectAttribute : Resource → String
  | .iri i => Xml.attr "rdf:about" i.text
  | .blank label => Xml.attr "rdf:nodeID" label

/-- The element of a run of triples with one subject. -/
def description (prefixes : List Prefix) (first : Triple) (rest : List Triple) : String :=
  let ((name, declaration), properties) := match class? first with
    | some c => (elementName prefixes c, rest)
    | none => (("rdf:Description", ""), first :: rest)
  "\t<" ++ name ++ declaration ++ subjectAttribute first.subject ++ ">\n" ++
    String.join (properties.map (property prefixes)) ++ "\t</" ++ name ++ ">\n"

/-- Runs of triples with the same subject. -/
def runs : List Triple → List (Triple × List Triple)
  | [] => []
  | t :: rest =>
    match runs rest with
    | (u, us) :: more => if t.subject = u.subject then (t, u :: us) :: more else (t, []) :: (u, us) :: more
    | [] => [(t, [])]

def refused (t : Triple) : Bool := reserved.contains t.predicate

def header : String := "<?xml version=\"1.0\" encoding=\"UTF-8\"?>\n"

/-- A document, unless a triple has a reserved name as its predicate. -/
def render (extra : List Prefix) (triples : List Triple) : Except String String :=
  let prefixes := basePrefixes ++ extra
  let declarations := (prefixes.map fun p => Xml.attr ("xmlns:" ++ p.name) p.iri).mergeSort (· ≤ ·)
  if triples.any refused then .error "RDF/XML reserved syntax term is not allowed as a property"
  else .ok (header ++ "<rdf:RDF" ++ String.join declarations ++ ">\n" ++
    String.join ((runs triples).map fun r => description prefixes r.1 r.2) ++ "</rdf:RDF>")

end SparqlBind.RdfXml
