/-!
# RDF terms

IRIs, blank nodes and literals, triples and quads, with the vocabulary the rest of the library
names. No text is checked here: an `Iri` holds any string, `Rdf.IriText` says which are IRIs.
-/

namespace SparqlBind

structure Iri where
  text : String
deriving DecidableEq, Inhabited

namespace Iri

def xsdNamespace : String := "http://www.w3.org/2001/XMLSchema#"
def rdfNamespace : String := "http://www.w3.org/1999/02/22-rdf-syntax-ns#"
def rdfsNamespace : String := "http://www.w3.org/2000/01/rdf-schema#"
def owlNamespace : String := "http://www.w3.org/2002/07/owl#"

def xsd (name : String) : Iri := ⟨xsdNamespace ++ name⟩
def rdf (name : String) : Iri := ⟨rdfNamespace ++ name⟩

def xsdString : Iri := xsd "string"
def xsdBoolean : Iri := xsd "boolean"
def xsdInteger : Iri := xsd "integer"
def xsdDecimal : Iri := xsd "decimal"
def xsdFloat : Iri := xsd "float"
def xsdDouble : Iri := xsd "double"
def rdfType : Iri := rdf "type"
def rdfLangString : Iri := rdf "langString"

end Iri

/-- A literal is a plain text, a text in a language, or a text read in a datatype. The datatype of a
plain text is `xsd:string`, which `Literal.ofTyped` therefore never keeps as a datatype. -/
inductive Literal
  | plain (value : String)
  | tagged (value language : String)
  | typed (value : String) (datatype : Iri)
deriving DecidableEq, Inhabited

namespace Literal

def ofTyped (value : String) (datatype : Iri) : Literal :=
  if datatype = Iri.xsdString then .plain value else .typed value datatype

def value : Literal → String
  | plain v => v
  | tagged v _ => v
  | typed v _ => v

def language? : Literal → Option String
  | tagged _ l => some l
  | _ => none

def datatype : Literal → Iri
  | plain _ => Iri.xsdString
  | tagged _ _ => Iri.rdfLangString
  | typed _ d => d

def ofInt (n : Int) : Literal := .typed (toString n) Iri.xsdInteger

def ofBool (b : Bool) : Literal := .typed (if b then "true" else "false") Iri.xsdBoolean

end Literal

inductive Term
  | iri (iri : Iri)
  | blank (label : String)
  | literal (literal : Literal)
deriving DecidableEq, Inhabited

/-- What a subject and a graph name can be. -/
inductive Resource
  | iri (iri : Iri)
  | blank (label : String)
deriving DecidableEq, Inhabited

namespace Resource

def toTerm : Resource → Term
  | iri i => .iri i
  | blank l => .blank l

def ofTerm? : Term → Option Resource
  | .iri i => some (.iri i)
  | .blank l => some (.blank l)
  | .literal _ => none

end Resource

/-- A term without blank nodes, as a table of values holds. -/
inductive GroundTerm
  | iri (iri : Iri)
  | literal (literal : Literal)
deriving DecidableEq, Inhabited

namespace GroundTerm

def toTerm : GroundTerm → Term
  | iri i => .iri i
  | literal l => .literal l

end GroundTerm

structure Triple where
  subject : Resource
  predicate : Iri
  object : Term
deriving DecidableEq, Inhabited

/-- A triple in a named graph, or in the default graph when `graph` is `none`. -/
structure Quad where
  subject : Resource
  predicate : Iri
  object : Term
  graph : Option Resource
deriving DecidableEq, Inhabited

namespace Quad

def triple (q : Quad) : Triple := ⟨q.subject, q.predicate, q.object⟩

end Quad

/-- A query variable, named without its question mark. -/
structure Variable where
  name : String
deriving DecidableEq, Inhabited

end SparqlBind
