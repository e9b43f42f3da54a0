import SparqlBind.OperationKind

/-!
# Content negotiation

The table of media types and the choice of an answer's media type and format. An `Accept` value is
looked up as it stands, without lists or quality values; an unknown one stands for the default.
-/

namespace SparqlBind

inductive ResultFormat
  | json
  | xml
  | csv
  | turtle
deriving DecidableEq, Inhabited

/-- A media type and the format of the bodies that carry it. -/
structure Representation where
  mediaType : String
  format : ResultFormat
deriving DecidableEq, Inhabited

namespace ResultFormat

/-- The short name of the format. -/
def id : ResultFormat → String
  | json => "json"
  | xml => "xml"
  | csv => "csv"
  | turtle => "ttl"

def ofId? (name : String) : Option ResultFormat := [json, xml, csv, turtle].find? (·.id == name)

end ResultFormat

def mediaTypes : List Representation :=
  [⟨"application/sparql-results+json", .json⟩, ⟨"application/json", .json⟩, ⟨"text/json", .json⟩,
    ⟨"application/sparql-results+xml", .xml⟩, ⟨"application/xml", .xml⟩,
    ⟨"application/rdf+xml", .xml⟩, ⟨"text/xml", .xml⟩,
    ⟨"application/sparql-results+csv", .csv⟩, ⟨"text/csv", .csv⟩, ⟨"text/turtle", .turtle⟩]

def representation? (mediaType : String) : Option Representation :=
  mediaTypes.find? (·.mediaType == mediaType)

def ResultFormat.ofMediaType? (mediaType : String) : Option ResultFormat :=
  (representation? mediaType).map (·.format)

def defaultRepresentation : Representation := ⟨"application/xml", .xml⟩

/-- A graph has no JSON or CSV form: it is written as Turtle instead, and its XML is RDF/XML. -/
def graphRepresentation (r : Representation) : Representation :=
  match r.format with
  | .json => ⟨"text/turtle", .turtle⟩
  | .csv => ⟨"text/turtle", .turtle⟩
  | .xml => ⟨"application/rdf+xml", .xml⟩
  | .turtle => r

def negotiate (accept : Option String) (kind : OperationKind) : Representation :=
  let chosen := (accept.bind representation?).getD defaultRepresentation
  if kind = .construct then graphRepresentation chosen else chosen

end SparqlBind
