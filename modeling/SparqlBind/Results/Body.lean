import SparqlBind.Extension.Outcome
import SparqlBind.Rdf.Xml.Writer
import SparqlBind.Results.Solutions

/-!
# Bodies of answers

The text of an outcome in a format. Solutions and truth values have no Turtle form, graphs have
neither a JSON nor a CSV form.
-/

namespace SparqlBind.QueryOutcome

def unsupported (o : QueryOutcome) (format : ResultFormat) : Except SerializationError String :=
  .error (.unsupportedFormat o.shape format)

def serialize (o : QueryOutcome) (format : ResultFormat) : Except SerializationError String :=
  match o, format with
  | solutions xs rows, .json => .ok (Results.jsonSolutions xs rows)
  | solutions xs rows, .xml => .ok (Results.xmlSolutions xs rows)
  | solutions xs rows, .csv => .ok (Results.csvSolutions xs rows)
  | boolean b, .json => .ok (Results.jsonBoolean b)
  | boolean b, .xml => .ok (Results.xmlBoolean b)
  | boolean b, .csv => .ok (Results.booleanText b)
  | graph triples, .turtle => .ok (Turtle.render [] triples)
  | graph triples, .xml => (RdfXml.render [] triples).mapError .writer
  | o, format => o.unsupported format

end SparqlBind.QueryOutcome
