import SparqlBind.Binding
import SparqlBind.Text.Json
import SparqlBind.Text.Xml

/-!
# Writing solutions and truth values

The JSON, XML and CSV forms of the answers to queries. JSON and XML write the bound columns of a
solution in its own order, CSV writes a cell for every variable of the header.
-/

namespace SparqlBind.Results

/-! ## JSON -/

def jsonTerm : Term → Json
  | .iri i => .object [("type", .string "uri"), ("value", .string i.text)]
  | .blank label => .object [("type", .string "bnode"), ("value", .string label)]
  | .literal (.plain s) => .object [("type", .string "literal"), ("value", .string s)]
  | .literal (.tagged s l) =>
    .object [("type", .string "literal"), ("value", .string s), ("xml:lang", .string l)]
  | .literal (.typed s d) =>
    .object [("type", .string "literal"), ("value", .string s), ("datatype", .string d.text)]

def jsonSolution (s : Solution) : Json := .object (s.bound.map fun c => (c.1.name, jsonTerm c.2))

def jsonSolutions (xs : List Variable) (rows : List Solution) : String :=
  Json.render (.object [
    ("head", .object [("vars", .array (xs.map fun x => .string x.name))]),
    ("results", .object [("bindings", .array (rows.map jsonSolution))])])

def jsonBoolean (b : Bool) : String := Json.render (.object [("head", .object []), ("boolean", .bool b)])

/-! ## XML -/

def xmlDocument (content : String) : String :=
  "<?xml version=\"1.0\"?>" ++
    Xml.element "sparql" (Xml.attr "xmlns" "http://www.w3.org/2005/sparql-results#") content

def xmlTerm : Term → String
  | .iri i => Xml.element "uri" "" (Xml.escape i.text)
  | .blank label => Xml.element "bnode" "" (Xml.escape label)
  | .literal (.plain s) => Xml.element "literal" "" (Xml.escapeWithBlanks s)
  | .literal (.tagged s l) =>
    Xml.element "literal" (Xml.attr "xml:lang" l) (Xml.escapeWithBlanks s)
  | .literal (.typed s d) =>
    Xml.element "literal" (Xml.attr "datatype" d.text) (Xml.escapeWithBlanks s)

def xmlSolution (s : Solution) : String :=
  Xml.element "result" "" (String.join (s.bound.map fun c =>
    Xml.element "binding" (Xml.attr "name" c.1.name) (xmlTerm c.2)))

def xmlSolutions (xs : List Variable) (rows : List Solution) : String :=
  let head := xs.map fun x => "<variable" ++ Xml.attr "name" x.name ++ "/>"
  xmlDocument (Xml.element "head" "" (String.join head) ++
    Xml.element "results" "" (String.join (rows.map xmlSolution)))

def booleanText (b : Bool) : String := if b then "true" else "false"

def xmlBoolean (b : Bool) : String :=
  xmlDocument (Xml.element "head" "" "" ++ Xml.element "boolean" "" (booleanText b))

/-! ## CSV -/

def csvQuoteChar (c : Char) : List Char := if c == '"' then ['"', '"'] else [c]

def csvText (s : String) : String :=
  if s.toList.any fun c => c == '"' || c == ',' || c == '\n' || c == '\r' then
    String.ofList ('"' :: s.toList.flatMap csvQuoteChar ++ ['"'])
  else s

def csvTerm : Term → String
  | .iri i => i.text
  | .blank label => "_:" ++ label
  | .literal l => csvText l.value

def csvLine (cells : List String) : String := ",".intercalate cells ++ "\r\n"

def csvSolution (xs : List Variable) (s : Solution) : String :=
  csvLine (xs.map fun x => ((s.get? x).map csvTerm).getD "")

def csvSolutions (xs : List Variable) (rows : List Solution) : String :=
  csvLine (xs.map (·.name)) ++ String.join (rows.map (csvSolution xs))

end SparqlBind.Results
