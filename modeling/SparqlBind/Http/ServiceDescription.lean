import SparqlBind.Endpoint

/-!
# The service description

What an endpoint says about itself as a graph: its title and description, the formats of its answers,
its dataset, and each of its extension functions, in the order of the registry.
-/

namespace SparqlBind

structure ServiceDescription where
  publicUrl : Iri
  title : String
  description : String
deriving DecidableEq, Inhabited

namespace ServiceDescription

def sdNamespace : String := "http://www.w3.org/ns/sparql-service-description#"

def entailmentNamespace : String := "http://www.w3.org/ns/entailment/"

def dcNamespace : String := "http://purl.org/dc/elements/1.1/"

def formatsNamespace : String := "http://www.w3.org/ns/formats/"

def sd (name : String) : Iri := ⟨sdNamespace ++ name⟩

def prefixes : List Turtle.Prefix :=
  [⟨"sd", sdNamespace⟩, ⟨"ent", entailmentNamespace⟩, ⟨"dc", dcNamespace⟩,
    ⟨"rdfs", Iri.rdfsNamespace⟩]

def plain (s : String) : Term := .literal (.plain s)

def withoutBreaks (s : String) : String := String.ofList (s.toList.filter (· != '\n'))

/-- What is said of the endpoint itself; the two labels name its dataset and the default graph. -/
def ownTriples (d : ServiceDescription) (dataset graph : String) : List Triple :=
  let about (property : Iri) (value : Term) : Triple := ⟨.iri d.publicUrl, property, value⟩
  [about Iri.rdfType (.iri (sd "Service")),
    about ⟨Iri.rdfsNamespace ++ "label"⟩ (plain d.title),
    about ⟨dcNamespace ++ "description"⟩ (plain (withoutBreaks d.description)),
    about (sd "endpoint") (.iri d.publicUrl),
    about (sd "supportedLanguage") (.iri (sd "SPARQL11Query")),
    about (sd "resultFormat") (.iri ⟨formatsNamespace ++ "SPARQL_Results_JSON"⟩),
    about (sd "resultFormat") (.iri ⟨formatsNamespace ++ "SPARQL_Results_CSV"⟩),
    about (sd "feature") (.iri (sd "DereferencesURIs")),
    about (sd "defaultEntailmentRegime") (.iri ⟨entailmentNamespace ++ "RDFS"⟩),
    about (sd "defaultDataset") (.blank dataset),
    ⟨.blank dataset, Iri.rdfType, .iri (sd "Dataset")⟩,
    ⟨.blank dataset, sd "defaultGraph", .blank graph⟩,
    ⟨.blank graph, Iri.rdfType, .iri (sd "Graph")⟩]

def functionTriples (d : ServiceDescription) (f : Iri) : List Triple :=
  [⟨.iri f, Iri.rdfType, .iri (sd "Function")⟩,
    ⟨.iri d.publicUrl, sd "extensionFunction", .iri f⟩]

def triples (d : ServiceDescription) (registry : Registry) (dataset graph : String) : List Triple :=
  d.ownTriples dataset graph ++ registry.functionNames.flatMap d.functionTriples

end ServiceDescription

end SparqlBind
