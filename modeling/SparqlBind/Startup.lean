import SparqlBind.Endpoint
import SparqlBind.Extension.ScalarFunction

/-!
# Starting an endpoint

The endpoint that the program serves: one extension function, the well-known namespaces, and the
declared prefixes, each of which must stand for an absolute IRI.
-/

namespace SparqlBind.Startup

def customConcat : Iri := ⟨"https://w3id.org/um/sparql-functions/custom_concat"⟩

/-- The extension functions that are always there. -/
def registry : Registry :=
  (Registry.empty.register customConcat
    (ScalarFunction.toExtension ⟨customConcat, ScalarFunction.concat⟩)).1

/-- A declared prefix whose IRI is none. -/
structure InvalidPrefix where
  name : String
  cause : IriError
deriving DecidableEq, Inhabited

namespace InvalidPrefix

def message (e : InvalidPrefix) : String := "The IRI of prefix " ++ e.name ++ " is invalid"

end InvalidPrefix

/-- Adds the declarations in their order, up to the first that is wrong. -/
def declareAll (n : Namespaces) : List (String × String) → Except InvalidPrefix Namespaces
  | [] => .ok n
  | (name, iri) :: rest =>
    match Iri.check iri with
    | .ok _ => declareAll (n.withPrefix name iri) rest
    | .error cause => .error ⟨name, cause⟩

def endpoint (engine : Engine) (store : Store) (prefixes : List (String × String))
    (timeout : Option Duration) : Except InvalidPrefix QueryEndpoint := do
  let namespaces ← declareAll .wellKnown prefixes
  let e := (QueryEndpoint.new engine store registry).withNamespaces namespaces
  match timeout with
  | none => pure e
  | some limit => pure (e.withTimeout limit)

end SparqlBind.Startup
