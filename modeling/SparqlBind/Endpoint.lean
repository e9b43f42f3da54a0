import SparqlBind.Namespaces
import SparqlBind.Results.Body

/-!
# Query endpoints

An endpoint answers query texts on a store: it reads the query with its namespaces, evaluates it
with its functions before its deadline and writes the outcome in the negotiated format.
-/

namespace SparqlBind

/-- A written answer with its media type. -/
structure QueryResponse where
  mediaType : String
  body : String
deriving DecidableEq, Inhabited

structure QueryEndpoint where
  engine : Engine
  store : Store
  namespaces : Namespaces
  evaluator : ExtensionEvaluator
  timeout : Option Duration

namespace QueryEndpoint

/-- An endpoint with the well-known namespaces and without a deadline. -/
def new (engine : Engine) (store : Store) (registry : Registry) : QueryEndpoint :=
  ⟨engine, store, .wellKnown, ⟨registry⟩, none⟩

def registry (e : QueryEndpoint) : Registry := e.evaluator.registry

def withNamespaces (e : QueryEndpoint) (n : Namespaces) : QueryEndpoint := { e with namespaces := n }

def withTimeout (e : QueryEndpoint) (limit : Duration) : QueryEndpoint :=
  { e with timeout := some limit }

/-- The context of one query, whose deadline counts from now. -/
def context (e : QueryEndpoint) : ExceptT EndpointError Timed EvaluationContext := do
  let c := EvaluationContext.ofStore e.engine e.store
  match e.timeout with
  | none => pure c
  | some limit => do
    let now ← (Timed.now : Timed Instant)
    match c.withTimeout? now limit with
    | some c => pure c
    | none => throw .deadlineOverflow

def evaluate (e : QueryEndpoint) (c : EvaluationContext) (q : Query) :
    ExceptT EndpointError Timed QueryOutcome := do
  let outcome ← ((e.evaluator.execute c q).run : Timed (Except EvaluationError QueryOutcome))
  Timed.ofExcept .evaluation outcome

def query (e : QueryEndpoint) (text : String) (accept : Option String) :
    ExceptT EndpointError Timed QueryResponse := do
  let (q, kind) ← Timed.ofExcept .parse (classify text e.namespaces)
  let c ← e.context
  let outcome ← e.evaluate c q
  let chosen := negotiate accept kind
  let body ← Timed.ofExcept .serialization (outcome.serialize chosen.format)
  pure ⟨chosen.mediaType, body⟩

end QueryEndpoint

end SparqlBind
