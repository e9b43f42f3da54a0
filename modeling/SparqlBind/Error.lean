import SparqlBind.Rdf.Iri
import SparqlBind.Negotiation
import SparqlBind.Time

/-!
# Errors

What can go wrong while a query is read, evaluated and answered, with the text and the status code
each cause is reported with.
-/

namespace SparqlBind

inductive ParseError
  | invalidPrefix (name iri : String) (cause : IriError)
  | invalidBase (iri : String) (cause : IriError)
  | malformed
deriving DecidableEq, Inhabited

namespace ParseError

def message : ParseError → String
  | invalidPrefix name iri cause =>
    "Invalid IRI '" ++ iri ++ "' for prefix '" ++ name ++ "': " ++ cause.message
  | invalidBase iri cause => "Invalid base IRI '" ++ iri ++ "': " ++ cause.message
  | malformed => "The query is malformed"

end ParseError

/-- Failures of the engine that evaluates patterns. -/
inductive EngineError
  | unsupportedFunction (iri : Iri)
  | unsupportedService (iri : Iri)
  | other (message : String)
deriving DecidableEq, Inhabited

namespace EngineError

def message : EngineError → String
  | unsupportedFunction f => "The custom function <" ++ f.text ++ "> is not supported"
  | unsupportedService s => "The service <" ++ s.text ++ "> is not supported"
  | other message => message

end EngineError

inductive EvaluationError
  | notImplemented (operator : String)
  | unknownFunction (function : Iri)
  | expression (target : Variable)
  | invalidArgument (function : Iri) (position : Nat)
  | function (function : Iri) (message : String)
  | timeout (limit : Duration)
  | engine (cause : EngineError)
deriving DecidableEq, Inhabited

namespace EvaluationError

def message : EvaluationError → String
  | notImplemented operator =>
    "The " ++ operator ++ " operator is not handled by the extension evaluator"
  | unknownFunction f => "The function <" ++ f.text ++ "> is not registered on this endpoint"
  | expression x => "The expression bound to ?" ++ x.name ++ " could not be evaluated"
  | invalidArgument f position =>
    "The argument " ++ toString position ++ " of <" ++ f.text ++ "> could not be evaluated"
  | function f message => "The function <" ++ f.text ++ "> failed: " ++ message
  | timeout limit => "The query evaluation has been stopped after " ++ limit.secondsText ++ "s"
  | engine cause => cause.message

end EvaluationError

/-- The shape of a query's answer. -/
inductive OutcomeShape
  | solutions
  | boolean
  | graph
deriving DecidableEq, Inhabited

namespace OutcomeShape

def name : OutcomeShape → String
  | solutions => "Solutions"
  | boolean => "Boolean"
  | graph => "Graph"

end OutcomeShape

inductive SerializationError
  | unsupportedFormat (shape : OutcomeShape) (format : ResultFormat)
  | writer (message : String)
deriving DecidableEq, Inhabited

namespace SerializationError

def message : SerializationError → String
  | unsupportedFormat shape format =>
    shape.name ++ " results can not be serialized as " ++ format.id
  | writer message => message

end SerializationError

inductive EndpointError
  | parse (cause : ParseError)
  | evaluation (cause : EvaluationError)
  | serialization (cause : SerializationError)
  /-- The deadline of the query lies beyond the last instant. The query breaks off before it is
  evaluated: a command exits, and a server closes the connection without a response. -/
  | deadlineOverflow
deriving DecidableEq, Inhabited

namespace EndpointError

def message : EndpointError → String
  | parse cause => cause.message
  | evaluation cause => cause.message
  | serialization cause => cause.message
  | deadlineOverflow => "overflow when adding duration to instant"

/-- The status of a response. What breaks off has none, see `Server.Failure`. -/
def statusCode : EndpointError → Nat
  | serialization _ => 422
  | _ => 400

end EndpointError

end SparqlBind
