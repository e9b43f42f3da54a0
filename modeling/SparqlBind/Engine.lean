import SparqlBind.Binding
import SparqlBind.Error
import SparqlBind.Rdf.Store
import SparqlBind.Sparql.Algebra

/-!
# Engines

An engine answers a query on a store. It may refuse a query outright; rows and triples come one by
one, and each of them may be a failure instead. The inlining of extension functions is given for
every engine, and `Evaluation.engine` is the one the program runs.
-/

namespace SparqlBind

inductive EngineAnswer
  | solutions (vars : List Variable) (rows : List (Except EngineError Solution))
  | boolean (value : Bool)
  | graph (triples : List (Except EngineError Triple))

structure Engine where
  answer : Store → Query → Except EngineError EngineAnswer

end SparqlBind
