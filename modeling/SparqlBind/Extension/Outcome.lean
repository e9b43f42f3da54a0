import SparqlBind.Extension.Inlining

/-!
# Outcomes of queries

The functions of a query are inlined, the engine is given the result, and its whole answer is
collected, with the blank nodes of the store in place of the IRIs they travelled as. The deadline is
checked before each item.
-/

namespace SparqlBind

inductive QueryOutcome
  | solutions (vars : List Variable) (rows : List Solution)
  | boolean (value : Bool)
  | graph (triples : List Triple)

namespace QueryOutcome

def shape : QueryOutcome → OutcomeShape
  | solutions .. => .solutions
  | boolean _ => .boolean
  | graph _ => .graph

end QueryOutcome

namespace ExtensionEvaluator

/-- Collects the items one by one. -/
def collectItems {α β : Type} (context : EvaluationContext) (decode : α → β) :
    List (Except EngineError α) → Evaluation (List β)
  | [] => pure []
  | item :: rest => do
    context.checkDeadline
    let a ← EvaluationContext.liftEngine item
    pure (decode a :: (← collectItems context decode rest))

def execute (ev : ExtensionEvaluator) (context : EvaluationContext) (q : Query) :
    Evaluation QueryOutcome := do
  let context := context.forQuery q
  let q ← ev.inlineWith context q
  match ← context.evaluateQuery q with
  | .solutions xs rows => do
    pure (.solutions xs (← collectItems context Skolem.decodeSolution rows))
  | .boolean b => pure (.boolean b)
  | .graph triples => do pure (.graph (← collectItems context Skolem.decodeTriple triples))

end ExtensionEvaluator

end SparqlBind
