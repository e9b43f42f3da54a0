import SparqlBind.Engine
import SparqlBind.Extension.Table

/-!
# Evaluation contexts

What every step of an evaluation needs: the engine and the store, the dataset and the base IRI of
the query, and the deadline. Before a query is handed to the engine the clock is compared with the
deadline; without a deadline the clock is never read.
-/

namespace SparqlBind

abbrev Evaluation := ExceptT EvaluationError Timed

structure Deadline where
  instant : Instant
  limit : Duration

structure EvaluationContext where
  engine : Engine
  store : Store
  dataset : Option DatasetClause
  base : Option Iri
  deadline : Option Deadline

namespace EvaluationContext

def ofStore (engine : Engine) (store : Store) : EvaluationContext := ⟨engine, store, none, none, none⟩

/-- The context whose deadline is `limit` after `now`, unless there is no such instant. -/
def withTimeout? (c : EvaluationContext) (now : Instant) (limit : Duration) :
    Option EvaluationContext :=
  (now.add? limit).map fun instant => { c with deadline := some ⟨instant, limit⟩ }

/-- The same context with the dataset and base IRI of a query. -/
def forQuery (c : EvaluationContext) (q : Query) : EvaluationContext :=
  { c with dataset := q.dataset, base := q.base }

def checkDeadline (c : EvaluationContext) : Evaluation Unit :=
  match c.deadline with
  | none => pure ()
  | some d => do
    let now ← (Timed.now : Timed Instant)
    if d.instant.le now then throw (.timeout d.limit) else pure ()

def liftEngine {α : Type} : Except EngineError α → Evaluation α
  | .ok a => pure a
  | .error e => throw (.engine e)

def evaluateQuery (c : EvaluationContext) (q : Query) : Evaluation EngineAnswer := do
  c.checkDeadline
  liftEngine (c.engine.answer c.store q)

def query (c : EvaluationContext) (form : QueryForm) (p : Pattern) : Query :=
  ⟨form, p, c.dataset, c.base⟩

def bindingOf : Except EngineError Solution → Except EvaluationError Binding
  | .ok s => .ok ((Binding.ofSolution s).mapTerms Skolem.decode)
  | .error e => .error (.engine e)

/-- The solutions of a pattern, in the order of the engine. -/
def solutions (c : EvaluationContext) (p : Pattern) :
    Evaluation (List (Except EvaluationError Binding)) := do
  match ← c.evaluateQuery (c.query .select p) with
  | .solutions _ rows => pure (rows.map bindingOf)
  | _ => throw (.notImplemented "non tabular subquery")

/-- All of the rows, or the first failure among them. -/
def collect {α : Type} : List (Except EvaluationError α) → Evaluation (List α)
  | [] => pure []
  | .error e :: _ => throw e
  | .ok a :: rest => do pure (a :: (← collect rest))

def rows (c : EvaluationContext) (p : Pattern) : Evaluation (List Binding) := do
  collect (← c.solutions p)

/-- Whether a pattern has a solution. -/
def ask (c : EvaluationContext) (p : Pattern) : Evaluation Bool := do
  match ← c.evaluateQuery (c.query .ask p) with
  | .boolean b => pure b
  | _ => throw (.notImplemented "non boolean subquery")

def valueVariable : Variable := ⟨"__sparext_value"⟩

/-- The pattern whose first solution holds the value of an expression on a binding. -/
def expressionPattern (e : Expr) (b : Binding) : Pattern :=
  .project (.extend (Table.toPattern ⟨b.vars, [b]⟩) valueVariable e) [valueVariable]

/-- The value of an expression on a binding, or `none` if it raises an error. -/
def evaluateExpression (c : EvaluationContext) (e : Expr) (b : Binding) :
    Evaluation (Option Term) := do
  match ← c.solutions (expressionPattern e b) with
  | [] => pure none
  | .error e :: _ => throw e
  | .ok first :: _ => pure (first.get? valueVariable)

end EvaluationContext

end SparqlBind
