import SparqlBind.Extension.Registry
import SparqlBind.Extension.Join

/-!
# Inlining extension functions

Each `BIND` that calls an extension function is evaluated and replaced by the table of its results.
Operators above an evaluated table are evaluated too, so that blank nodes of the store are compared
with each other only. A built-in `BIND` is checked: an error on any solution below it fails the
query. What stands under `SERVICE`, `LATERAL` or in an expression is left alone.
-/

namespace SparqlBind

/-- What a row of a `BIND` goes through: a registered function, or an expression of the engine. -/
inductive ExtendStep
  | function (f : ExtensionFunction)
  | builtIn (e : Expr)

namespace ExtendStep

def ofNode (registry : Registry) (node : ExtendNode) : Evaluation ExtendStep :=
  match node.expression with
  | .functionCall f _ =>
    match registry.lookup f with
    | some f => pure (function f)
    | none => throw (.unknownFunction f)
  | .builtIn e => pure (builtIn e)

/-- Extends the state by one row. A built-in expression does not see the target of its `BIND`. -/
def apply (step : ExtendStep) (state : ExtendState) (b : Binding) : Evaluation ExtendState :=
  match step with
  | function f => f.apply state b
  | builtIn e => do
    let target := state.node.target
    match ← state.context.evaluateExpression e (b.forget target) with
    | some value => pure (state.push (b.set target value))
    | none => throw (.expression target)

/-- Extends the state row by row; the deadline is checked before each of them. -/
def run (step : ExtendStep) : ExtendState → List (Except EvaluationError Binding) →
    Evaluation ExtendState
  | state, [] => pure state
  | state, row :: rest => do
    state.context.checkDeadline
    match row with
    | .error e => throw e
    | .ok b => step.run (← step.apply state b) rest

end ExtendStep

/-- A pattern in which the functions are inlined. -/
inductive Inlined
  /-- A pattern left to the engine; it holds no evaluated table. -/
  | pattern (p : Pattern)
  | solutions (t : Table)

namespace Inlined

def toPattern : Inlined → Pattern
  | pattern p => p
  | solutions t => t.toPattern

def inGraph (graph : Option NamePattern) (p : Pattern) : Pattern :=
  match graph with
  | some name => .graph name p
  | none => p

/-- The solutions, evaluated in the graph if they are not yet evaluated. -/
def evaluate (context : EvaluationContext) (graph : Option NamePattern) : Inlined → Evaluation Table
  | solutions t => pure t
  | pattern p => do
    let p := inGraph graph p
    pure ⟨p.inScope, ← context.rows p⟩

/-- Puts an operator on top, and evaluates it at once on evaluated solutions. -/
def apply (context : EvaluationContext) (operator : Pattern → Pattern) :
    Inlined → Evaluation Inlined
  | pattern p => pure (pattern (operator p))
  | solutions t => do
    let p := operator t.toPattern
    pure (solutions ⟨p.inScope, ← context.rows p⟩)

/-- Combines two parts: as patterns if both are, and else as tables. -/
def combine (context : EvaluationContext) (graph : Option NamePattern)
    (operator : Pattern → Pattern → Pattern) (tables : Table → Table → Evaluation Table) :
    Inlined → Inlined → Evaluation Inlined
  | pattern p, pattern q => pure (pattern (operator p q))
  | left, right => do
    let left ← left.evaluate context graph
    let right ← right.evaluate context graph
    pure (solutions (← tables left right))

/-- Keeps the column that says which graph an evaluated row comes from. -/
def keepGraph (graph : Option NamePattern) (xs : List Variable) : Inlined → List Variable
  | solutions _ =>
    match graph with
    | some (.var g) => addVariable xs g
    | _ => xs
  | pattern _ => xs

/-- A named part. Rows that were evaluated in another graph are repeated for each named graph. -/
def named (context : EvaluationContext) (name : NamePattern) : Inlined → Evaluation Inlined
  | pattern p => pure (pattern (.graph name p))
  | solutions t =>
    match name with
    | .var g =>
      if t.rows.all (·.contains g) then pure (solutions t)
      else do
        let graphs ← (pattern (.bgp [])).evaluate context (some name)
        pure (solutions ⟨unionVariables t.vars graphs.vars, Join.join t.rows graphs.rows⟩)
    | .iri _ => pure (solutions t)

/-- A built-in `BIND` on top. An expression that fails leaves its target unbound, which is an error
unless the expression only copies a variable. -/
def extendBuiltIn (context : EvaluationContext) (graph : Option NamePattern) (target : Variable)
    (e : Expr) : Inlined → Evaluation Inlined
  | pattern p => do
    let extended := Pattern.extend p target e
    if e.isVar then pure (pattern extended)
    else if ← context.ask (.filter (.not (.bound target)) (inGraph graph extended)) then
      throw (.expression target)
    else pure (pattern extended)
  | solutions t => do
    let p := Pattern.extend t.toPattern target e
    let rows ← context.rows p
    if !e.isVar && !rows.all (·.contains target) then throw (.expression target)
    else pure (solutions ⟨p.inScope, rows⟩)

end Inlined

/-- The evaluation of `BIND` with the functions of a registry. -/
structure ExtensionEvaluator where
  registry : Registry

namespace ExtensionEvaluator

def extendSolutions (ev : ExtensionEvaluator) (context : EvaluationContext) (node : ExtendNode)
    (rows : List (Except EvaluationError Binding)) : Evaluation (List Binding) := do
  let step ← ExtendStep.ofNode ev.registry node
  let state ← step.run (.start context node) rows
  pure state.results.toList

/-- Evaluates a `BIND` whose child is left to the engine, in the order of the child's solutions. -/
def evaluateExtend (ev : ExtensionEvaluator) (context : EvaluationContext) :
    AlgebraNode → Evaluation (List Binding)
  | .extend node => do ev.extendSolutions context node (← context.solutions node.inner)
  | .other p => throw (.notImplemented (AlgebraNode.patternName p))

/-- Evaluates a `BIND` that calls a function on its inlined child. -/
def callFunction (ev : ExtensionEvaluator) (context : EvaluationContext)
    (graph : Option NamePattern) (node : ExtendNode) (inner : Inlined) : Evaluation Inlined := do
  let t ← inner.evaluate context graph
  let rows ← ev.extendSolutions context node (t.rows.map .ok)
  pure (.solutions
    ⟨unionVariables (addVariable t.vars node.target) (rows.flatMap Binding.vars), rows⟩)

/-- Inlines the functions of a pattern that stands in the given graph. -/
def inlinePattern (ev : ExtensionEvaluator) (context : EvaluationContext) :
    Option NamePattern → Pattern → Evaluation Inlined
  | graph, .extend p x e => do
    let inner ← ev.inlinePattern context graph p
    match BindExpression.ofExpr e with
    | .functionCall f arguments =>
      ev.callFunction context graph ⟨p, x, .functionCall f arguments⟩ inner
    | .builtIn e => inner.extendBuiltIn context graph x e
  | graph, .join l r => do
    let l ← ev.inlinePattern context graph l
    let r ← ev.inlinePattern context graph r
    Inlined.combine context graph .join (fun s t =>
      pure ⟨unionVariables s.vars t.vars, Join.join s.rows t.rows⟩) l r
  | graph, .leftJoin l r e => do
    let l ← ev.inlinePattern context graph l
    let r ← ev.inlinePattern context graph r
    Inlined.combine context graph (.leftJoin · · e) (fun s t => do
      pure ⟨unionVariables s.vars t.vars,
        ← Join.leftJoin context s.rows t.rows e⟩) l r
  | graph, .minus l r => do
    let l ← ev.inlinePattern context graph l
    let r ← ev.inlinePattern context graph r
    Inlined.combine context graph .minus (fun s t =>
      pure ⟨s.vars, Join.minus s.rows t.rows⟩) l r
  | graph, .union l r => do
    let l ← ev.inlinePattern context graph l
    let r ← ev.inlinePattern context graph r
    Inlined.combine context graph .union (fun s t =>
      pure ⟨unionVariables s.vars t.vars, s.rows ++ t.rows⟩) l r
  | _, .graph name p => do
    let inner ← ev.inlinePattern context (some name) p
    inner.named context name
  | graph, .filter e p => do
    let inner ← ev.inlinePattern context graph p
    inner.apply context (.filter e)
  | graph, .orderBy p keys => do
    let inner ← ev.inlinePattern context graph p
    inner.apply context (.orderBy · keys)
  | graph, .project p xs => do
    let inner ← ev.inlinePattern context graph p
    inner.apply context (.project · (inner.keepGraph graph xs))
  | graph, .distinct p => do
    let inner ← ev.inlinePattern context graph p
    inner.apply context .distinct
  | graph, .reduced p => do
    let inner ← ev.inlinePattern context graph p
    inner.apply context .reduced
  | graph, .slice p start length => do
    let inner ← ev.inlinePattern context graph p
    inner.apply context (.slice · start length)
  | graph, .group p keys aggregates => do
    let inner ← ev.inlinePattern context graph p
    inner.apply context (.group · (inner.keepGraph graph keys) aggregates)
  | _, .bgp triples => pure (.pattern (.bgp triples))
  | _, .path s p o => pure (.pattern (.path s p o))
  | _, .values xs rows => pure (.pattern (.values xs rows))
  | _, .lateral l r => pure (.pattern (.lateral l r))
  | _, .service name p silent => pure (.pattern (.service name p silent))

def inlineWith (ev : ExtensionEvaluator) (context : EvaluationContext) (q : Query) :
    Evaluation Query := do
  let inlined ← ev.inlinePattern context none q.pattern
  pure { q with pattern := inlined.toPattern }

/-- Inlines the functions of a query in its own dataset. -/
def inlineQuery (ev : ExtensionEvaluator) (context : EvaluationContext) (q : Query) :
    Evaluation Query :=
  ev.inlineWith (context.forQuery q) q

end ExtensionEvaluator

end SparqlBind
