import SparqlBind.Engine
import SparqlBind.Evaluation.Rows

/-!
# The evaluation engine

A query is simplified and then refused if it still calls a function that nobody evaluates here.
Solutions have one column for each variable of the pattern; a construction makes triples row by row
and yields each of them once; a description is made of the triples of the described terms.
-/

namespace SparqlBind

/-! ## Unsupported functions -/

mutual

/-- The functions called by their IRIs, in the order they are met. -/
def Expr.calls : Expr → List Function
  | .constant _ => []
  | .var _ => []
  | .binary _ a b => a.calls ++ b.calls
  | .unary _ a => a.calls
  | .oneOf a candidates => a.calls ++ Expr.allCalls candidates
  | .existence p => p.calls
  | .bound _ => []
  | .cond c a b => c.calls ++ a.calls ++ b.calls
  | .coalesce arguments => Expr.allCalls arguments
  | .call (.builtIn _) arguments => Expr.allCalls arguments
  | .call (.custom f) arguments =>
    if (Value.constructor? f).isSome && arguments.length == 1 then Expr.allCalls arguments
    else [.custom f]

def Expr.allCalls : List Expr → List Function
  | [] => []
  | e :: rest => e.calls ++ Expr.allCalls rest

def OrderKey.calls : List OrderKey → List Function
  | [] => []
  | .ascending e :: rest => e.calls ++ OrderKey.calls rest
  | .descending e :: rest => e.calls ++ OrderKey.calls rest

def Aggregate.calls : List Aggregate → List Function
  | [] => []
  | .countAll _ _ :: rest => Aggregate.calls rest
  | .apply _ _ _ e :: rest => e.calls ++ Aggregate.calls rest

def Pattern.calls : Pattern → List Function
  | .bgp _ => []
  | .path .. => []
  | .join l r => l.calls ++ r.calls
  | .leftJoin l r none => l.calls ++ r.calls
  | .leftJoin l r (some e) => l.calls ++ r.calls ++ e.calls
  | .lateral l r => l.calls ++ r.calls
  | .filter e p => p.calls ++ e.calls
  | .union l r => l.calls ++ r.calls
  | .graph _ p => p.calls
  | .extend p _ e => p.calls ++ e.calls
  | .minus l r => l.calls ++ r.calls
  | .values _ _ => []
  | .orderBy p keys => p.calls ++ OrderKey.calls keys
  | .project p _ => p.calls
  | .distinct p => p.calls
  | .reduced p => p.calls
  | .slice p _ _ => p.calls
  | .group p _ aggregates => p.calls ++ Aggregate.calls aggregates
  | .service .. => []

end

def Pattern.unsupported? (p : Pattern) : Option Iri :=
  p.calls.findSome? fun
    | .custom f => some f
    | .builtIn _ => none

/-! ## Answers -/

/-- The columns of the solutions: the variables that a row can bind, in the order they are met. -/
def Pattern.columns (graph : Option NamePattern) : Pattern → List Variable
  | .bgp [] => graphVariables graph
  | .bgp triples => triples.flatMap fun t =>
    [t.subject, t.predicate.toTermPattern, t.object].filterMap TermPattern.asVariable? ++
      graphVariables graph
  | .path s _ o => [s, o].filterMap TermPattern.asVariable? ++ graphVariables graph
  | .join l r => l.columns graph ++ r.columns graph
  | .leftJoin l r _ => l.columns graph ++ r.columns graph
  | .lateral l r => l.columns graph ++ r.columns graph
  | .filter _ p => p.columns graph
  | .union l r => l.columns graph ++ r.columns graph
  | .graph name p => p.columns (some name)
  | .extend p x _ => p.columns graph ++ [x]
  | .minus l r => l.columns graph ++ r.columns graph
  | .values xs _ => xs
  | .orderBy p _ => p.columns graph
  | .project _ xs => xs
  | .distinct p => p.columns graph
  | .reduced p => p.columns graph
  | .slice p _ _ => p.columns graph
  | .group _ keys aggregates => keys ++ aggregates.map Aggregate.target
  | .service _ p _ => p.mentions

def Binding.toSolution (columns : List Variable) (row : Binding) : Solution :=
  ⟨columns.map fun x => (x, row.get? x)⟩

namespace Construction

/-- The term of a template on a row. Its blank nodes are new for every row. -/
def term? (label : String → String) (row : Binding) : TermPattern → Option Term
  | .term (.blank l) => some (.blank (label l))
  | .term t => some t.canonical
  | .var x => row.get? x

def triple? (label : String → String) (row : Binding) (t : TriplePattern) : Option Triple := do
  let s ← Resource.ofTerm? (← term? label row t.subject)
  match ← term? label row t.predicate.toTermPattern with
  | .iri p => some ⟨s, p, ← term? label row t.object⟩
  | _ => none

/-- The new triples of a row, the last one first, and all triples so far. -/
def newTriples (seen : List Triple) (triples : List Triple) : List Triple × List Triple :=
  triples.foldl (fun (new, seen) t => if seen.contains t then (new, seen) else (t :: new, t :: seen))
    ([], seen)

def rowTriples (chance : Chance) (index : Nat) (template : List TriplePattern) (row : Binding) :
    List Triple :=
  let label (l : String) : String := Chance.label ⟨chance.seed ++ toString index ++ "_:" ++ l⟩
  template.filterMap (triple? label row)

/-- The triples of the rows, of which the first has the given number. -/
def triples (chance : Chance) (template : List TriplePattern) :
    Nat → List Triple → Rows → List (Except EngineError Triple)
  | _, _, [] => []
  | index, seen, .error e :: rest => .error e :: triples chance template (index + 1) seen rest
  | index, seen, .ok row :: rest =>
    let (new, seen) := newTriples seen (rowTriples chance index template row)
    new.map .ok ++ triples chance template (index + 1) seen rest

end Construction

/-- The triples of the default graph that describe the terms of the rows. -/
def describe (d : Dataset) (columns : List Variable) (rows : Rows) : List (Except EngineError Triple) :=
  rows.flatMap fun
    | .ok row => ((columns.filterMap row.get?).flatMap fun t =>
      d.default.filter fun x => x.subject.toTerm = t).map .ok
    | .error e => [.error e]

/-- The engine with a moment for `NOW` and a seed for all that is random. -/
def Engine.standard (now : Timestamp) (seed : String) : Engine where
  answer store q := do
    let p := q.pattern.simplify .empty none
    match p.unsupported? with
    | some f => throw (.unsupportedFunction f)
    | none =>
      let s : Surroundings := ⟨.ofStore store q.dataset, ⟨q.base, now, ⟨seed⟩⟩⟩
      let rows := p.rows s none .empty
      let columns := unionVariables [] (p.columns none)
      match q.form with
      | .select => pure (.solutions columns (rows.map (·.map (·.toSolution columns))))
      | .ask =>
        match rows with
        | [] => pure (.boolean false)
        | .ok _ :: _ => pure (.boolean true)
        | .error e :: _ => throw e
      | .construct template => pure (.graph (Construction.triples ⟨seed⟩ template 0 [] rows))
      | .describe => pure (.graph (describe s.dataset columns rows))

end SparqlBind
