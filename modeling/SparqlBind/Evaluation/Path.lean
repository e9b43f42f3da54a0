import SparqlBind.Evaluation.Dataset

/-!
# Property paths

The pairs of terms that a path connects in a graph. Sequences and alternatives count the ways there
are; repetitions only tell whether there is one.
-/

namespace SparqlBind.PropertyPath

/-- The subjects and objects of a graph. -/
def nodes (triples : List Triple) : List Term :=
  (triples.flatMap fun t => [t.subject.toTerm, t.object]).eraseDups

/-- Everything reached from `todo` by repeated steps; `fuel` bounds their number. -/
def closure (next : Term → List Term) : Nat → List Term → List Term → List Term
  | 0, seen, _ => seen
  | fuel + 1, seen, todo =>
    let found := ((todo.flatMap next).eraseDups).filter (!seen.contains ·)
    if found.isEmpty then seen else closure next fuel (seen ++ found) found

def reachable (triples : List Triple) (next : Term → List Term) (start : List Term) : List Term :=
  let start := start.eraseDups
  closure next ((nodes triples).length + 1) start start

/-- The ends of the paths that start at a term, or the starts of those that end there. -/
def ends (triples : List Triple) : PropertyPath → Bool → Term → List Term
  | iri i, true, t => (triples.filter fun x => x.subject.toTerm = t && x.predicate = i).map (·.object)
  | iri i, false, t =>
    (triples.filter fun x => x.object = t && x.predicate = i).map (·.subject.toTerm)
  | inverse p, forward, t => p.ends triples (!forward) t
  | sequence p q, true, t => (p.ends triples true t).flatMap (q.ends triples true)
  | sequence p q, false, t => (q.ends triples false t).flatMap (p.ends triples false)
  | alternative p q, forward, t => p.ends triples forward t ++ q.ends triples forward t
  | zeroOrMore p, forward, t => reachable triples (p.ends triples forward) [t]
  | oneOrMore p, forward, t =>
    reachable triples (p.ends triples forward) (p.ends triples forward t)
  | zeroOrOne p, forward, t => (t :: p.ends triples forward t).eraseDups
  | negated is, true, t =>
    (triples.filter fun x => x.subject.toTerm = t && !is.contains x.predicate).map (·.object)
  | negated is, false, t =>
    (triples.filter fun x => x.object = t && !is.contains x.predicate).map (·.subject.toTerm)

/-- All pairs that a path connects. -/
def pairs (triples : List Triple) : PropertyPath → List (Term × Term)
  | iri i => (triples.filter (·.predicate = i)).map fun x => (x.subject.toTerm, x.object)
  | inverse p => (p.pairs triples).map fun e => (e.2, e.1)
  | sequence p q => (p.pairs triples).flatMap fun e => (q.ends triples true e.2).map (e.1, ·)
  | alternative p q => p.pairs triples ++ q.pairs triples
  | zeroOrMore p =>
    (nodes triples).flatMap fun t => ((zeroOrMore p).ends triples true t).map (t, ·)
  | oneOrMore p => (nodes triples).flatMap fun t => ((oneOrMore p).ends triples true t).map (t, ·)
  | zeroOrOne p => ((nodes triples).map (fun t => (t, t)) ++ p.pairs triples).eraseDups
  | negated is =>
    (triples.filter (!is.contains ·.predicate)).map fun x => (x.subject.toTerm, x.object)

/-- The rows that a path between two patterns adds to a row. When both ends are known it matters
only whether the path connects them. -/
def unify (triples : List Triple) (subject object : TermPattern) (p : PropertyPath) (row : Binding) :
    List Binding :=
  match subject.value? row, object.value? row with
  | some s, some o => if (p.ends triples true s).contains o then [row] else []
  | some s, none => (p.ends triples true s).filterMap fun o => object.unify? o row
  | none, some o => (p.ends triples false o).filterMap fun s => subject.unify? s row
  | none, none => (p.pairs triples).filterMap fun e => do
    object.unify? e.2 (← subject.unify? e.1 row)

end SparqlBind.PropertyPath

namespace SparqlBind.Dataset

def matchPath (d : Dataset) (graph : Option NamePattern) (subject : TermPattern) (p : PropertyPath)
    (object : TermPattern) (row : Binding) : List Binding :=
  (d.graphs row graph).flatMap fun g => p.unify g.2 subject object g.1

end SparqlBind.Dataset
