import SparqlBind.Proofs.Inlining.Steps
import SparqlBind.Proofs.Pattern

/-!
# Invariants of the tables

Every table that arises while a pattern is inlined is either read from the engine or made from other
tables: by a join, an optional part, a difference, a union or the calls of a function. A property
that these steps preserve holds of the table that the pattern becomes, in whatever graph it stands.
-/

namespace SparqlBind

/-- The property holds of the tables read from the engine, and the operations on tables preserve
it. -/
structure ExtensionEvaluator.Invariant (ev : ExtensionEvaluator) (context : EvaluationContext)
    (Q : Table → Prop) : Prop where
  read : ∀ {p : Pattern} {rows : List Binding}, Evaluation.Yields (context.rows p) rows →
    Q ⟨p.inScope, rows⟩
  join : ∀ {s t : Table}, Q s → Q t →
    Q ⟨unionVariables s.vars t.vars, Join.join s.rows t.rows⟩
  leftJoin : ∀ {s t : Table} {e : Option Expr} {rows : List Binding}, Q s → Q t →
    Evaluation.Yields (Join.leftJoin context s.rows t.rows e) rows →
    Q ⟨unionVariables s.vars t.vars, rows⟩
  minus : ∀ {s t : Table}, Q s → Q t → Q ⟨s.vars, Join.minus s.rows t.rows⟩
  union : ∀ {s t : Table}, Q s → Q t → Q ⟨unionVariables s.vars t.vars, s.rows ++ t.rows⟩
  call : ∀ {t : Table} {p : Pattern} {x : Variable} {f : Iri} {arguments : List Expr}
    {rows : List Binding}, Q t →
    Evaluation.Yields
      (ev.extendSolutions context ⟨p, x, .functionCall f arguments⟩ (t.rows.map .ok)) rows →
    Q ⟨unionVariables (addVariable t.vars x) (rows.flatMap Binding.vars), rows⟩

namespace Inlined

/-- Nothing is asked of a pattern. -/
def Satisfies (Q : Table → Prop) : Inlined → Prop
  | pattern _ => True
  | solutions t => Q t

variable {ev : ExtensionEvaluator} {context : EvaluationContext} {Q : Table → Prop}
variable (hQ : ev.Invariant context Q) {graph : Option NamePattern} {i j r : Inlined}
include hQ

theorem Satisfies.evaluate {t : Table} (hi : i.Satisfies Q)
    (h : Evaluation.Yields (i.evaluate context graph) t) : Q t := by
  cases i with
  | solutions u => exact Evaluation.yields_pure_iff.mp h ▸ hi
  | pattern p =>
    obtain ⟨rows, hrows, rfl⟩ := yields_evaluate_pattern_iff.mp h
    exact hQ.read hrows

theorem Satisfies.apply {operator : Pattern → Pattern}
    (h : Evaluation.Yields (i.apply context operator) r) : r.Satisfies Q := by
  rcases yields_apply h with ⟨p, _, rfl⟩ | ⟨t, rows, _, hrows, rfl⟩
  · trivial
  · exact hQ.read hrows

theorem Satisfies.combine {operator : Pattern → Pattern → Pattern}
    {tables : Table → Table → Evaluation Table} (hi : i.Satisfies Q) (hj : j.Satisfies Q)
    (htables : ∀ {s t u : Table}, Q s → Q t → Evaluation.Yields (tables s t) u → Q u)
    (h : Evaluation.Yields (Inlined.combine context graph operator tables i j) r) :
    r.Satisfies Q := by
  rcases yields_combine h with ⟨p, q, _, _, rfl⟩ | ⟨_, s, t, u, hs, ht, hu, rfl⟩
  · trivial
  · exact htables (hi.evaluate hQ hs) (hj.evaluate hQ ht) hu

theorem Satisfies.named {name : NamePattern} (hi : i.Satisfies Q)
    (h : Evaluation.Yields (i.named context name) r) : r.Satisfies Q := by
  rcases yields_named h with ⟨p, _, rfl⟩ | ⟨t, rfl, rfl | ⟨graphs, hgraphs, rfl⟩⟩
  · trivial
  · exact hi
  · have hgraphs : Q graphs := Satisfies.evaluate (i := pattern (.bgp [])) hQ trivial hgraphs
    exact hQ.join hi hgraphs

theorem Satisfies.extendBuiltIn {x : Variable} {e : Expr}
    (h : Evaluation.Yields (i.extendBuiltIn context graph x e) r) : r.Satisfies Q := by
  rcases yields_extendBuiltIn h with ⟨p, _, rfl⟩ | ⟨t, rows, _, hrows, _, rfl⟩
  · trivial
  · exact hQ.read hrows

theorem Satisfies.callFunction {p : Pattern} {x : Variable} {f : Iri} {arguments : List Expr}
    (hi : i.Satisfies Q)
    (h : Evaluation.Yields (ev.callFunction context graph ⟨p, x, .functionCall f arguments⟩ i) r) :
    r.Satisfies Q := by
  obtain ⟨_, t, rows, ht, hrows, rfl⟩ := ExtensionEvaluator.yields_callFunction h
  exact hQ.call (hi.evaluate hQ ht) hrows

end Inlined

namespace ExtensionEvaluator

variable {ev : ExtensionEvaluator} {context : EvaluationContext} {Q : Table → Prop}

theorem Invariant.inlined (hQ : ev.Invariant context Q) {graph : Option NamePattern} {p : Pattern}
    {r : Inlined} (h : Evaluation.Yields (ev.inlinePattern context graph p) r) :
    r.Satisfies Q := by
  induction p generalizing graph r with
  | extend p x e ih =>
    rw [inlinePattern] at h
    obtain ⟨inner, hinner, h⟩ := Evaluation.yields_bind_iff.mp h
    cases he : BindExpression.ofExpr e with
    | functionCall f arguments =>
      simp only [he] at h
      exact (ih hinner).callFunction hQ h
    | builtIn e' =>
      simp only [he] at h
      exact Inlined.Satisfies.extendBuiltIn hQ h
  | join l r ihl ihr =>
    obtain ⟨i, hi, h⟩ := Evaluation.yields_bind_iff.mp h
    obtain ⟨j, hj, h⟩ := Evaluation.yields_bind_iff.mp h
    refine (ihl hi).combine hQ (ihr hj) ?_ h
    intro s t u hs ht hu
    exact Evaluation.yields_pure_iff.mp hu ▸ hQ.join hs ht
  | leftJoin l r e ihl ihr =>
    obtain ⟨i, hi, h⟩ := Evaluation.yields_bind_iff.mp h
    obtain ⟨j, hj, h⟩ := Evaluation.yields_bind_iff.mp h
    refine (ihl hi).combine hQ (ihr hj) ?_ h
    intro s t u hs ht hu
    obtain ⟨rows, hrows, hu⟩ := Evaluation.yields_bind_iff.mp hu
    exact Evaluation.yields_pure_iff.mp hu ▸ hQ.leftJoin hs ht hrows
  | minus l r ihl ihr =>
    obtain ⟨i, hi, h⟩ := Evaluation.yields_bind_iff.mp h
    obtain ⟨j, hj, h⟩ := Evaluation.yields_bind_iff.mp h
    refine (ihl hi).combine hQ (ihr hj) ?_ h
    intro s t u hs ht hu
    exact Evaluation.yields_pure_iff.mp hu ▸ hQ.minus hs ht
  | union l r ihl ihr =>
    obtain ⟨i, hi, h⟩ := Evaluation.yields_bind_iff.mp h
    obtain ⟨j, hj, h⟩ := Evaluation.yields_bind_iff.mp h
    refine (ihl hi).combine hQ (ihr hj) ?_ h
    intro s t u hs ht hu
    exact Evaluation.yields_pure_iff.mp hu ▸ hQ.union hs ht
  | graph name p ih =>
    obtain ⟨inner, hinner, h⟩ := Evaluation.yields_bind_iff.mp h
    exact (ih hinner).named hQ h
  -- the engine reads the rows of the part again, so nothing is needed of them
  | filter _ _ _ | orderBy _ _ _ | project _ _ _ | distinct _ _ | reduced _ _ | slice _ _ _ _
  | group _ _ _ _ =>
    obtain ⟨inner, _, h⟩ := Evaluation.yields_bind_iff.mp h
    exact Inlined.Satisfies.apply hQ h
  | bgp _ | path _ _ _ | values _ _ | lateral _ _ _ _ | service _ _ _ _ =>
    exact Evaluation.yields_pure_iff.mp h ▸ trivial

theorem Invariant.evaluated (hQ : ev.Invariant context Q) {graph : Option NamePattern}
    {p : Pattern} {i : Inlined} {t : Table}
    (hi : Evaluation.Yields (ev.inlinePattern context graph p) i)
    (ht : Evaluation.Yields (i.evaluate context graph) t) : Q t :=
  (hQ.inlined hi).evaluate hQ ht

end ExtensionEvaluator

end SparqlBind
