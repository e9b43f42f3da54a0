import SparqlBind.Proofs.Inlining.Functions
import SparqlBind.Proofs.Inlining.Simulation
import SparqlBind.Proofs.Semantics.Discretion

/-!
# Expressions over evaluated rows

A condition or a built-in `BIND` above a call is put to the engine as a query about a table. On each
row the expression has the value it has on the row with IRIs for its blank nodes, and a value that
stands for a blank node is read as one. On a row on which it is discreet that is its value on the row.
-/

noncomputable section

open scoped Classical

namespace SparqlBind

namespace ExtensionEvaluator

/-- Over evaluated rows of parts in the graph, expressions with known functions have the values that
the semantics gives them on the rows as a table holds them. -/
structure SeesTables (ev : ExtensionEvaluator) (context : EvaluationContext)
    (graph : Option NamePattern) (sem : Semantics) : Prop where
  filter : ∀ {p : Pattern} {t : Table} {e : Expr}, e.isKnown sem.known = true →
    p.extensionCalls ≠ [] → ev.evaluatePattern context graph p = pure t →
    (Bag.ofRows t.rows).Unreserved →
    ∃ u, ev.inlinePattern context graph (.filter e p) = pure (.solutions u) ∧
      Bag.ofRows u.rows = (Bag.ofRows t.rows).select fun μ => sem.holds e μ.presented
  leftJoin : ∀ {l r : Pattern} {s t : Table} {e : Expr}, e.isKnown sem.known = true →
    sem.Ignores Join.rowVariable e → l.extensionCalls ++ r.extensionCalls ≠ [] →
    ev.evaluatePattern context graph l = pure s → ev.evaluatePattern context graph r = pure t →
    ∃ u, ev.inlinePattern context graph (.leftJoin l r (some e)) = pure (.solutions u) ∧
      Bag.ofRows u.rows =
        (Bag.ofRows s.rows).leftJoin (fun μ => sem.holds e μ.presented) (Bag.ofRows t.rows)
  builtIn : ∀ {p : Pattern} {t : Table} {x : Variable} {e : Expr}, e.isKnown sem.known = true →
    BindExpression.ofExpr e = .builtIn e → p.extensionCalls ≠ [] →
    ev.evaluatePattern context graph p = pure t → (Bag.ofRows t.rows).Unreserved →
    (e.isVar = false → ∀ μ ∈ Bag.ofRows t.rows, μ x = none) →
    Evaluation.Agrees (ev.inlinePattern context graph (.extend p x e))
      (if e.isVar then
        some ((Bag.ofRows t.rows).extend x fun μ => (sem.value e μ.presented).map Skolem.decode)
      else (Bag.ofRows t.rows).extend? x fun μ => (sem.value e μ.presented).map Skolem.decode)
      fun i B => ∃ u, i = .solutions u ∧ Bag.ofRows u.rows = B

variable {context : EvaluationContext} {graph : Option NamePattern} {functions : ScalarFunctions}

theorem represents_of_evaluate (hengine : context.engine.Tabular) {p : Pattern} {t : Table}
    (h : (ExtensionEvaluator.mk (.ofScalars functions)).evaluatePattern context graph p = pure t) :
    t.Represents (Bag.ofRows t.rows) :=
  ⟨(invariant_covers hengine).of_evaluatePattern h, invariant_distinctVars.of_evaluatePattern h, rfl⟩

theorem seesTables_initial {sem : GraphSemantics} (hstarts : context.StartsIn sem)
    (hengine : context.engine.Tabular) (hd : context.deadline = none)
    (graph : Option NamePattern) :
    (ExtensionEvaluator.mk (.ofScalars functions)).SeesTables context graph sem.initial where
  filter {p t e} he hcalls hp hfree := by
    obtain ⟨u, hu, hrep⟩ :=
      (represents_of_evaluate hengine hp).filter_presented hd (hstarts e he) hfree
    refine ⟨u, ?_, hrep.rows⟩
    rw [inlinePattern, inlinePattern_eq_of_evaluatePattern hcalls hp, pure_bind, hu]
  leftJoin {l r s t e} he hignores hcalls hl hr := by
    have hevaluates : ∀ c ∈ some e, context.Evaluates sem.initial c := by
      rintro c ⟨⟩
      exact hstarts e he
    have hrow : ∀ c ∈ some e, sem.initial.Ignores Join.rowVariable c := by
      rintro c ⟨⟩
      exact hignores
    obtain ⟨rows, hrows, hrep⟩ := (represents_of_evaluate hengine hl).leftJoin_presented hd
      hevaluates hrow (represents_of_evaluate hengine hr)
    refine ⟨⟨unionVariables s.vars t.vars, rows⟩, ?_, hrep.rows⟩
    rw [inlinePattern, combine_eq_of_evaluatePattern hcalls hl hr, hrows, pure_bind, pure_bind]
  builtIn {p t x e} he hbuiltIn hcalls hp hfree hrows := by
    have hextend : Evaluation.Agrees ((Inlined.solutions t).extendBuiltIn context graph x e) _ _ :=
      (represents_of_evaluate hengine hp).extendBuiltIn_presented hd (hstarts e he) hfree hrows
    rw [inlinePattern, inlinePattern_eq_of_evaluatePattern hcalls hp, pure_bind]
    simp only [hbuiltIn]
    refine hextend.imp ?_
    rintro _ B ⟨u, rfl, hu⟩
    exact ⟨u, rfl, hu.rows⟩

end ExtensionEvaluator

end SparqlBind

end
