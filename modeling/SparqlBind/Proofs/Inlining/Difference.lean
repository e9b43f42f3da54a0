import SparqlBind.Proofs.Inlining.GraphNames

/-!
# Differences under a graph name

Under `GRAPH ?g` both sides of a `MINUS` are evaluated with `?g` in their rows. The difference in
memory counts it like any other variable, so that a row of the same graph removes every row it goes
together with, whether the two share anything else or not.
-/

noncomputable section

open scoped Classical

namespace SparqlBind

namespace ExtensionEvaluator

variable {context : EvaluationContext} {graphs : List Term} {g : Variable}
variable {functions : ScalarFunctions}

/-- A row is removed by every compatible row that shares a variable with it, `?g` included. That is
the difference of each graph apart just when no row is removed for the sake of `?g` alone. -/
theorem inlinePattern_graph_minus (hc : context.Traces graphs) (hd : context.deadline = none)
    {a b : Pattern} (ha : g ∉ a.vars)
    (hcalls : (Pattern.minus a b).extensionCalls ≠ []) {s t : Table}
    (hs : (ExtensionEvaluator.mk (.ofScalars functions)).evaluatePattern context
      (some (.var g)) a = pure s)
    (ht : (ExtensionEvaluator.mk (.ofScalars functions)).evaluatePattern context
      (some (.var g)) b = pure t) (outer : Option NamePattern) :
    ∃ r : Table,
      (ExtensionEvaluator.mk (.ofScalars functions)).inlinePattern context outer
        (.graph (.var g) (.minus a b)) = pure (.solutions r) ∧
      (Bag.ofRows r.rows = Bag.byGraph graphs g fun i => (Bag.ofRows s.rows).filter fun μ =>
        μ.CountsIn g i ∧ ¬ ∃ ν ∈ Bag.ofRows t.rows, μ.Compatible ν ∧ μ.Shares ν) ∧
      (Bag.ofRows r.rows = Bag.minusByGraph graphs g (Bag.ofRows s.rows) (Bag.ofRows t.rows) ↔
        ∀ i ∈ graphs, ∀ μ ∈ Bag.ofRows s.rows, μ.CountsIn g i →
          (∃ ν ∈ Bag.ofRows t.rows, μ.Compatible ν ∧ μ.Shares ν) →
          Bag.RemovedIn g (Bag.ofRows t.rows) i μ) ∧
      ((∀ μ ∈ Bag.ofRows s.rows, μ g ≠ none) → (∀ ν ∈ Bag.ofRows t.rows, ν g ≠ none) →
        Bag.ofRows r.rows = Bag.byGraph graphs g fun i => (Bag.ofRows s.rows).filter fun μ =>
          μ g = some i ∧ ¬ ∃ ν ∈ Bag.ofRows t.rows, ν g = some i ∧ μ.Compatible ν) := by
  have hleft : s.NamesGraphs graphs g := by
    obtain ⟨i, hi, hs⟩ := exists_of_evaluatePattern hs
    have hreserves := Pattern.reserves_of_notMem ha (Pattern.standsIn g (some (.var g)))
    exact Inlined.namesGraphs_evaluate hc hreserves (Evaluation.yields_of_eq_pure hi)
      (namesGraphs_inlinePattern hc hreserves (Evaluation.yields_of_eq_pure hi))
      (Evaluation.yields_of_eq_pure hs)
  have hdistinct : DistinctVars s.rows := invariant_distinctVars.of_evaluatePattern hs
  have hminus : (ExtensionEvaluator.mk (.ofScalars functions)).inlinePattern context
      (some (.var g)) (.minus a b) =
        pure (.solutions ⟨s.vars, Join.minus s.rows t.rows⟩) := by
    rw [inlinePattern, combine_eq_of_evaluatePattern hcalls hs ht, pure_bind]
  obtain ⟨r, hr⟩ := Inlined.exists_named hc.toHasGraphs hd ⟨s.vars, Join.minus s.rows t.rows⟩
  have hrows : Bag.ofRows r.rows =
      ((Bag.ofRows s.rows).minus (Bag.ofRows t.rows)).join (Bag.graphRows graphs g) := by
    rw [← Join.ofRows_minus hdistinct]
    exact Inlined.rows_named hc.toHasGraphs (Join.distinctVars_minus hdistinct)
      (fun b hb => hleft b (List.mem_filter.mp hb).1) (Evaluation.yields_of_eq_pure hr)
  refine ⟨r, ?_, ?_, ?_, fun hsNamed htNamed => ?_⟩
  · rw [inlinePattern, hminus, pure_bind, hr]
  · rw [hrows, Bag.minus_join_graphRows]
  · rw [hrows]
    exact Bag.minus_join_graphRows_eq_iff
  · rw [hrows]
    exact Bag.minus_join_graphRows_of_named hsNamed htNamed

end ExtensionEvaluator

namespace Sample

/-- A name in two graphs, and a second one in the first of them. -/
def marked : List Quad :=
  [named (.iri first) "v" (some (.iri first)), named (.iri first) "v" (some (.iri second)),
    named (.iri first) "w" (some (.iri first))]

/-- What has the second name. -/
def mark : Pattern := .bgp [⟨.var subject, .iri predicate, .term (.literal (.plain "w"))⟩]

def loudName (name shouted : String) (graphName : Iri) : Binding :=
  ⟨[(subject, .iri first), (object, .literal (.plain name)), (graph, .iri graphName),
    (target, .literal (.plain shouted))]⟩

def loudNames : List Binding :=
  [loudName "v" "V!" first, loudName "w" "W!" first, loudName "v" "V!" second]

def marks : List Binding := [⟨[(subject, .iri first), (graph, .iri first)]⟩]

/-- Names of something else. -/
def others : Pattern := .bgp [⟨.var ⟨"t"⟩, .iri predicate, .var ⟨"p"⟩⟩]

end Sample

open Sample in
theorem ExtensionEvaluator.inlinePattern_graph_minus_marked :
    evaluator.inlinePattern (traced marked [.iri first, .iri second]) none
      (.graph (.var graph) (.minus (.extend names target shout) mark)) =
      pure (.solutions ⟨[graph, subject, object, target], [loudName "v" "V!" second]⟩) ∧
    Bag.ofRows [loudName "v" "V!" second] =
      Bag.minusByGraph [.iri first, .iri second] graph (Bag.ofRows loudNames)
        (Bag.ofRows marks) := by
  have hc : (traced marked [.iri first, .iri second]).Traces [.iri first, .iri second] :=
    traces_traced (by decide) (by decide)
  have hleft : evaluator.evaluatePattern (traced marked [.iri first, .iri second])
      (some (.var graph)) (.extend names target shout) =
        pure ⟨[graph, subject, object, target], loudNames⟩ := rfl
  have hright : evaluator.evaluatePattern (traced marked [.iri first, .iri second])
      (some (.var graph)) mark = pure ⟨[graph, subject], marks⟩ := rfl
  have hinlined : evaluator.inlinePattern (traced marked [.iri first, .iri second]) none
      (.graph (.var graph) (.minus (.extend names target shout) mark)) =
        pure (.solutions ⟨[graph, subject, object, target], [loudName "v" "V!" second]⟩) := rfl
  obtain ⟨r, hr, _, hiff, _⟩ := inlinePattern_graph_minus hc rfl (by decide) (by decide) hleft
    hright none
  obtain rfl := Inlined.solutions.inj (Evaluation.pure_injective (hinlined.symm.trans hr))
  have hbound : ∀ μ ∈ Bag.ofRows loudNames, μ graph ≠ none ∧ μ subject ≠ none :=
    Bag.forall_mem_ofRows.mpr (by decide)
  have hmarked : ∀ ν ∈ Bag.ofRows marks, ν subject ≠ none := Bag.forall_mem_ofRows.mpr (by decide)
  refine ⟨hinlined, hiff.mpr ?_⟩
  rintro i _ μ hμ hcounts ⟨ν, hν, hcompatible, _⟩
  have hgraph : μ graph = some i := hcounts.resolve_left (hbound μ hμ).1
  exact ⟨ν, hν, hcompatible.countsIn hgraph, hcompatible, subject, by decide, (hbound μ hμ).2,
    hmarked ν hν⟩

open Sample in
/-- The sides have no variable in common, and both rows of the left side are removed. -/
theorem ExtensionEvaluator.inlinePattern_graph_minus_apart :
    (∀ x ∈ (Pattern.extend names target shout).vars, x ∉ others.vars) ∧
    evaluator.evaluatePattern (stored twice) (some (.var graph)) (.extend names target shout) =
      pure ⟨[graph, subject, object, target], [shoutedIn first, shoutedIn second]⟩ ∧
    evaluator.inlinePattern (stored twice) none
      (.graph (.var graph) (.minus (.extend names target shout) others)) =
      pure (.solutions ⟨[graph, subject, object, target], []⟩) :=
  ⟨by decide, rfl, rfl⟩

end SparqlBind

end
