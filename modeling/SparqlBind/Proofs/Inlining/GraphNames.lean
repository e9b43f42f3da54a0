import SparqlBind.Proofs.Inlining.Graphs
import SparqlBind.Proofs.Inlining.Origins

/-!
# What the graph variable is bound to

Evaluated rows under `GRAPH ?g` are joined with the names of the graphs only if one of them lacks
`?g`. So the variable is always bound, but a value that a part of the pattern gave it is checked to
be the name of a graph in the first case only.
-/

noncomputable section

open scoped Classical

namespace SparqlBind

variable {context : EvaluationContext} {graphs : List Term} {g : Variable}

namespace Inlined

theorem all_contains_iff {rows : List Binding} :
    rows.all (·.contains g) = true ↔ ∀ b ∈ rows, b.mapping g ≠ none := by
  rw [List.all_eq_true]
  refine forall₂_congr fun b _ => ?_
  rw [Binding.contains_iff_mem_vars, ← Binding.get?_ne_none_iff]
  rfl

/-- The rows are left alone when all of them bind the variable, and joined with the names else. -/
theorem yields_named_var {t : Table} {r : Inlined}
    (h : Evaluation.Yields ((solutions t).named context (.var g)) r) :
    ((∀ b ∈ t.rows, b.mapping g ≠ none) ∧ r = solutions t) ∨
      (∃ b ∈ t.rows, b.mapping g = none) ∧
      ∃ names, Evaluation.Yields (context.rows (.graph (.var g) (.bgp []))) names ∧
        r = solutions ⟨unionVariables t.vars (Pattern.graph (.var g) (.bgp [])).inScope,
          Join.join t.rows names⟩ := by
  unfold named at h
  dsimp only at h
  split at h
  · rename_i hall
    exact .inl ⟨all_contains_iff.mp hall, (Evaluation.yields_pure_iff.mp h).symm⟩
  · rename_i hsome
    rw [all_contains_iff] at hsome
    push Not at hsome
    obtain ⟨u, hu, h⟩ := Evaluation.yields_bind_iff.mp h
    obtain ⟨names, hnames, rfl⟩ := yields_evaluate_pattern_iff.mp hu
    exact .inr ⟨hsome, names, hnames, (Evaluation.yields_pure_iff.mp h).symm⟩

theorem rows_named_of_missing (hc : context.HasGraphs graphs) {t r : Table}
    (hd : DistinctVars t.rows) (hmissing : ∃ b ∈ t.rows, b.mapping g = none)
    (h : Evaluation.Yields ((solutions t).named context (.var g)) (.solutions r)) :
    Bag.ofRows r.rows = (Bag.ofRows t.rows).join (Bag.graphRows graphs g) := by
  rcases yields_named_var h with ⟨hall, _⟩ | ⟨_, names, hnames, hr⟩
  · obtain ⟨b, hb, hg⟩ := hmissing
    exact absurd hg (hall b hb)
  · obtain rfl := solutions.inj hr
    obtain ⟨hbag, hdistinct⟩ := hc.yields_names hnames
    exact (Join.ofRows_join hd hdistinct).trans (by rw [hbag])

theorem named_eq_of_bound {t r : Table} (hbound : ∀ b ∈ t.rows, b.mapping g ≠ none)
    (h : Evaluation.Yields ((solutions t).named context (.var g)) (.solutions r)) : r = t := by
  rcases yields_named_var h with ⟨_, hr⟩ | ⟨⟨b, hb, hg⟩, _⟩
  · exact solutions.inj hr
  · exact absurd hg (hbound b hb)

theorem exists_named (hc : context.HasGraphs graphs) (hd : context.deadline = none) (t : Table) :
    ∃ r, (solutions t).named context (.var g) = pure (solutions r) := by
  obtain ⟨xs, names, hanswer, _⟩ := hc.names g
  have hnames := EvaluationContext.rows_of_answer hanswer
  rw [EvaluationContext.settled_checkDeadline hd, pure_bind] at hnames
  unfold named
  dsimp only
  split
  · exact ⟨t, rfl⟩
  · simp only [evaluate, inGraph, hnames, pure_bind]
    exact ⟨_, rfl⟩

/-- Rows that name graphs only, or nothing, are split by graph. -/
theorem rows_named (hc : context.HasGraphs graphs) {t r : Table} (hd : DistinctVars t.rows)
    (hnamed : t.NamesGraphs graphs g)
    (h : Evaluation.Yields ((solutions t).named context (.var g)) (.solutions r)) :
    Bag.ofRows r.rows = (Bag.ofRows t.rows).join (Bag.graphRows graphs g) := by
  by_cases hmissing : ∃ b ∈ t.rows, b.mapping g = none
  · exact rows_named_of_missing hc hd hmissing h
  · push Not at hmissing
    obtain rfl := named_eq_of_bound hmissing h
    refine (Bag.join_graphRows_of_named hc.nodup (Bag.forall_mem_ofRows.mpr fun b hb => ?_)).symm
    obtain ⟨i, hi⟩ := Option.ne_none_iff_exists'.mp (hmissing b hb)
    exact ⟨i, hnamed b hb i hi, hi⟩

end Inlined

namespace ExtensionEvaluator

variable {functions : ScalarFunctions}

/-- The variable is bound in every row. It names a graph in all of them just when some row `P` was
evaluated to lacks it or all these rows name one, and so whenever nothing in `P` sets it. -/
theorem inlinePattern_names_graphs (hc : context.HasGraphs graphs) {outer : Option NamePattern}
    {p : Pattern} {r : Table}
    (h : Evaluation.Yields
      ((ExtensionEvaluator.mk (.ofScalars functions)).inlinePattern context outer
        (.graph (.var g) p)) (.solutions r)) :
    ∃ t : Table,
      Evaluation.Yields
        ((ExtensionEvaluator.mk (.ofScalars functions)).inlinePattern context (some (.var g)) p)
        (.solutions t) ∧
      (∀ b ∈ r.rows, b.mapping g ≠ none) ∧
      ((∃ b ∈ t.rows, b.mapping g = none) →
        Bag.ofRows r.rows = (Bag.ofRows t.rows).join (Bag.graphRows graphs g)) ∧
      ((∀ b ∈ t.rows, b.mapping g ≠ none) → r = t) ∧
      ((∀ b ∈ r.rows, ∃ i ∈ graphs, b.mapping g = some i) ↔
        (∃ b ∈ t.rows, b.mapping g = none) ∨ ∀ b ∈ t.rows, ∃ i ∈ graphs, b.mapping g = some i) ∧
      (context.Traces graphs → p.reserves g true = true →
        ∀ b ∈ r.rows, ∃ i ∈ graphs, b.mapping g = some i) := by
  obtain ⟨i, hi, hnamed⟩ := Evaluation.yields_bind_iff.mp h
  obtain ⟨t, rfl⟩ : ∃ t, i = .solutions t := by
    cases i with
    | pattern q => cases Evaluation.yields_pure_iff.mp hnamed
    | solutions t => exact ⟨t, rfl⟩
  have hdistinct : DistinctVars t.rows := invariant_distinctVars.inlined hi
  have hmissing : (∃ b ∈ t.rows, b.mapping g = none) →
      Bag.ofRows r.rows = (Bag.ofRows t.rows).join (Bag.graphRows graphs g) := fun hm =>
    Inlined.rows_named_of_missing hc hdistinct hm hnamed
  have hbound : (∀ b ∈ t.rows, b.mapping g ≠ none) → r = t := fun hb =>
    Inlined.named_eq_of_bound hb hnamed
  have hnames : (∃ b ∈ t.rows, b.mapping g = none) →
      ∀ b ∈ r.rows, ∃ i ∈ graphs, b.mapping g = some i := by
    intro hm
    rw [← Bag.forall_mem_ofRows (q := fun μ => ∃ i ∈ graphs, μ g = some i), hmissing hm]
    exact Bag.named_of_mem_join
  have hiff : (∀ b ∈ r.rows, ∃ i ∈ graphs, b.mapping g = some i) ↔
      (∃ b ∈ t.rows, b.mapping g = none) ∨ ∀ b ∈ t.rows, ∃ i ∈ graphs, b.mapping g = some i := by
    by_cases hm : ∃ b ∈ t.rows, b.mapping g = none
    · exact iff_of_true (hnames hm) (.inl hm)
    · push Not at hm
      obtain rfl := hbound hm
      refine (or_iff_right ?_).symm
      rintro ⟨b, hb, hg⟩
      exact hm b hb hg
  refine ⟨t, hi, ?_, hmissing, hbound, hiff, fun htraces hreserves => ?_⟩
  · by_cases hm : ∃ b ∈ t.rows, b.mapping g = none
    · intro b hb hg
      obtain ⟨i, _, hi⟩ := hnames hm b hb
      exact Option.some_ne_none i (hi.symm.trans hg)
    · push Not at hm
      obtain rfl := hbound hm
      exact hm
  · have hinside : p.reserves g (Pattern.standsIn g (some (.var g))) = true := by
      rwa [Pattern.standsIn, beq_self_eq_true]
    have hnamesGraphs : t.NamesGraphs graphs g := namesGraphs_inlinePattern htraces hinside hi
    refine hiff.mpr ?_
    by_cases hm : ∃ b ∈ t.rows, b.mapping g = none
    · exact .inl hm
    · push Not at hm
      refine .inr fun b hb => ?_
      obtain ⟨i, hi⟩ := Option.ne_none_iff_exists'.mp (hm b hb)
      exact ⟨i, hnamesGraphs b hb i hi, hi⟩

end ExtensionEvaluator

namespace Sample

def traced (quads : List Quad) (graphs : List Term) : EvaluationContext :=
  { stored quads with engine := (Engine.standard default "").tracing graphs }

theorem traces_traced {quads : List Quad} {graphs : List Term} (hnodup : graphs.Nodup)
    (hgraphs : ∀ t ∈ graphs, t.isReserved = false) : (traced quads graphs).Traces graphs :=
  Engine.traces_tracing rfl hnodup hgraphs

/-- The sample in a graph of its own, whatever graph it stands in. -/
def inFirst : Pattern := .graph (.iri first) (.extend names target shout)

/-- A row of the first graph, repeated for a graph. -/
def repeatedIn (i : Iri) : Binding :=
  ⟨[(subject, .blank "n"), (object, .literal (.plain "v")), (target, .literal (.plain "V!")),
    (graph, .iri i)]⟩

end Sample

open Sample in
theorem ExtensionEvaluator.inlinePattern_names_graphs_twice :
    evaluator.inlinePattern (traced twice [.iri first, .iri second]) none
      (.graph (.var graph) inFirst) =
      pure (.solutions
        ⟨[subject, object, target, graph], [repeatedIn first, repeatedIn second]⟩) ∧
    inFirst.reserves graph true = true ∧
    ∀ b ∈ [repeatedIn first, repeatedIn second],
      ∃ i ∈ [Term.iri first, Term.iri second], b.mapping graph = some i := by
  have hc : (traced twice [.iri first, .iri second]).Traces [.iri first, .iri second] :=
    traces_traced (by decide) (by decide)
  have hinlined : evaluator.inlinePattern (traced twice [.iri first, .iri second]) none
      (.graph (.var graph) inFirst) =
        pure (.solutions
          ⟨[subject, object, target, graph], [repeatedIn first, repeatedIn second]⟩) := rfl
  have hreserves : inFirst.reserves graph true = true := by decide
  obtain ⟨t, _, _, _, _, _, hnamed⟩ := inlinePattern_names_graphs hc.toHasGraphs
    (Evaluation.yields_of_eq_pure hinlined)
  exact ⟨hinlined, hreserves, hnamed hc hreserves⟩

open Sample in
/-- The target of the `BIND` is the graph variable, and the only graph has another name. -/
theorem ExtensionEvaluator.inlinePattern_names_no_graph :
    (stored [named (.iri second) "v" (some (.iri first))]).rows
      (.graph (.var graph) (.bgp [])) = pure [⟨[(graph, .iri first)]⟩] ∧
    evaluator.inlinePattern (stored [named (.iri second) "v" (some (.iri first))]) none
      (.graph (.var graph) (.extend (.bgp []) graph (concatText "x"))) =
      pure (.solutions ⟨[graph], [⟨[(graph, .literal (.plain "x"))]⟩]⟩) ∧
    ¬ ∀ b ∈ [Binding.mk [(graph, .literal (.plain "x"))]],
      ∃ i ∈ [Term.iri first], b.mapping graph = some i := by
  refine ⟨rfl, rfl, fun h => ?_⟩
  obtain ⟨i, hi, hx⟩ := h _ List.mem_cons_self
  obtain rfl := List.mem_singleton.mp hi
  cases hx

end SparqlBind

end
