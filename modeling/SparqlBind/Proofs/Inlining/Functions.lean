import SparqlBind.Proofs.Inlining.Invariants
import SparqlBind.Proofs.Inlining.Memory
import SparqlBind.Proofs.Inlining.Shape
import SparqlBind.Proofs.Scalars

/-!
# Inlining with scalar functions

What holds of every registry of scalar functions, whatever the engine answers: a call sets the
target in each row and leaves the rest alone, and no row has a variable twice. A pattern is evaluated
to a table by inlining it and leaving the rest to the engine.
-/

namespace SparqlBind

variable {context : EvaluationContext}

/-- A scalar function pushes the row it is called on, with the target set. -/
theorem ScalarFunction.yields_apply {f : ScalarFunction} {state after : ExtendState} {b : Binding}
    (h : Evaluation.Yields (f.toExtension.apply state b) after) :
    ∃ t, after = state.push (b.set state.node.target t) := by
  obtain ⟨_, _, h⟩ := Evaluation.yields_bind_iff.mp h
  obtain ⟨t, _, h⟩ := Evaluation.yields_bind_iff.mp h
  exact ⟨t, (Evaluation.yields_pure_iff.mp h).symm⟩

theorem ScalarFunction.yields_run {f : ScalarFunction} {rows : List Binding}
    {state after : ExtendState}
    (h : Evaluation.Yields ((ExtendStep.function f.toExtension).run state (rows.map .ok)) after) :
    ∀ c ∈ after.results.toList, c ∈ state.results.toList ∨
      ∃ b ∈ rows, ∃ t, c = b.set state.node.target t := by
  induction rows generalizing state with
  | nil =>
    intro c hc
    exact .inl (Evaluation.yields_pure_iff.mp h ▸ hc)
  | cons b rest ih =>
    obtain ⟨_, _, h⟩ := Evaluation.yields_bind_iff.mp h
    obtain ⟨next, hnext, h⟩ := Evaluation.yields_bind_iff.mp h
    obtain ⟨t, rfl⟩ := yields_apply hnext
    intro c hc
    rcases ih h c hc with hc | ⟨b', hb', u, rfl⟩
    · rw [ExtendState.push, Array.toList_push, List.mem_append, List.mem_singleton] at hc
      exact hc.imp id fun hc => ⟨b, List.mem_cons_self, t, hc⟩
    · exact .inr ⟨b', List.mem_cons_of_mem _ hb', u, rfl⟩

namespace ExtensionEvaluator

variable {functions : ScalarFunctions}

theorem yields_extendSolutions {p : Pattern} {x : Variable} {f : Iri} {arguments : List Expr}
    {rows extended : List Binding}
    (h : Evaluation.Yields ((ExtensionEvaluator.mk (.ofScalars functions)).extendSolutions context
      ⟨p, x, .functionCall f arguments⟩ (rows.map .ok)) extended) :
    ∀ c ∈ extended, ∃ b ∈ rows, ∃ t, c = b.set x t := by
  obtain ⟨step, hstep, h⟩ := Evaluation.yields_bind_iff.mp h
  obtain ⟨state, hstate, h⟩ := Evaluation.yields_bind_iff.mp h
  obtain rfl := Evaluation.yields_pure_iff.mp h
  simp only [ExtendStep.ofNode, Registry.lookup_ofScalars] at hstep
  cases hf : functions.lookup f.text with
  | none =>
    rw [hf] at hstep
    exact absurd hstep Evaluation.not_yields_throw
  | some g =>
    rw [hf] at hstep
    obtain rfl := Evaluation.yields_pure_iff.mp hstep
    intro c hc
    refine (ScalarFunction.yields_run hstate c hc).resolve_left ?_
    exact List.not_mem_nil

/-- No row of a table has a variable twice. -/
theorem invariant_distinctVars :
    (ExtensionEvaluator.mk (.ofScalars functions)).Invariant context
      fun t => DistinctVars t.rows where
  read h b hb := by
    obtain ⟨_, _, _, hitems⟩ := EvaluationContext.answer_of_yields_rows h
    obtain ⟨s, _, rfl⟩ := hitems b hb
    exact EvaluationContext.nodup_bindingOfSolution s
  join hs _ := Join.distinctVars_join hs
  leftJoin hs _ h b hb := by
    rcases Join.mem_leftJoin h b hb with hb | ⟨l, hl, r, _, rfl⟩
    · exact hs b hb
    · exact Binding.nodup_merge (hs l hl)
  minus hs _ := Join.distinctVars_minus hs
  union hs ht b hb := (List.mem_append.mp hb).elim (hs b) (ht b)
  call ht h c hc := by
    obtain ⟨b, hb, t, rfl⟩ := yields_extendSolutions h c hc
    exact Binding.nodup_set (ht b hb)

/-- The table of a pattern in a graph, whether the engine evaluates it or not. -/
def evaluatePattern (ev : ExtensionEvaluator) (context : EvaluationContext)
    (graph : Option NamePattern) (p : Pattern) : Evaluation Table := do
  let inlined ← ev.inlinePattern context graph p
  inlined.evaluate context graph

section Tables
variable {ev : ExtensionEvaluator} {graph : Option NamePattern} {p q : Pattern} {s t : Table}

theorem exists_of_evaluatePattern (h : ev.evaluatePattern context graph p = pure t) :
    ∃ i, ev.inlinePattern context graph p = pure i ∧ i.evaluate context graph = pure t :=
  Evaluation.eq_pure_of_bind_eq_pure h

theorem inlinePattern_eq_of_evaluatePattern (hcalls : p.extensionCalls ≠ [])
    (h : ev.evaluatePattern context graph p = pure t) :
    ev.inlinePattern context graph p = pure (.solutions t) := by
  obtain ⟨i, hi, ht⟩ := exists_of_evaluatePattern h
  have hfaithful := faithful_inlinePattern (Evaluation.yields_of_eq_pure hi)
  -- only a pattern without calls is left to the engine
  cases i with
  | pattern q => exact absurd hfaithful.2 hcalls
  | solutions u =>
    obtain rfl := Evaluation.pure_injective ht
    exact hi

/-- Two patterns of which at least one has a call are combined as tables. -/
theorem combine_eq_of_evaluatePattern {operator : Pattern → Pattern → Pattern}
    {tables : Table → Table → Evaluation Table}
    (hcalls : p.extensionCalls ++ q.extensionCalls ≠ [])
    (hs : ev.evaluatePattern context graph p = pure s)
    (ht : ev.evaluatePattern context graph q = pure t) :
    (do
      let i ← ev.inlinePattern context graph p
      let j ← ev.inlinePattern context graph q
      Inlined.combine context graph operator tables i j) =
        (do pure (.solutions (← tables s t))) := by
  obtain ⟨i, hi, hs⟩ := exists_of_evaluatePattern hs
  obtain ⟨j, hj, ht⟩ := exists_of_evaluatePattern ht
  have htable : (∃ t, i = .solutions t) ∨ ∃ t, j = .solutions t := by
    have hleft := faithful_inlinePattern (Evaluation.yields_of_eq_pure hi)
    have hright := faithful_inlinePattern (Evaluation.yields_of_eq_pure hj)
    cases i with
    | solutions u => exact .inl ⟨u, rfl⟩
    | pattern p' =>
      cases j with
      | solutions u => exact .inr ⟨u, rfl⟩
      | pattern q' => exact absurd (List.append_eq_nil_iff.mpr ⟨hleft.2, hright.2⟩) hcalls
  rw [hi, pure_bind, hj, pure_bind, Inlined.combine_eq htable, hs, pure_bind, ht, pure_bind]

theorem Invariant.of_evaluatePattern {Q : Table → Prop} (hQ : ev.Invariant context Q)
    (h : ev.evaluatePattern context graph p = pure t) : Q t := by
  obtain ⟨i, hi, ht⟩ := exists_of_evaluatePattern h
  exact hQ.evaluated (Evaluation.yields_of_eq_pure hi) (Evaluation.yields_of_eq_pure ht)

end Tables

end ExtensionEvaluator

end SparqlBind
