import SparqlBind.Extension.Inlining
import SparqlBind.Proofs.Ends

/-!
# Steps of the inlining

What each operation on inlined patterns can yield, and that all of them but the calls of extension
functions are settled when there is no deadline. Nothing is assumed of the engine here.
-/

namespace SparqlBind

namespace EvaluationContext

variable {context : EvaluationContext}

theorem settled_checkDeadline (h : context.deadline = none) : context.checkDeadline = pure () := by
  simp [checkDeadline, h]

theorem run_checkDeadline {d : Deadline} (h : context.deadline = some d) :
    context.checkDeadline.run = .read fun now =>
      if d.instant.le now then .done (.error (.timeout d.limit)) else .done (.ok ()) := by
  unfold checkDeadline
  rw [h]
  refine congrArg Timed.read (funext fun now => ?_)
  change (if d.instant.le now then throw (.timeout d.limit) else pure () : Evaluation Unit).run = _
  split <;> rfl

theorem fails_checkDeadline {e : EvaluationError} (h : Evaluation.Fails context.checkDeadline e) :
    ∃ d ∈ context.deadline, e = .timeout d.limit := by
  cases hd : context.deadline with
  | none =>
    rw [settled_checkDeadline hd] at h
    exact absurd h Evaluation.not_fails_pure
  | some d =>
    unfold Evaluation.Fails at h
    rw [run_checkDeadline hd] at h
    cases h with
    | read now h =>
      refine ⟨d, rfl, ?_⟩
      dsimp only at h
      split at h
      · exact (Except.error.inj (Timed.ends_done_iff.mp h)).symm
      · cases h

theorem settled_liftEngine {α : Type} (r : Except EngineError α) :
    Evaluation.Settled (liftEngine r) := by
  cases r with
  | ok a => exact Evaluation.settled_pure a
  | error e => exact Evaluation.settled_throw _

theorem settled_collect {α : Type} (rows : List (Except EvaluationError α)) :
    Evaluation.Settled (collect rows) := by
  induction rows with
  | nil => exact Evaluation.settled_pure []
  | cons row rest ih =>
    cases row with
    | ok a => exact ih.bind fun _ => Evaluation.settled_pure _
    | error e => exact Evaluation.settled_throw e

variable (h : context.deadline = none)
include h

theorem settled_evaluateQuery (q : Query) : Evaluation.Settled (context.evaluateQuery q) := by
  unfold evaluateQuery
  rw [settled_checkDeadline h, pure_bind]
  exact settled_liftEngine _

theorem settled_solutions (p : Pattern) : Evaluation.Settled (context.solutions p) := by
  refine (settled_evaluateQuery h _).bind fun answer => ?_
  cases answer with
  | solutions _ rows => exact Evaluation.settled_pure _
  | boolean _ => exact Evaluation.settled_throw _
  | graph _ => exact Evaluation.settled_throw _

theorem settled_rows (p : Pattern) : Evaluation.Settled (context.rows p) :=
  (settled_solutions h p).bind settled_collect

theorem settled_ask (p : Pattern) : Evaluation.Settled (context.ask p) := by
  refine (settled_evaluateQuery h _).bind fun answer => ?_
  cases answer with
  | solutions _ _ => exact Evaluation.settled_throw _
  | boolean b => exact Evaluation.settled_pure b
  | graph _ => exact Evaluation.settled_throw _

end EvaluationContext

theorem Join.settled_leftJoin {context : EvaluationContext} (h : context.deadline = none)
    (left right : List Binding) (condition : Option Expr) :
    Evaluation.Settled (Join.leftJoin context left right condition) := by
  unfold Join.leftJoin
  cases condition with
  | none => exact (Evaluation.settled_pure _).bind fun _ => Evaluation.settled_pure _
  | some e =>
    refine Evaluation.Settled.bind ?_ fun _ => Evaluation.settled_pure _
    exact (EvaluationContext.settled_rows h _).bind fun _ => Evaluation.settled_pure _

namespace Inlined

variable {context : EvaluationContext} {graph : Option NamePattern}

theorem extendBuiltIn_pattern (q : Pattern) (x : Variable) (e : Expr) :
    (pattern q).extendBuiltIn context graph x e =
      if e.isVar then pure (pattern (.extend q x e))
      else (do
        if ← context.ask (.filter (.not (.bound x)) (inGraph graph (.extend q x e))) then
          throw (.expression x)
        else pure (pattern (.extend q x e))) := rfl

theorem extendBuiltIn_solutions (t : Table) (x : Variable) (e : Expr) :
    (solutions t).extendBuiltIn context graph x e = (do
      let rows ← context.rows (.extend t.toPattern x e)
      if !e.isVar && !rows.all (·.contains x) then throw (.expression x)
      else pure (solutions ⟨(Pattern.extend t.toPattern x e).inScope, rows⟩)) := rfl

/-- Parts of which one is a table are both evaluated. -/
theorem combine_eq {operator : Pattern → Pattern → Pattern}
    {tables : Table → Table → Evaluation Table} {i j : Inlined}
    (h : (∃ t, i = solutions t) ∨ ∃ t, j = solutions t) :
    combine context graph operator tables i j = (do
      let left ← i.evaluate context graph
      let right ← j.evaluate context graph
      pure (solutions (← tables left right))) := by
  cases i with
  | solutions t => rfl
  | pattern p =>
    cases j with
    | solutions t => rfl
    | pattern q =>
      rcases h with ⟨t, ht⟩ | ⟨t, ht⟩
      · cases ht
      · cases ht

/-! ## What the operations yield -/

theorem yields_evaluate_pattern_iff {p : Pattern} {t : Table} :
    Evaluation.Yields ((pattern p).evaluate context graph) t ↔
      ∃ rows, Evaluation.Yields (context.rows (inGraph graph p)) rows ∧
        t = ⟨(inGraph graph p).inScope, rows⟩ := by
  simp only [evaluate, Evaluation.yields_bind_iff, Evaluation.yields_pure_iff, eq_comm]

theorem yields_apply {operator : Pattern → Pattern} {i r : Inlined}
    (h : Evaluation.Yields (i.apply context operator) r) :
    (∃ p, i = pattern p ∧ r = pattern (operator p)) ∨
      ∃ t rows, i = solutions t ∧ Evaluation.Yields (context.rows (operator t.toPattern)) rows ∧
        r = solutions ⟨(operator t.toPattern).inScope, rows⟩ := by
  cases i with
  | pattern p => exact .inl ⟨p, rfl, (Evaluation.yields_pure_iff.mp h).symm⟩
  | solutions t =>
    obtain ⟨rows, hrows, hr⟩ := Evaluation.yields_bind_iff.mp h
    exact .inr ⟨t, rows, rfl, hrows, (Evaluation.yields_pure_iff.mp hr).symm⟩

theorem yields_combine {operator : Pattern → Pattern → Pattern}
    {tables : Table → Table → Evaluation Table} {i j r : Inlined}
    (h : Evaluation.Yields (combine context graph operator tables i j) r) :
    (∃ p q, i = pattern p ∧ j = pattern q ∧ r = pattern (operator p q)) ∨
      ((∃ t, i = solutions t) ∨ ∃ t, j = solutions t) ∧
      ∃ s t u, Evaluation.Yields (i.evaluate context graph) s ∧
        Evaluation.Yields (j.evaluate context graph) t ∧ Evaluation.Yields (tables s t) u ∧
        r = solutions u := by
  have split : ∀ {i j : Inlined}, Evaluation.Yields (do
      let left ← i.evaluate context graph
      let right ← j.evaluate context graph
      pure (solutions (← tables left right))) r →
      ∃ s t u, Evaluation.Yields (i.evaluate context graph) s ∧
        Evaluation.Yields (j.evaluate context graph) t ∧ Evaluation.Yields (tables s t) u ∧
        r = solutions u := by
    intro i j h
    obtain ⟨s, hs, h⟩ := Evaluation.yields_bind_iff.mp h
    obtain ⟨t, ht, h⟩ := Evaluation.yields_bind_iff.mp h
    obtain ⟨u, hu, h⟩ := Evaluation.yields_bind_iff.mp h
    exact ⟨s, t, u, hs, ht, hu, (Evaluation.yields_pure_iff.mp h).symm⟩
  cases i with
  | pattern p =>
    cases j with
    | pattern q => exact .inl ⟨p, q, rfl, rfl, (Evaluation.yields_pure_iff.mp h).symm⟩
    | solutions t => exact .inr ⟨.inr ⟨t, rfl⟩, split h⟩
  | solutions t => exact .inr ⟨.inl ⟨t, rfl⟩, split h⟩

theorem yields_named {name : NamePattern} {i r : Inlined}
    (h : Evaluation.Yields (i.named context name) r) :
    (∃ p, i = pattern p ∧ r = pattern (.graph name p)) ∨
      ∃ t, i = solutions t ∧ (r = solutions t ∨
        ∃ graphs, Evaluation.Yields ((pattern (.bgp [])).evaluate context (some name)) graphs ∧
          r = solutions ⟨unionVariables t.vars graphs.vars, Join.join t.rows graphs.rows⟩) := by
  cases i with
  | pattern p => exact .inl ⟨p, rfl, (Evaluation.yields_pure_iff.mp h).symm⟩
  | solutions t =>
    refine .inr ⟨t, rfl, ?_⟩
    cases name with
    | iri i => exact .inl (Evaluation.yields_pure_iff.mp h).symm
    | var g =>
      unfold named at h
      dsimp only at h
      split at h
      · exact .inl (Evaluation.yields_pure_iff.mp h).symm
      · obtain ⟨graphs, hgraphs, hr⟩ := Evaluation.yields_bind_iff.mp h
        exact .inr ⟨graphs, hgraphs, (Evaluation.yields_pure_iff.mp hr).symm⟩

theorem yields_extendBuiltIn {x : Variable} {e : Expr} {i r : Inlined}
    (h : Evaluation.Yields (i.extendBuiltIn context graph x e) r) :
    (∃ p, i = pattern p ∧ r = pattern (.extend p x e)) ∨
      ∃ t rows, i = solutions t ∧
        Evaluation.Yields (context.rows (.extend t.toPattern x e)) rows ∧
        (e.isVar = false → ∀ b ∈ rows, b.contains x = true) ∧
        r = solutions ⟨(Pattern.extend t.toPattern x e).inScope, rows⟩ := by
  cases i with
  | pattern p =>
    refine .inl ⟨p, rfl, ?_⟩
    unfold extendBuiltIn at h
    dsimp only at h
    split at h
    · exact (Evaluation.yields_pure_iff.mp h).symm
    · obtain ⟨failed, _, h⟩ := Evaluation.yields_bind_iff.mp h
      cases failed with
      | true => exact absurd h Evaluation.not_yields_throw
      | false => exact (Evaluation.yields_pure_iff.mp h).symm
  | solutions t =>
    obtain ⟨rows, hrows, h⟩ := Evaluation.yields_bind_iff.mp h
    refine .inr ⟨t, rows, rfl, hrows, ?_⟩
    split at h
    · exact absurd h Evaluation.not_yields_throw
    · rename_i hbound
      refine ⟨?_, (Evaluation.yields_pure_iff.mp h).symm⟩
      intro hvar
      simpa [hvar] using hbound

/-! ## Without a deadline -/

section Settled
variable (hd : context.deadline = none)
include hd

theorem settled_evaluate (i : Inlined) : Evaluation.Settled (i.evaluate context graph) := by
  cases i with
  | pattern p =>
    exact (EvaluationContext.settled_rows hd _).bind fun _ => Evaluation.settled_pure _
  | solutions t => exact Evaluation.settled_pure t

theorem settled_apply (operator : Pattern → Pattern) (i : Inlined) :
    Evaluation.Settled (i.apply context operator) := by
  cases i with
  | pattern p => exact Evaluation.settled_pure _
  | solutions t =>
    exact (EvaluationContext.settled_rows hd _).bind fun _ => Evaluation.settled_pure _

theorem settled_combine (operator : Pattern → Pattern → Pattern)
    {tables : Table → Table → Evaluation Table}
    (htables : ∀ s t, Evaluation.Settled (tables s t)) (i j : Inlined) :
    Evaluation.Settled (combine context graph operator tables i j) := by
  have split : ∀ i j : Inlined, Evaluation.Settled (do
      let left ← i.evaluate context graph
      let right ← j.evaluate context graph
      pure (solutions (← tables left right))) := fun i j =>
    (settled_evaluate hd i).bind fun s => (settled_evaluate hd j).bind fun t =>
      (htables s t).bind fun _ => Evaluation.settled_pure _
  cases i with
  | pattern p =>
    cases j with
    | pattern q => exact Evaluation.settled_pure _
    | solutions t => exact split _ _
  | solutions t => exact split _ _

theorem settled_named (name : NamePattern) (i : Inlined) :
    Evaluation.Settled (i.named context name) := by
  cases i with
  | pattern p => exact Evaluation.settled_pure _
  | solutions t =>
    cases name with
    | iri i => exact Evaluation.settled_pure _
    | var g =>
      unfold named
      dsimp only
      split
      · exact Evaluation.settled_pure _
      · exact (settled_evaluate hd _).bind fun _ => Evaluation.settled_pure _

theorem settled_extendBuiltIn (x : Variable) (e : Expr) (i : Inlined) :
    Evaluation.Settled (i.extendBuiltIn context graph x e) := by
  cases i with
  | pattern p =>
    unfold extendBuiltIn
    dsimp only
    split
    · exact Evaluation.settled_pure _
    · refine (EvaluationContext.settled_ask hd _).bind fun failed => ?_
      cases failed with
      | true => exact Evaluation.settled_throw _
      | false => exact Evaluation.settled_pure _
  | solutions t =>
    refine (EvaluationContext.settled_rows hd _).bind fun rows => ?_
    split
    · exact Evaluation.settled_throw _
    · exact Evaluation.settled_pure _

end Settled

end Inlined

namespace ExtensionEvaluator

variable {ev : ExtensionEvaluator} {context : EvaluationContext} {graph : Option NamePattern}

/-- A call yields a table with a column for all that its rows bind, and its function is registered
even when there was no row to call it on. -/
theorem yields_callFunction {p : Pattern} {x : Variable} {f : Iri} {arguments : List Expr}
    {i r : Inlined}
    (h : Evaluation.Yields (ev.callFunction context graph ⟨p, x, .functionCall f arguments⟩ i) r) :
    ev.registry.contains f = true ∧
      ∃ t rows, Evaluation.Yields (i.evaluate context graph) t ∧
        Evaluation.Yields
          (ev.extendSolutions context ⟨p, x, .functionCall f arguments⟩ (t.rows.map .ok)) rows ∧
        r = .solutions
          ⟨unionVariables (addVariable t.vars x) (rows.flatMap Binding.vars), rows⟩ := by
  obtain ⟨t, ht, h⟩ := Evaluation.yields_bind_iff.mp h
  obtain ⟨rows, hrows, h⟩ := Evaluation.yields_bind_iff.mp h
  refine ⟨?_, t, rows, ht, hrows, (Evaluation.yields_pure_iff.mp h).symm⟩
  obtain ⟨step, hstep, _⟩ := Evaluation.yields_bind_iff.mp hrows
  unfold ExtendStep.ofNode at hstep
  cases hf : ev.registry.lookup f with
  | some g => simp [Registry.contains, hf]
  | none =>
    simp only [hf] at hstep
    exact absurd hstep Evaluation.not_yields_throw

end ExtensionEvaluator

end SparqlBind
