import SparqlBind.Proofs.Inlining.Steps
import SparqlBind.Proofs.Inlining.Tables
import SparqlBind.Proofs.Semantics.Presentation

/-!
# Engines that follow a semantics

What is assumed of an engine: it answers selections and questions about plain patterns as the bag
semantics has it, in any order and with any columns. Nothing is assumed of other queries. Every
semantics has such an engine.
-/

noncomputable section

open scoped Classical

namespace SparqlBind

/-- The rows as a bag of mappings. -/
def Bag.ofRows (rows : List Binding) : Bag := (rows.map Binding.mapping : List Mapping)

theorem Bag.mem_ofRows {rows : List Binding} {μ : Mapping} :
    μ ∈ ofRows rows ↔ ∃ b ∈ rows, b.mapping = μ := by
  simp only [ofRows, Multiset.mem_coe, List.mem_map]

theorem Bag.forall_mem_ofRows {rows : List Binding} {q : Mapping → Prop} :
    (∀ μ ∈ ofRows rows, q μ) ↔ ∀ b ∈ rows, q b.mapping := by
  simp only [mem_ofRows, forall_exists_index, and_imp, forall_apply_eq_imp_iff₂]

/-- No row has a variable twice. -/
def DistinctVars (rows : List Binding) : Prop := ∀ b ∈ rows, b.vars.Nodup

/-- The table covers its rows, which are those of the bag, and no row has a variable twice. -/
structure Table.Represents (t : Table) (A : Bag) : Prop where
  covers : t.Covers
  distinctVars : DistinctVars t.rows
  rows : Bag.ofRows t.rows = A

/-- The patterns in which an expression is asked about the rows of a table. -/
inductive Pattern.Asks (e : Expr) : Pattern → Prop
  | filter (t : Table) : Asks e (.filter e t.toPattern)
  | extend (t : Table) (x : Variable) : Asks e (.extend t.toPattern x e)
  | project {p : Pattern} (xs : List Variable) : Asks e p → Asks e (.project p xs)

namespace EvaluationContext

/-- In the dataset of the context, the engine answers as the bag semantics has it. As in
`Engine.Tabular`, its rows bind variables in scope only and the terms of a table come back as they are
written, which `Engine.standard` sees to for canonical literals only. -/
structure Follows (context : EvaluationContext) (sem : Semantics) : Prop where
  select : ∀ p : Pattern, p.isPlain sem.known = true →
    ∃ (xs : List Variable) (solutions : List Solution),
      context.engine.answer context.store (context.query .select p) =
        .ok (.solutions xs (solutions.map .ok)) ∧
      (solutions.map Solution.mapping : Multiset Mapping) = sem.rows none p
  ask : ∀ p : Pattern, p.isPlain sem.known = true →
    ∃ answer : Bool, context.engine.answer context.store (context.query .ask p) =
        .ok (.boolean answer) ∧
      (answer = true ↔ sem.rows none p ≠ 0)

/-- The engine has an answer without failures for a pattern, with the rows of the bag. -/
def Answers (context : EvaluationContext) (p : Pattern) (A : Bag) : Prop :=
  ∃ (xs : List Variable) (solutions : List Solution),
    context.engine.answer context.store (context.query .select p) =
      .ok (.solutions xs (solutions.map .ok)) ∧
    (solutions.map Solution.mapping : Multiset Mapping) = A

/-- On the rows of a table the engine gives the expression the values that the semantics gives it. -/
def Evaluates (context : EvaluationContext) (sem : Semantics) (e : Expr) : Prop :=
  ∀ p : Pattern, p.Asks e → context.Answers p (sem.rows none p)

variable {context : EvaluationContext} {sem : Semantics} {p : Pattern} {A : Bag}

/-- The rows are read from the answer after the deadline is checked. -/
theorem Answers.solutions_eq (h : context.Answers p A) :
    ∃ rows : List Binding,
      context.solutions p = (do context.checkDeadline; pure (rows.map .ok)) ∧
      Bag.ofRows rows = A.decoded ∧ DistinctVars rows := by
  obtain ⟨xs, solutions, hanswer, hrows⟩ := h
  refine ⟨solutions.map bindingOfSolution, solutions_of_answer hanswer, ?_, ?_⟩
  · rw [← hrows, Bag.ofRows, Bag.decoded, Multiset.map_coe, map_mapping_bindingOfSolution]
  · intro b hb
    obtain ⟨s, _, rfl⟩ := List.mem_map.mp hb
    exact nodup_bindingOfSolution s

theorem Answers.rows_eq (h : context.Answers p A) :
    ∃ rows : List Binding, context.rows p = (do context.checkDeadline; pure rows) ∧
      Bag.ofRows rows = A.decoded := by
  obtain ⟨rows, hrows, hbag, _⟩ := h.solutions_eq
  refine ⟨rows, ?_, hbag⟩
  rw [EvaluationContext.rows, hrows, bind_assoc]
  simp only [pure_bind, collect_ok]

theorem Answers.solutions (h : context.Answers p A) (hd : context.deadline = none) :
    ∃ rows : List Binding, context.solutions p = pure (rows.map .ok) ∧
      Bag.ofRows rows = A.decoded ∧ DistinctVars rows := by
  obtain ⟨rows, hrows, hbag⟩ := h.solutions_eq
  refine ⟨rows, ?_, hbag⟩
  rw [hrows, settled_checkDeadline hd, pure_bind]

/-- The rows of a pattern as a table with the variables in scope for columns. -/
theorem Answers.rows (h : context.Answers p A) (hd : context.deadline = none)
    (hwithin : A.Within (· ∈ p.mentions)) :
    ∃ rows : List Binding, context.rows p = pure rows ∧
      Table.Represents ⟨p.inScope, rows⟩ A.decoded := by
  obtain ⟨rows, hrows, hbag, hdistinct⟩ := h.solutions hd
  refine ⟨rows, ?_, ⟨⟨p.nodup_inScope, fun b hb x hx => ?_⟩, hdistinct, hbag⟩⟩
  · rw [EvaluationContext.rows, hrows, pure_bind, collect_ok]
  · have hmem : b.mapping ∈ A.decoded := hbag ▸ Bag.mem_ofRows.mpr ⟨b, hb, rfl⟩
    obtain ⟨μ, hμ, hbμ⟩ := Multiset.mem_map.mp hmem
    refine Pattern.mem_inScope.mpr (hwithin μ hμ x fun hnone => ?_)
    rw [Binding.contains_iff_mem_vars, ← Binding.get?_ne_none_iff] at hx
    have hget : b.get? x = (μ x).map Skolem.decode := (congrFun hbμ x).symm
    exact hx (hget.trans (by rw [hnone, Option.map_none]))

theorem Follows.answers (h : context.Follows sem) (hp : p.isPlain sem.known = true) :
    context.Answers p (sem.rows none p) := h.select p hp

theorem Follows.evaluates (h : context.Follows sem) {e : Expr} (he : e.isPlain sem.known = true) :
    context.Evaluates sem e := by
  intro p hp
  refine h.answers ?_
  induction hp with
  | filter t => simp [Pattern.isPlain, Table.toPattern, he]
  | extend t x => simp [Pattern.isPlain, Table.toPattern, he]
  | project xs _ ih => exact ih

theorem Follows.rows (h : context.Follows sem) (hd : context.deadline = none)
    (hp : p.isPlain sem.known = true) :
    ∃ rows : List Binding, context.rows p = pure rows ∧
      Table.Represents ⟨p.inScope, rows⟩ (sem.rows none p).decoded :=
  (h.answers hp).rows hd (sem.rows_within p none)

theorem Follows.ask_eq (h : context.Follows sem) (hd : context.deadline = none) {p : Pattern}
    (hp : p.isPlain sem.known = true) :
    ∃ answer : Bool, context.ask p = pure answer ∧ (answer = true ↔ sem.rows none p ≠ 0) := by
  obtain ⟨answer, hanswer, hrows⟩ := h.ask p hp
  refine ⟨answer, ?_, hrows⟩
  unfold EvaluationContext.ask evaluateQuery
  rw [settled_checkDeadline hd, hanswer]
  simp only [liftEngine, pure_bind]

end EvaluationContext

/-! ## The engine of a semantics -/

/-- The engine that answers as the bag semantics has it. -/
def Semantics.engine (sem : Semantics) : Engine where
  answer _ q :=
    match q.form with
    | .ask => .ok (.boolean (decide (sem.rows none q.pattern ≠ 0)))
    | _ =>
      let xs := q.pattern.inScope
      .ok (.solutions xs ((sem.rows none q.pattern).toList.map fun μ => .ok (.ofMapping xs μ)))

/-- Rows written as solutions are read back. -/
theorem Semantics.map_mapping_ofMapping (sem : Semantics) (graph : Option Term) (p : Pattern) :
    (((sem.rows graph p).toList.map (Solution.ofMapping p.inScope)).map Solution.mapping :
      Multiset Mapping) = sem.rows graph p := by
  have hmapping : ∀ μ ∈ (sem.rows graph p).toList,
      (Solution.ofMapping p.inScope μ).mapping = μ := by
    intro μ hμ
    refine Solution.mapping_ofMapping p.nodup_inScope ?_
    exact (sem.rows_within p graph μ (Multiset.mem_toList.mp hμ)).mono fun _ =>
      Pattern.mem_inScope.mpr
  have hmap : (sem.rows graph p).toList.map (Solution.mapping ∘ Solution.ofMapping p.inScope) =
      (sem.rows graph p).toList := (List.map_congr_left hmapping).trans (List.map_id _)
  rw [List.map_map, hmap, Multiset.coe_toList]

theorem Semantics.follows_engine {sem : Semantics} {context : EvaluationContext}
    (h : context.engine = sem.engine) : context.Follows sem where
  select p _ := by
    refine ⟨p.inScope, (sem.rows none p).toList.map (Solution.ofMapping p.inScope), ?_,
      sem.map_mapping_ofMapping none p⟩
    rw [h, List.map_map]
    rfl
  ask p _ := ⟨decide (sem.rows none p ≠ 0), by rw [h]; rfl, decide_eq_true_iff⟩

end SparqlBind

end
