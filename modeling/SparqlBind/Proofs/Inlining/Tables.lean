import SparqlBind.Extension.Context
import SparqlBind.Proofs.Ends
import SparqlBind.Proofs.Semantics.Mapping

/-!
# Tables and the rows read from an engine

A table covers its rows when each of its columns stands once and every variable that a row binds has
one. The cells of such a table are the rows with blank nodes presented as IRIs, and what is read
back from an engine is decoded.
-/

namespace SparqlBind

namespace Table

/-- The rows as a list of mappings. -/
def mappings (t : Table) : List Mapping := t.rows.map Binding.mapping

/-- No binding of a row lacks a column. -/
structure Covers (t : Table) : Prop where
  nodup : t.vars.Nodup
  bound : ∀ b ∈ t.rows, ∀ x, b.contains x = true → x ∈ t.vars

theorem lookup_zip_map {β : Type} (f : Variable → β) (xs : List Variable) (x : Variable) :
    (xs.zip (xs.map f)).lookup x = if x ∈ xs then some (f x) else none := by
  induction xs with
  | nil => rfl
  | cons y ys ih =>
    rw [List.map_cons, List.zip_cons_cons, List.lookup_cons, ih]
    by_cases hx : x = y
    · simp [hx]
    · simp [hx, beq_eq_false_iff_ne.mpr hx]

/-- A cell of a written row; without a column there is none. -/
theorem ofCells_row_apply (xs : List Variable) (b : Binding) (x : Variable) :
    Mapping.ofCells xs (row xs b) x = if x ∈ xs then b.mapping.presented x else none := by
  unfold Mapping.ofCells row Mapping.presented Mapping.mapTerms Binding.mapping
  rw [lookup_zip_map]
  split
  · simp only [Option.join_some, Option.map_map]
    rfl
  · rfl

/-- A row with a column for all it binds is written without loss. -/
theorem ofCells_row {xs : List Variable} {b : Binding} (h : ∀ x, b.contains x = true → x ∈ xs) :
    Mapping.ofCells xs (row xs b) = b.mapping.presented := by
  funext x
  rw [ofCells_row_apply]
  split
  · rfl
  · rename_i hx
    have hb : b.get? x = none := by
      rw [Binding.get?_eq_none_iff, ← Binding.contains_iff_mem_vars]
      exact fun hc => hx (h x hc)
    simp [Mapping.presented, Mapping.mapTerms, Binding.mapping, hb]

theorem Covers.map_ofCells {t : Table} (h : t.Covers) :
    (t.rows.map (row t.vars)).map (Mapping.ofCells t.vars) =
      t.rows.map fun b => b.mapping.presented := by
  rw [List.map_map]
  exact List.map_congr_left fun b hb => ofCells_row (h.bound b hb)

end Table

namespace EvaluationContext

variable {context : EvaluationContext}

/-- The binding that a row of an engine is read as. -/
def bindingOfSolution (s : Solution) : Binding := (Binding.ofSolution s).mapTerms Skolem.decode

theorem mapping_bindingOfSolution (s : Solution) :
    (bindingOfSolution s).mapping = s.mapping.decoded :=
  Binding.mapping_mapTerms _ (Binding.nodup_ofSolution s)

theorem map_mapping_bindingOfSolution (solutions : List Solution) :
    (solutions.map bindingOfSolution).map Binding.mapping =
      (solutions.map Solution.mapping).map Mapping.decoded := by
  rw [List.map_map, List.map_map]
  exact List.map_congr_left fun s _ => mapping_bindingOfSolution s

theorem nodup_bindingOfSolution (s : Solution) : (bindingOfSolution s).vars.Nodup :=
  Binding.nodup_mapTerms _ _

theorem collect_ok {α : Type} (rows : List α) : collect (rows.map .ok) = pure rows := by
  induction rows with
  | nil => rfl
  | cons a rest ih =>
    change (collect (rest.map .ok) >>= fun tail => pure (a :: tail)) = _
    rw [ih, pure_bind]

theorem eq_map_ok_of_yields_collect {α : Type} {rows : List (Except EvaluationError α)}
    {result : List α} (h : Evaluation.Yields (collect rows) result) : rows = result.map .ok := by
  induction rows generalizing result with
  | nil => rw [← Evaluation.yields_pure_iff.mp h, List.map_nil]
  | cons row rest ih =>
    cases row with
    | error e => exact absurd h Evaluation.not_yields_throw
    | ok a =>
      obtain ⟨tail, htail, hr⟩ := Evaluation.yields_bind_iff.mp h
      rw [← Evaluation.yields_pure_iff.mp hr, List.map_cons, ih htail]

/-- The solutions of a pattern for which an engine has an answer without failures. -/
theorem solutions_of_answer {p : Pattern} {xs : List Variable} {solutions : List Solution}
    (h : context.engine.answer context.store (context.query .select p) =
      .ok (.solutions xs (solutions.map .ok))) :
    context.solutions p =
      (do context.checkDeadline; pure ((solutions.map bindingOfSolution).map .ok)) := by
  have hmap : (solutions.map Except.ok).map bindingOf = (solutions.map bindingOfSolution).map .ok := by
    rw [List.map_map, List.map_map]
    rfl
  unfold EvaluationContext.solutions evaluateQuery
  rw [h]
  simp only [liftEngine, bind_assoc, pure_bind, hmap]

theorem rows_of_answer {p : Pattern} {xs : List Variable} {solutions : List Solution}
    (h : context.engine.answer context.store (context.query .select p) =
      .ok (.solutions xs (solutions.map .ok))) :
    context.rows p = (do context.checkDeadline; pure (solutions.map bindingOfSolution)) := by
  rw [rows, solutions_of_answer h]
  simp only [bind_assoc, pure_bind, collect_ok]

/-- Every row that a pattern yields was read from the answer of the engine. -/
theorem answer_of_yields_rows {p : Pattern} {result : List Binding}
    (h : Evaluation.Yields (context.rows p) result) :
    ∃ xs items, context.engine.answer context.store (context.query .select p) =
        .ok (.solutions xs items) ∧
      ∀ b ∈ result, ∃ s, .ok s ∈ items ∧ b = bindingOfSolution s := by
  obtain ⟨rows, hrows, hcollect⟩ := Evaluation.yields_bind_iff.mp h
  obtain ⟨answer, hanswer, hrows⟩ := Evaluation.yields_bind_iff.mp hrows
  obtain ⟨_, _, hlift⟩ := Evaluation.yields_bind_iff.mp hanswer
  have hall := eq_map_ok_of_yields_collect hcollect
  cases ha : context.engine.answer context.store (context.query .select p) with
  | error e =>
    rw [ha] at hlift
    exact absurd hlift Evaluation.not_yields_throw
  | ok a =>
    rw [ha] at hlift
    obtain rfl := Evaluation.yields_pure_iff.mp hlift
    cases a with
    | boolean _ => exact absurd hrows Evaluation.not_yields_throw
    | graph _ => exact absurd hrows Evaluation.not_yields_throw
    | solutions xs items =>
      refine ⟨xs, items, rfl, fun b hb => ?_⟩
      have hmem : .ok b ∈ items.map bindingOf := by
        rw [Evaluation.yields_pure_iff.mp hrows, hall]
        exact List.mem_map.mpr ⟨b, hb, rfl⟩
      obtain ⟨item, hitem, hb⟩ := List.mem_map.mp hmem
      cases item with
      | error e => simp [bindingOf] at hb
      | ok s => exact ⟨s, hitem, (Except.ok.inj hb).symm⟩

end EvaluationContext

end SparqlBind
