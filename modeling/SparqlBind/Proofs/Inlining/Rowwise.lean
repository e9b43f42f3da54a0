import Mathlib.Data.List.Forall2
import SparqlBind.Proofs.Binding
import SparqlBind.Proofs.Ends
import SparqlBind.Proofs.Scalars

/-!
# `BIND` row by row

The rows below a `BIND` are folded into the results. Where a step only sets the target of each row,
the fold is a map: one result for each row and in its order, or the first failure and nothing else.
A built-in expression is put to the engine without the target of its `BIND`, so that what the rows
bound the target to shows neither in the values nor in the failures.
-/

namespace SparqlBind

namespace Evaluation

variable {α β γ : Type}

theorem run_map (f : α → β) (m : Evaluation α) (clock : Nat → Instant) :
    (f <$> m).run.run clock = (m.run.run clock).map f := by
  have hmap : (f <$> m).run = m.run.bind fun r => .done (r.map f) := by
    rw [map_eq_pure_bind, ExceptT.run_bind]
    refine congrArg (Timed.bind m.run) (funext fun r => ?_)
    cases r <;> rfl
  rw [hmap]
  exact Timed.run_bind_done clock _ _

/-- Two results that look alike through `f` are the same failure or values that look alike. -/
theorem outcomes_of_map_eq {r r' : Except EvaluationError α} {f : α → β} (h : r.map f = r'.map f) :
    (∀ cause, r = .error cause ↔ r' = .error cause) ∧
      ∀ a, r = .ok a → ∃ a', r' = .ok a' ∧ f a = f a' := by
  cases r <;> cases r' <;> simp_all [Except.map]

theorem map_mapM (f : α → Evaluation β) (g : β → γ) (as : List α) :
    List.map g <$> as.mapM f = as.mapM fun a => g <$> f a := by
  induction as with
  | nil => simp only [List.mapM_nil, map_pure, List.map_nil]
  | cons a rest ih =>
    simp only [List.mapM_cons, ← ih, map_bind, bind_map_left, map_pure, List.map_cons]

/-- What a map yields, it yields item by item. -/
theorem yields_mapM_iff {f : α → Evaluation β} {as : List α} {bs : List β} :
    Yields (as.mapM f) bs ↔ List.Forall₂ (fun a b => Yields (f a) b) as bs := by
  induction as generalizing bs with
  | nil => rw [List.mapM_nil, yields_pure_iff, List.forall₂_nil_left_iff, eq_comm]
  | cons a rest ih =>
    simp only [List.mapM_cons, yields_bind_iff, yields_pure_iff, ih]
    constructor
    · rintro ⟨b, hb, bs, hbs, rfl⟩
      exact .cons hb hbs
    · rintro (_ | ⟨hb, hbs⟩)
      exact ⟨_, hb, _, hbs, rfl⟩

end Evaluation

/-! ## The fold as a map -/

namespace ExtendStep

/-- The step pushes each row with the target of the node set to the value of the row. -/
def Sets (step : ExtendStep) (context : EvaluationContext) (node : ExtendNode)
    (value : Binding → Evaluation Term) : Prop :=
  ∀ results b, step.apply ⟨results, context, node⟩ b = do
    let v ← value b
    pure ⟨results.push (b.set node.target v), context, node⟩

/-- A row, which may be a failure, with the target set. The deadline is checked first. -/
def setRow (context : EvaluationContext) (x : Variable) (value : Binding → Evaluation Term)
    (row : Except EvaluationError Binding) : Evaluation Binding := do
  context.checkDeadline
  let b ← Timed.ofExcept id row
  let v ← value b
  pure (b.set x v)

variable {step : ExtendStep} {context : EvaluationContext} {node : ExtendNode}
variable {value : Binding → Evaluation Term}

theorem Sets.run_cons (h : step.Sets context node value) (results : Array Binding)
    (row : Except EvaluationError Binding) (rest : List (Except EvaluationError Binding)) :
    step.run ⟨results, context, node⟩ (row :: rest) = (do
      let b ← setRow context node.target value row
      step.run ⟨results.push b, context, node⟩ rest) := by
  cases row with
  | error e =>
    rw [run, setRow, bind_assoc]
    rfl
  | ok b =>
    rw [run, setRow]
    simp only [Timed.ofExcept, pure_bind, bind_assoc, h results b]

/-- The induction is on the rows that are left; the results so far stand before theirs. -/
theorem Sets.run_eq (h : step.Sets context node value) (results : Array Binding)
    (rows : List (Except EvaluationError Binding)) :
    step.run ⟨results, context, node⟩ rows = (do
      let extended ← rows.mapM (setRow context node.target value)
      pure ⟨results ++ extended.toArray, context, node⟩) := by
  induction rows generalizing results with
  | nil => simp only [run, List.mapM_nil, pure_bind, Array.append_empty]
  | cons row rest ih =>
    rw [h.run_cons, List.mapM_cons]
    simp only [ih, bind_assoc, pure_bind]
    refine congrArg (_ >>= ·) (funext fun b => congrArg (_ >>= ·) (funext fun extended => ?_))
    have hresults : results.push b ++ extended.toArray = results ++ (b :: extended).toArray := by
      simp
    rw [hresults]

end ExtendStep

namespace ExtensionEvaluator

variable {ev : ExtensionEvaluator} {context : EvaluationContext} {node : ExtendNode}

theorem extendSolutions_eq {step : ExtendStep} {value : Binding → Evaluation Term}
    (hstep : ExtendStep.ofNode ev.registry node = pure step)
    (h : step.Sets context node value) (rows : List (Except EvaluationError Binding)) :
    ev.extendSolutions context node rows =
      rows.mapM (ExtendStep.setRow context node.target value) := by
  unfold extendSolutions ExtendState.start
  simp only [hstep, pure_bind, h.run_eq, bind_assoc, Array.empty_append]
  exact bind_pure _

/-! ## Built-in expressions -/

/-- The value of a built-in expression, which does not see the target. -/
def builtInValue (context : EvaluationContext) (x : Variable) (e : Expr) (b : Binding) :
    Evaluation Term := do
  match ← context.evaluateExpression e b with
  | some v => pure v
  | none => throw (.expression x)

theorem sets_builtIn (e : Expr) :
    (ExtendStep.builtIn e).Sets context node
      fun b => builtInValue context node.target e (b.forget node.target) := by
  intro results b
  unfold ExtendStep.apply builtInValue
  simp only [bind_assoc]
  refine congrArg (_ >>= ·) (funext fun v => ?_)
  cases v with
  | none => rfl
  | some v => rfl

theorem extendSolutions_builtIn {e : Expr} (he : node.expression = .builtIn e)
    (rows : List (Except EvaluationError Binding)) :
    ev.extendSolutions context node rows =
      rows.mapM (ExtendStep.setRow context node.target fun b =>
        builtInValue context node.target e (b.forget node.target)) := by
  have hstep : ExtendStep.ofNode ev.registry node = pure (.builtIn e) := by
    unfold ExtendStep.ofNode
    rw [he]
  exact extendSolutions_eq hstep (sets_builtIn e) rows

/-- A row and the term of a variable, told apart. -/
def apart (x : Variable) (b : Binding) : Binding × Option Term := (b.forget x, b.get? x)

/-- A row without the target, and the value of a built-in expression on it. -/
def valueBeside (context : EvaluationContext) (x : Variable) (e : Expr)
    (row : Except EvaluationError Binding) : Evaluation (Binding × Option Term) := do
  context.checkDeadline
  let b ← Timed.ofExcept id row
  let v ← builtInValue context x e b
  pure (b, some v)

theorem apart_set {b : Binding} {x : Variable} {t : Term} :
    apart x (b.set x t) = (b.forget x, some t) := by
  unfold apart
  rw [Binding.forget_set, Binding.get?_set, if_pos rfl]

theorem apart_setRow (x : Variable) (e : Expr) (row : Except EvaluationError Binding) :
    apart x <$> ExtendStep.setRow context x (fun b => builtInValue context x e (b.forget x)) row =
      valueBeside context x e (row.map (·.forget x)) := by
  unfold ExtendStep.setRow valueBeside
  cases row with
  | error cause =>
    rw [map_bind]
    rfl
  | ok b => simp only [Except.map, Timed.ofExcept, pure_bind, map_bind, map_pure, apart_set]

/-- Told apart from their targets, the results depend on the rows without the target only. -/
theorem apart_extendSolutions {e : Expr} (he : node.expression = .builtIn e)
    (rows : List (Except EvaluationError Binding)) :
    List.map (apart node.target) <$> ev.extendSolutions context node rows =
      (rows.map (Except.map (·.forget node.target))).mapM (valueBeside context node.target e) := by
  rw [extendSolutions_builtIn he, Evaluation.map_mapM, List.mapM_map]
  exact congrArg rows.mapM (funext (apart_setRow node.target e))

/-- Each result is the row in its place with the variable set to some term. -/
def Extends (x : Variable) (rows : List (Except EvaluationError Binding)) (bs : List Binding) :
    Prop :=
  List.Forall₂ (fun row b => ∃ c v, row = .ok c ∧ b = c.set x v) rows bs

theorem extends_of_yields {e : Expr} (he : node.expression = .builtIn e)
    {rows : List (Except EvaluationError Binding)} {bs : List Binding}
    (h : Evaluation.Yields (ev.extendSolutions context node rows) bs) :
    Extends node.target rows bs := by
  rw [extendSolutions_builtIn he, Evaluation.yields_mapM_iff] at h
  refine h.imp fun row b hb => ?_
  obtain ⟨_, _, hb⟩ := Evaluation.yields_bind_iff.mp hb
  obtain ⟨c, hc, hb⟩ := Evaluation.yields_bind_iff.mp hb
  obtain ⟨v, _, hb⟩ := Evaluation.yields_bind_iff.mp hb
  cases row with
  | error cause => exact absurd hc Evaluation.not_yields_throw
  | ok c' =>
    obtain rfl := Evaluation.yields_pure_iff.mp hc
    exact ⟨c', v, rfl, (Evaluation.yields_pure_iff.mp hb).symm⟩

theorem extends_of_run {e : Expr} (he : node.expression = .builtIn e)
    {rows : List (Except EvaluationError Binding)} {clock : Nat → Instant} {bs : List Binding}
    (h : (ev.extendSolutions context node rows).run.run clock = .ok bs) :
    Extends node.target rows bs :=
  extends_of_yields he ((Timed.ends_iff_run _ _).mpr ⟨clock, h⟩)

theorem Extends.of_apart_eq {x : Variable} {rows : List (Except EvaluationError Binding)}
    {bs bs' : List Binding} (h : Extends x rows bs) (heq : bs.map (apart x) = bs'.map (apart x)) :
    List.Forall₂ (fun b b' => b.forget x = b'.forget x ∧
      ∃ v, b.get? x = some v ∧ b'.get? x = some v) bs bs' := by
  induction h generalizing bs' with
  | nil =>
    rw [List.map_eq_nil_iff.mp heq.symm]
    exact .nil
  | cons hrow _ ih =>
    obtain ⟨b', rest', rfl, hhead, hrest⟩ := List.map_eq_cons_iff.mp heq.symm
    obtain ⟨c, v, _, rfl⟩ := hrow
    have hv : (c.set x v).get? x = some v := by rw [Binding.get?_set, if_pos rfl]
    obtain ⟨hforget, hget⟩ := Prod.mk.inj hhead.symm
    exact .cons ⟨hforget, v, hv, hget ▸ hv⟩ (ih hrest.symm)

/-- Rows that differ in the target of a built-in `BIND` only have the same values, or the same
failure. -/
theorem extendSolutions_eq_of_forget {e : Expr} (he : node.expression = .builtIn e)
    {rows rows' : List (Except EvaluationError Binding)}
    (h : rows.map (Except.map (·.forget node.target)) =
      rows'.map (Except.map (·.forget node.target))) (clock : Nat → Instant) :
    (∀ cause, (ev.extendSolutions context node rows).run.run clock = .error cause ↔
      (ev.extendSolutions context node rows').run.run clock = .error cause) ∧
    ∀ bs, (ev.extendSolutions context node rows).run.run clock = .ok bs →
      Extends node.target rows bs ∧
      ∃ bs', (ev.extendSolutions context node rows').run.run clock = .ok bs' ∧
        Extends node.target rows' bs' ∧
        List.Forall₂ (fun b b' => b.forget node.target = b'.forget node.target ∧
          ∃ v, b.get? node.target = some v ∧ b'.get? node.target = some v) bs bs' := by
  have hapart : ((ev.extendSolutions context node rows).run.run clock).map
        (List.map (apart node.target)) =
      ((ev.extendSolutions context node rows').run.run clock).map
        (List.map (apart node.target)) := by
    rw [← Evaluation.run_map, ← Evaluation.run_map, apart_extendSolutions he,
      apart_extendSolutions he, h]
  obtain ⟨herror, hok⟩ := Evaluation.outcomes_of_map_eq hapart
  refine ⟨herror, fun bs hbs => ?_⟩
  obtain ⟨bs', hbs', heq⟩ := hok bs hbs
  exact ⟨extends_of_run he hbs, bs', hbs', extends_of_run he hbs',
    (extends_of_run he hbs).of_apart_eq heq⟩

end ExtensionEvaluator

namespace Sample

/-- `BIND(COALESCE(?x, ?o) AS ?x)`. -/
def fallback : ExtendNode := ⟨names, target, .builtIn (.coalesce [.var target, .var object])⟩

def bound (o : String) : Binding := ⟨[(object, .literal (.plain o))]⟩

/-- Two rows of which the first binds the target, and of which the second does. -/
def firstSet : List (Except EvaluationError Binding) :=
  [.ok ((bound "v").set target (.literal (.plain "old"))), .ok (bound "w")]

def secondSet : List (Except EvaluationError Binding) :=
  [.ok (bound "v"), .ok ((bound "w").set target (.literal (.plain "new")))]

def filled (o : String) : Binding := (bound o).set target (.literal (.plain o))

end Sample

open Sample in
/-- The other variable is the value on each row, also where the target was set. -/
theorem ExtensionEvaluator.extendSolutions_fallback :
    firstSet.map (Except.map (·.forget target)) = secondSet.map (Except.map (·.forget target)) ∧
    (evaluator.extendSolutions (stored []) fallback firstSet).run.run (fun _ => default) =
      .ok [filled "v", filled "w"] ∧
    ∃ bs, (evaluator.extendSolutions (stored []) fallback secondSet).run.run (fun _ => default) =
        .ok bs ∧
      List.Forall₂ (fun b b' => b.forget target = b'.forget target ∧
        ∃ v, b.get? target = some v ∧ b'.get? target = some v) [filled "v", filled "w"] bs := by
  have hsame : firstSet.map (Except.map (·.forget target)) =
    secondSet.map (Except.map (·.forget target)) := rfl
  have hrun : (evaluator.extendSolutions (stored []) fallback firstSet).run.run
    (fun _ => default) = .ok [filled "v", filled "w"] := rfl
  have he : fallback.expression = .builtIn (.coalesce [.var target, .var object]) := rfl
  obtain ⟨_, bs, hbs, _, hboth⟩ :=
    (ExtensionEvaluator.extendSolutions_eq_of_forget he hsame fun _ => default).2 _ hrun
  exact ⟨hsame, hrun, bs, hbs, hboth⟩

end SparqlBind
