import SparqlBind.Extension.ScalarFunction
import SparqlBind.Proofs.Inlining.Columns
import SparqlBind.Proofs.Renaming.Table

/-!
# Comparing two evaluations

Two evaluations of a query, with other names for its variables perhaps, in contexts that are not quite
the same. Whatever relation between evaluations has a clause for each thing an evaluation can do (end,
fail, go on, look at the clock, ask the engine) relates the two evaluations of every query, as long as
it relates the calls of their functions. So a statement about two runs is proved by giving those
clauses.
-/

namespace SparqlBind

/-- A relation between evaluations that is closed under all their steps, up to a renaming. -/
structure Comparison where
  rename : Variable → Variable
  injective : Function.Injective rename
  contexts : EvaluationContext → EvaluationContext → Prop
  rel : ∀ {α β : Type}, (α → β → Prop) → Evaluation α → Evaluation β → Prop
  pure : ∀ {α β : Type} {R : α → β → Prop} {a : α} {b : β}, R a b → rel R (pure a) (pure b)
  throw : ∀ {α β : Type} {R : α → β → Prop} (e : EvaluationError),
    rel R (throw e) (throw (e.mapVars rename))
  bind : ∀ {α β γ δ : Type} {R : α → β → Prop} {S : γ → δ → Prop} {m : Evaluation α}
    {m' : Evaluation β} {f : α → Evaluation γ} {f' : β → Evaluation δ},
    rel R m m' → (∀ a b, R a b → rel S (f a) (f' b)) → rel S (m >>= f) (m' >>= f')
  check : ∀ {c c' : EvaluationContext}, contexts c c' →
    rel (fun _ _ => True) c.checkDeadline c'.checkDeadline
  answer : ∀ {c c' : EvaluationContext}, contexts c c' → ∀ (form : QueryForm) (p : Pattern),
    c'.engine.answer c'.store (c'.query (form.mapVars rename) (p.mapVars rename)) =
      (c.engine.answer c.store (c.query form p)).map (·.mapVars rename)

namespace Comparison

variable (C : Comparison)

/-- The second evaluation gives what `f` makes of the result of the first one. -/
def Along {α β : Type} (f : α → β) (m : Evaluation α) (m' : Evaluation β) : Prop :=
  C.rel (fun a b => b = f a) m m'

/-- The helper variables keep their names. -/
structure KeepsHelpers : Prop where
  value : C.rename EvaluationContext.valueVariable = EvaluationContext.valueVariable
  row : C.rename Join.rowVariable = Join.rowVariable

structure States (s s' : ExtendState) : Prop where
  results : s'.results.toList = s.results.toList.map (·.mapVars C.rename)
  context : C.contexts s.context s'.context
  node : s'.node = s.node.mapVars C.rename

def Functions (f f' : ExtensionFunction) : Prop :=
  ∀ {s s' : ExtendState} (b : Binding), C.States s s' →
    C.rel C.States (f.apply s b) (f'.apply s' (b.mapVars C.rename))

/-- The same names are registered, with functions that are related. -/
def Registries (registry registry' : Registry) : Prop :=
  ∀ i, Option.Rel C.Functions (registry.lookup i) (registry'.lookup i)

variable {C}

section Steps
variable {α β γ δ : Type}

theorem along_pure (f : α → β) (a : α) : C.Along f (Pure.pure a) (Pure.pure (f a)) := C.pure rfl

theorem Along.bind_rel {f : α → β} {m : Evaluation α} {m' : Evaluation β} {R : γ → δ → Prop}
    {k : α → Evaluation γ} {k' : β → Evaluation δ} (hm : C.Along f m m')
    (hk : ∀ a, C.rel R (k a) (k' (f a))) : C.rel R (m >>= k) (m' >>= k') :=
  C.bind hm fun a _ h => h ▸ hk a

theorem Along.bind {f : α → β} {g : γ → δ} {m : Evaluation α} {m' : Evaluation β}
    {k : α → Evaluation γ} {k' : β → Evaluation δ} (hm : C.Along f m m')
    (hk : ∀ a, C.Along g (k a) (k' (f a))) : C.Along g (m >>= k) (m' >>= k') :=
  hm.bind_rel hk

theorem along_liftEngine (f : α → β) (r : Except EngineError α) :
    C.Along f (EvaluationContext.liftEngine r) (EvaluationContext.liftEngine (r.map f)) := by
  cases r with
  | ok a => exact along_pure f a
  | error e => exact C.throw (.engine e)

end Steps

/-! ## Questions to the engine -/

section Contexts
variable {c c' : EvaluationContext} (hc : C.contexts c c')
include hc

theorem along_evaluateQuery (form : QueryForm) (p : Pattern) :
    C.Along (·.mapVars C.rename) (c.evaluateQuery (c.query form p))
      (c'.evaluateQuery (c'.query (form.mapVars C.rename) (p.mapVars C.rename))) := by
  unfold EvaluationContext.evaluateQuery
  rw [C.answer hc]
  exact C.bind (C.check hc) fun _ _ _ => along_liftEngine _ _

theorem along_solutions (p : Pattern) :
    C.Along (List.map (renameResult C.rename (·.mapVars C.rename))) (c.solutions p)
      (c'.solutions (p.mapVars C.rename)) := by
  refine (along_evaluateQuery hc .select p).bind fun answer => ?_
  cases answer with
  | solutions xs rows =>
    refine C.pure ?_
    rw [List.map_map, List.map_map]
    refine List.map_congr_left fun row _ => ?_
    cases row with
    | error e => rfl
    | ok s =>
      refine congrArg Except.ok ?_
      rw [Binding.ofSolution_mapVars C.injective, Binding.mapTerms_mapVars C.injective]
  | boolean b | graph triples => exact C.throw (.notImplemented "non tabular subquery")

omit hc in
theorem along_collect {α β : Type} (f : α → β) (rows : List (Except EvaluationError α)) :
    C.Along (List.map f) (EvaluationContext.collect rows)
      (EvaluationContext.collect (rows.map (renameResult C.rename f))) := by
  induction rows with
  | nil => exact along_pure (List.map f) []
  | cons row rest ih =>
    cases row with
    | error e => exact C.throw e
    | ok a => exact ih.bind fun as => C.pure rfl

theorem along_rows (p : Pattern) :
    C.Along (List.map (·.mapVars C.rename)) (c.rows p) (c'.rows (p.mapVars C.rename)) :=
  (along_solutions hc p).bind fun rows => along_collect _ rows

theorem along_ask (p : Pattern) : C.Along id (c.ask p) (c'.ask (p.mapVars C.rename)) := by
  refine (along_evaluateQuery hc .ask p).bind fun answer => ?_
  cases answer with
  | boolean b => exact along_pure id b
  | solutions _ _ | graph _ => exact C.throw (.notImplemented "non boolean subquery")

theorem along_evaluateExpression
    (hvalue : C.rename EvaluationContext.valueVariable = EvaluationContext.valueVariable) (e : Expr)
    (b : Binding) :
    C.Along id (c.evaluateExpression e b)
      (c'.evaluateExpression (e.mapVars C.rename) (b.mapVars C.rename)) := by
  have hpattern : EvaluationContext.expressionPattern (e.mapVars C.rename) (b.mapVars C.rename) =
      (EvaluationContext.expressionPattern e b).mapVars C.rename := by
    have htable := Table.toPattern_mapVars C.injective ⟨b.vars, [b]⟩
    unfold Table.mapVars at htable
    unfold EvaluationContext.expressionPattern
    simp only [Pattern.mapVars, ← htable, b.vars_mapVars, List.map_singleton, hvalue]
  unfold EvaluationContext.evaluateExpression
  rw [hpattern]
  refine (along_solutions hc _).bind fun rows => ?_
  match rows with
  | [] => exact along_pure id none
  | .error e :: _ => exact C.throw e
  | .ok first :: _ =>
    have hget := first.get?_mapVars C.injective EvaluationContext.valueVariable
    rw [hvalue] at hget
    exact C.pure hget

section RowVariable
variable (hrow : C.rename Join.rowVariable = Join.rowVariable)
include hrow

theorem along_satisfied (e : Expr) (rows : List Binding) :
    C.Along id (Join.satisfied c e rows)
      (Join.satisfied c' (e.mapVars C.rename) (rows.map (·.mapVars C.rename))) := by
  unfold Join.satisfied
  rw [Join.conditionPattern_mapVars C.injective hrow]
  refine (along_rows hc _).bind fun kept => C.pure ?_
  rw [List.filterMap_map, List.length_map]
  simp only [Function.comp_def, Join.rowNumber?_mapVars C.injective hrow, id]

theorem along_flags (rows : List Binding) (condition : Option Expr) :
    C.Along id (Join.flags c rows condition)
      (Join.flags c' (rows.map (·.mapVars C.rename)) (condition.map (·.mapVars C.rename))) := by
  cases condition with
  | none => exact C.pure (List.map_map ..)
  | some e => exact along_satisfied hc hrow e rows

theorem along_leftJoin (left right : List Binding) (condition : Option Expr) :
    C.Along (List.map (·.mapVars C.rename)) (Join.leftJoin c left right condition)
      (Join.leftJoin c' (left.map (·.mapVars C.rename)) (right.map (·.mapVars C.rename))
        (condition.map (·.mapVars C.rename))) := by
  have hcandidates : ((left.map (·.mapVars C.rename)).map fun l =>
      (l, Join.matching l (right.map (·.mapVars C.rename)))) =
      (left.map fun l => (l, Join.matching l right)).map fun c =>
        (c.1.mapVars C.rename, c.2.map (·.mapVars C.rename)) := by
    rw [List.map_map, List.map_map]
    exact List.map_congr_left fun l _ =>
      congrArg (Prod.mk _) (Join.matching_mapVars C.injective l right)
  have hrows : ∀ candidates : List (Binding × List Binding),
      (candidates.map fun c => (c.1.mapVars C.rename, c.2.map (·.mapVars C.rename))).flatMap (·.2) =
        (candidates.flatMap (·.2)).map (·.mapVars C.rename) := by
    intro candidates
    rw [List.flatMap_map, List.map_flatMap]
  rw [Join.leftJoin_eq, Join.leftJoin_eq]
  simp only [hcandidates, hrows]
  refine (along_flags hc hrow _ condition).bind fun flags => C.pure ?_
  exact Join.keepMatched_mapVars _ flags

end RowVariable

end Contexts

/-! ## Functions -/

theorem States.push {s s' : ExtendState} (h : C.States s s') (b : Binding) :
    C.States (s.push b) (s'.push (b.mapVars C.rename)) where
  results := by simp [ExtendState.push, h.results]
  context := h.context
  node := h.node

theorem States.start {c c' : EvaluationContext} (hc : C.contexts c c') (node : ExtendNode) :
    C.States (.start c node) (.start c' (node.mapVars C.rename)) := ⟨rfl, hc, rfl⟩

section Scalars
variable (hvalue : C.rename EvaluationContext.valueVariable = EvaluationContext.valueVariable)
include hvalue

theorem along_argument? {c c' : EvaluationContext} (hc : C.contexts c c') (b : Binding) (e : Expr) :
    C.Along id (ScalarFunction.argument? c b e)
      (ScalarFunction.argument? c' (b.mapVars C.rename) (e.mapVars C.rename)) := by
  cases e with
  | var x => exact C.pure (b.get?_mapVars C.injective x)
  | constant t => exact C.pure rfl
  | binary _ _ _ | unary _ _ | oneOf _ _ | existence _ | bound _ | cond _ _ _ | coalesce _
  | call _ _ => exact along_evaluateExpression hc hvalue _ b

theorem along_arguments {c c' : EvaluationContext} (hc : C.contexts c c') (f : ScalarFunction)
    (b : Binding) (position : Nat) (es : List Expr) :
    C.Along id (f.arguments c b position es)
      (f.arguments c' (b.mapVars C.rename) position (es.map (·.mapVars C.rename))) := by
  induction es generalizing position with
  | nil => exact C.pure rfl
  | cons e rest ih =>
    refine (along_argument? hvalue hc b e).bind fun value => ?_
    cases value with
    | none => exact C.throw (.invalidArgument f.iri position)
    | some t => exact (ih (position + 1)).bind fun ts => C.pure rfl

/-- A scalar function does not know the names of the variables, nor the context. -/
theorem functions_toExtension (f : ScalarFunction) : C.Functions f.toExtension f.toExtension := by
  intro s s' b h
  have harguments : ScalarFunction.argumentExprs s'.node.expression =
      (ScalarFunction.argumentExprs s.node.expression).map (·.mapVars C.rename) := by
    rw [h.node, ExtendNode.mapVars]
    cases s.node.expression <;> rfl
  have htarget : s'.node.target = C.rename s.node.target := by rw [h.node]; rfl
  unfold ScalarFunction.toExtension
  simp only [harguments, htarget]
  refine (along_arguments hvalue h.context f b 0 _).bind_rel fun terms => ?_
  have hcall : C.Along id (f.call terms) (f.call terms) := by
    unfold ScalarFunction.call
    cases f.value terms with
    | ok t => exact C.pure rfl
    | error message => exact C.throw (.function f.iri message)
  refine hcall.bind_rel fun t => C.pure ?_
  rw [Binding.set_mapVars C.injective]
  exact h.push _

theorem registries_ofScalars (functions : ScalarFunctions) :
    C.Registries (.ofScalars functions) (.ofScalars functions) := by
  intro i
  rw [Registry.lookup_ofScalars]
  cases functions.lookup i.text with
  | none => exact .none
  | some f => exact .some (functions_toExtension hvalue f)

end Scalars

variable (C) in
inductive Steps : ExtendStep → ExtendStep → Prop
  | function {f f' : ExtensionFunction} (h : C.Functions f f') : Steps (.function f) (.function f')
  | builtIn (e : Expr) : Steps (.builtIn e) (.builtIn (e.mapVars C.rename))

theorem rel_ofNode {registry registry' : Registry} (h : C.Registries registry registry')
    (node : ExtendNode) :
    C.rel C.Steps (ExtendStep.ofNode registry node)
      (ExtendStep.ofNode registry' (node.mapVars C.rename)) := by
  unfold ExtendStep.ofNode
  simp only [ExtendNode.mapVars]
  cases node.expression with
  | builtIn e => exact C.pure (.builtIn e)
  | functionCall f arguments =>
    simp only [BindExpression.mapVars]
    have hf := h f
    generalize registry.lookup f = found, registry'.lookup f = found' at hf ⊢
    cases hf with
    | none => exact C.throw (.unknownFunction f)
    | some hf => exact C.pure (.function hf)

section Keeps
variable (hkeeps : C.KeepsHelpers)
include hkeeps

theorem rel_apply {step step' : ExtendStep} (hstep : C.Steps step step') {s s' : ExtendState}
    (h : C.States s s') (b : Binding) :
    C.rel C.States (step.apply s b) (step'.apply s' (b.mapVars C.rename)) := by
  cases hstep with
  | function hf => exact hf b h
  | builtIn e =>
    have htarget : s'.node.target = C.rename s.node.target := by rw [h.node]; rfl
    simp only [ExtendStep.apply, htarget, Binding.forget_mapVars C.injective]
    refine (along_evaluateExpression h.context hkeeps.value e _).bind_rel fun value => ?_
    cases value with
    | none => exact C.throw (.expression s.node.target)
    | some t =>
      refine C.pure ?_
      rw [Binding.set_mapVars C.injective]
      exact h.push _

theorem rel_run {step step' : ExtendStep} (hstep : C.Steps step step') {s s' : ExtendState}
    (h : C.States s s') (rows : List (Except EvaluationError Binding)) :
    C.rel C.States (step.run s rows)
      (step'.run s' (rows.map (renameResult C.rename (·.mapVars C.rename)))) := by
  induction rows generalizing s s' with
  | nil => exact C.pure h
  | cons row rest ih =>
    refine C.bind (C.check h.context) fun _ _ _ => ?_
    cases row with
    | error e => exact C.throw e
    | ok b => exact C.bind (rel_apply hkeeps hstep h b) fun _ _ hnext => ih hnext

theorem along_extendSolutions {ev ev' : ExtensionEvaluator}
    (hev : C.Registries ev.registry ev'.registry) {c c' : EvaluationContext} (hc : C.contexts c c')
    (node : ExtendNode) (rows : List (Except EvaluationError Binding)) :
    C.Along (List.map (·.mapVars C.rename)) (ev.extendSolutions c node rows)
      (ev'.extendSolutions c' (node.mapVars C.rename)
        (rows.map (renameResult C.rename (·.mapVars C.rename)))) :=
  C.bind (rel_ofNode hev node) fun _ _ hstep =>
    C.bind (rel_run hkeeps hstep (.start hc node) rows) fun _ _ h => C.pure h.results

end Keeps

/-! ## Inlined patterns -/

section Inlined
variable {c c' : EvaluationContext} (hc : C.contexts c c') {graph : Option NamePattern}
include hc

theorem along_evaluate (i : Inlined) :
    C.Along (·.mapVars C.rename) (i.evaluate c graph)
      ((i.mapVars C.rename).evaluate c' (graph.map (·.mapVars C.rename))) := by
  cases i with
  | solutions t => exact C.pure rfl
  | pattern p =>
    have hgraph : Inlined.inGraph (graph.map (·.mapVars C.rename)) (p.mapVars C.rename) =
        (Inlined.inGraph graph p).mapVars C.rename := by
      cases graph <;> rfl
    simp only [Inlined.evaluate, Inlined.mapVars, hgraph]
    refine (along_rows hc _).bind fun rows => C.pure ?_
    rw [Pattern.inScope_mapVars C.injective]
    rfl

theorem along_apply {operator operator' : Pattern → Pattern}
    (hoperator : ∀ p, operator' (p.mapVars C.rename) = (operator p).mapVars C.rename) (i : Inlined) :
    C.Along (·.mapVars C.rename) (i.apply c operator) ((i.mapVars C.rename).apply c' operator') := by
  cases i with
  | pattern p => exact C.pure (congrArg Inlined.pattern (hoperator p))
  | solutions t =>
    simp only [Inlined.apply, Inlined.mapVars, Table.toPattern_mapVars C.injective, hoperator]
    refine (along_rows hc _).bind fun rows => C.pure ?_
    rw [Pattern.inScope_mapVars C.injective]
    rfl

theorem along_combine {operator operator' : Pattern → Pattern → Pattern}
    {tables tables' : Table → Table → Evaluation Table}
    (hoperator : ∀ p q, operator' (p.mapVars C.rename) (q.mapVars C.rename) =
      (operator p q).mapVars C.rename)
    (htables : ∀ s t, C.Along (·.mapVars C.rename) (tables s t)
      (tables' (s.mapVars C.rename) (t.mapVars C.rename))) (i j : Inlined) :
    C.Along (·.mapVars C.rename) (Inlined.combine c graph operator tables i j)
      (Inlined.combine c' (graph.map (·.mapVars C.rename)) operator' tables' (i.mapVars C.rename)
        (j.mapVars C.rename)) := by
  have hboth (h : (∃ t, i = .solutions t) ∨ ∃ t, j = .solutions t) :
      C.Along (·.mapVars C.rename) (Inlined.combine c graph operator tables i j)
        (Inlined.combine c' (graph.map (·.mapVars C.rename)) operator' tables'
          (i.mapVars C.rename) (j.mapVars C.rename)) := by
    have h' : (∃ t, i.mapVars C.rename = .solutions t) ∨ ∃ t, j.mapVars C.rename = .solutions t :=
      h.imp (fun ⟨t, ht⟩ => ⟨t.mapVars C.rename, ht ▸ rfl⟩)
        (fun ⟨t, ht⟩ => ⟨t.mapVars C.rename, ht ▸ rfl⟩)
    rw [Inlined.combine_eq h, Inlined.combine_eq h']
    exact (along_evaluate hc i).bind fun s => (along_evaluate hc j).bind fun t =>
      (htables s t).bind fun u => C.pure rfl
  cases i with
  | solutions t => exact hboth (.inl ⟨t, rfl⟩)
  | pattern p =>
    cases j with
    | solutions t => exact hboth (.inr ⟨t, rfl⟩)
    | pattern q => exact C.pure (congrArg Inlined.pattern (hoperator p q))

theorem along_named (name : NamePattern) (i : Inlined) :
    C.Along (·.mapVars C.rename) (i.named c name)
      ((i.mapVars C.rename).named c' (name.mapVars C.rename)) := by
  cases i with
  | pattern p => exact C.pure rfl
  | solutions t =>
    cases name with
    | iri i => exact C.pure rfl
    | var g =>
      have hall : ((t.mapVars C.rename).rows.all (·.contains (C.rename g))) =
          t.rows.all (·.contains g) := by
        rw [Table.mapVars, List.all_map]
        simp only [Function.comp_def, Binding.contains_mapVars C.injective]
      simp only [Inlined.named, Inlined.mapVars, NamePattern.mapVars, hall]
      split
      · exact C.pure rfl
      · refine (along_evaluate hc (.pattern (.bgp []))).bind fun graphs => C.pure ?_
        simp only [Table.mapVars, unionVariables_map C.injective, Join.join_mapVars C.injective]

theorem along_extendBuiltIn (x : Variable) (e : Expr) (i : Inlined) :
    C.Along (·.mapVars C.rename) (i.extendBuiltIn c graph x e)
      ((i.mapVars C.rename).extendBuiltIn c' (graph.map (·.mapVars C.rename)) (C.rename x)
        (e.mapVars C.rename)) := by
  cases i with
  | pattern p =>
    rw [Inlined.mapVars, Inlined.extendBuiltIn_pattern, Inlined.extendBuiltIn_pattern, e.isVar_mapVars]
    split
    · exact C.pure rfl
    · have hquestion : Pattern.filter (.not (.bound (C.rename x)))
          (Inlined.inGraph (graph.map (·.mapVars C.rename))
            (.extend (p.mapVars C.rename) (C.rename x) (e.mapVars C.rename))) =
          (Pattern.filter (.not (.bound x)) (Inlined.inGraph graph (.extend p x e))).mapVars
            C.rename := by
        cases graph <;> rfl
      rw [hquestion]
      refine (along_ask hc _).bind fun failed => ?_
      cases failed with
      | true => exact C.throw (.expression x)
      | false => exact C.pure rfl
  | solutions t =>
    have hpattern : Pattern.extend (t.mapVars C.rename).toPattern (C.rename x) (e.mapVars C.rename) =
        (Pattern.extend t.toPattern x e).mapVars C.rename := by
      rw [Table.toPattern_mapVars C.injective, Pattern.mapVars]
    rw [Inlined.mapVars, Inlined.extendBuiltIn_solutions, Inlined.extendBuiltIn_solutions,
      hpattern, e.isVar_mapVars]
    refine (along_rows hc _).bind fun rows => ?_
    have hall : ((rows.map (·.mapVars C.rename)).all (·.contains (C.rename x))) =
        rows.all (·.contains x) := by
      rw [List.all_map]
      simp only [Function.comp_def, Binding.contains_mapVars C.injective]
    rw [hall]
    split
    · exact C.throw (.expression x)
    · refine C.pure ?_
      rw [Pattern.inScope_mapVars C.injective]
      rfl

omit hc in
theorem keepGraph_mapVars (xs : List Variable) (i : Inlined) :
    (i.mapVars C.rename).keepGraph (graph.map (·.mapVars C.rename)) (xs.map C.rename) =
      (i.keepGraph graph xs).map C.rename := by
  cases i with
  | pattern p => rfl
  | solutions t =>
    cases graph with
    | none => rfl
    | some name =>
      cases name with
      | iri i => rfl
      | var g => exact addVariable_map C.injective xs g

end Inlined

section Evaluators
variable (hkeeps : C.KeepsHelpers) {ev ev' : ExtensionEvaluator}
variable (hev : C.Registries ev.registry ev'.registry) {c c' : EvaluationContext}
variable (hc : C.contexts c c')
include hkeeps hev hc

theorem along_callFunction {graph : Option NamePattern} (node : ExtendNode) (i : Inlined) :
    C.Along (·.mapVars C.rename) (ev.callFunction c graph node i)
      (ev'.callFunction c' (graph.map (·.mapVars C.rename)) (node.mapVars C.rename)
        (i.mapVars C.rename)) := by
  refine (along_evaluate hc i).bind fun t => ?_
  have hrows : (t.mapVars C.rename).rows.map Except.ok =
      (t.rows.map Except.ok).map (renameResult C.rename (·.mapVars C.rename)) := by
    rw [Table.mapVars, List.map_map, List.map_map]
    rfl
  rw [hrows]
  refine (along_extendSolutions hkeeps hev hc node _).bind fun rows => C.pure ?_
  have hvars : (rows.map (·.mapVars C.rename)).flatMap Binding.vars =
      (rows.flatMap Binding.vars).map C.rename := by
    rw [List.flatMap_map, List.map_flatMap]
    exact List.flatMap_congr fun b _ => b.vars_mapVars
  simp only [Inlined.mapVars, Table.mapVars, ExtendNode.mapVars, addVariable_map C.injective, hvars,
    unionVariables_map C.injective]

/-- The induction follows the pattern; each operator does the same on both sides. -/
theorem along_inlinePattern (graph : Option NamePattern) (p : Pattern) :
    C.Along (·.mapVars C.rename) (ev.inlinePattern c graph p)
      (ev'.inlinePattern c' (graph.map (·.mapVars C.rename)) (p.mapVars C.rename)) := by
  induction p generalizing graph with
  | extend p x e ih =>
    rw [Pattern.mapVars, ExtensionEvaluator.inlinePattern, ExtensionEvaluator.inlinePattern,
      BindExpression.ofExpr_mapVars]
    refine (ih graph).bind fun inner => ?_
    cases BindExpression.ofExpr e with
    | functionCall f arguments => exact along_callFunction hkeeps hev hc _ inner
    | builtIn e => exact along_extendBuiltIn hc x e inner
  | join l r ihl ihr =>
    refine (ihl graph).bind fun i => (ihr graph).bind fun j => ?_
    refine along_combine hc ?_ ?_ i j
    · exact fun _ _ => rfl
    intro s t
    refine C.pure ?_
    simp only [Table.mapVars, unionVariables_map C.injective, Join.join_mapVars C.injective]
  | leftJoin l r e ihl ihr =>
    have hoperator : ∀ p q : Pattern,
        Pattern.leftJoin (p.mapVars C.rename) (q.mapVars C.rename) (e.map (·.mapVars C.rename)) =
          (Pattern.leftJoin p q e).mapVars C.rename := by
      intro p q
      cases e <;> rfl
    rw [← hoperator, ExtensionEvaluator.inlinePattern, ExtensionEvaluator.inlinePattern]
    refine (ihl graph).bind fun i => (ihr graph).bind fun j =>
      along_combine hc hoperator (fun s t => ?_) i j
    refine (along_leftJoin hc hkeeps.row s.rows t.rows e).bind fun rows => C.pure ?_
    simp only [Table.mapVars, unionVariables_map C.injective]
  | minus l r ihl ihr =>
    refine (ihl graph).bind fun i => (ihr graph).bind fun j => ?_
    refine along_combine hc ?_ ?_ i j
    · exact fun _ _ => rfl
    intro s t
    refine C.pure ?_
    simp only [Table.mapVars, Join.minus_mapVars C.injective]
  | union l r ihl ihr =>
    refine (ihl graph).bind fun i => (ihr graph).bind fun j => ?_
    refine along_combine hc ?_ ?_ i j
    · exact fun _ _ => rfl
    intro s t
    refine C.pure ?_
    simp only [Table.mapVars, unionVariables_map C.injective, List.map_append]
  | graph name p ih => exact (ih (some name)).bind fun i => along_named hc name i
  | filter _ _ ih | orderBy _ _ ih | distinct _ ih | reduced _ ih | slice _ _ _ ih =>
    refine (ih graph).bind fun i => along_apply hc ?_ i
    exact fun _ => rfl
  | project p xs ih | group p xs aggregates ih =>
    refine (ih graph).bind fun i => along_apply hc (fun q => ?_) i
    rw [keepGraph_mapVars, Pattern.mapVars]
  | bgp _ | path _ _ _ | values _ _ | lateral _ _ _ _ | service _ _ _ _ => exact C.pure rfl

end Evaluators

/-! ## Whole queries -/

section Outcomes
variable {c c' : EvaluationContext} (hc : C.contexts c c')
include hc

theorem along_collectItems {α α' β β' : Type} {decode : α → β} {decode' : α' → β'} {f : α → α'}
    {g : β → β'} (h : ∀ a, decode' (f a) = g (decode a)) (items : List (Except EngineError α)) :
    C.Along (List.map g) (ExtensionEvaluator.collectItems c decode items)
      (ExtensionEvaluator.collectItems c' decode' (items.map (·.map f))) := by
  induction items with
  | nil => exact C.pure rfl
  | cons item rest ih =>
    rw [List.map_cons, ExtensionEvaluator.collectItems, ExtensionEvaluator.collectItems]
    refine C.bind (C.check hc) fun _ _ _ => (along_liftEngine f item).bind fun a =>
      ih.bind fun bs => C.pure ?_
    rw [h, List.map_cons]

end Outcomes

theorem along_execute (hkeeps : C.KeepsHelpers) {ev ev' : ExtensionEvaluator}
    (hev : C.Registries ev.registry ev'.registry) {c c' : EvaluationContext} {q : Query}
    (hc : C.contexts (c.forQuery q) (c'.forQuery (q.mapVars C.rename))) :
    C.Along (·.mapVars C.rename) (ev.execute c q) (ev'.execute c' (q.mapVars C.rename)) := by
  -- the inlined query has the form, the dataset and the base IRI of the query
  have hinline : C.rel
      (fun a b => ∃ p, a = { q with pattern := p } ∧
        b = { q.mapVars C.rename with pattern := p.mapVars C.rename })
      (ev.inlineWith (c.forQuery q) q)
      (ev'.inlineWith (c'.forQuery (q.mapVars C.rename)) (q.mapVars C.rename)) :=
    (along_inlinePattern hkeeps hev hc none q.pattern).bind_rel fun i =>
      C.pure ⟨i.toPattern, rfl, by rw [← i.toPattern_mapVars C.injective]⟩
  refine C.bind hinline ?_
  rintro _ _ ⟨p, rfl, rfl⟩
  refine (along_evaluateQuery hc q.form p).bind fun answer => ?_
  cases answer with
  | boolean b => exact C.pure rfl
  | solutions xs rows =>
    exact (along_collectItems hc (fun s => Skolem.decodeSolution_mapVars s) rows).bind fun rows =>
      C.pure rfl
  | graph triples =>
    have hsame : triples.map (·.map id) = triples := by simp
    have htriples : C.Along (List.map id)
        (ExtensionEvaluator.collectItems (c.forQuery q) Skolem.decodeTriple triples)
        (ExtensionEvaluator.collectItems (c'.forQuery (q.mapVars C.rename)) Skolem.decodeTriple
          (triples.map (·.map id))) := by
      refine along_collectItems hc ?_ triples
      exact fun _ => rfl
    rw [hsame, List.map_id_fun] at htriples
    exact htriples.bind fun ts => C.pure rfl

end Comparison

end SparqlBind
