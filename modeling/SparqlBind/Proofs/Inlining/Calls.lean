import SparqlBind.Proofs.Inlining.Questions

/-!
# Calls of scalar functions

A scalar function is applied row by row, its arguments one by one. The rows it leaves behind are the
extended rows of the reference evaluation, and the first argument without value, refusal or unknown
function ends the evaluation where the reference evaluation has no result.
-/

noncomputable section

open scoped Classical

namespace SparqlBind

variable {context : EvaluationContext} {sem : Semantics}

namespace ScalarFunction

theorem argument?_of_not_isDirect {a : Expr} {b : Binding} (h : Semantics.isDirect a = false) :
    argument? context b a = context.evaluateExpression a b := by
  cases a with
  | var x => cases h
  | constant t => cases h
  | binary op l r => rfl
  | unary op a => rfl
  | oneOf a candidates => rfl
  | existence p => rfl
  | bound x => rfl
  | cond c l r => rfl
  | coalesce arguments => rfl
  | call f arguments => rfl

/-- What a row and the arguments of a call must have in common for the arguments to be evaluated as
if the row were not written to a table. -/
structure Callable (context : EvaluationContext) (sem : Semantics) (arguments : List Expr)
    (b : Binding) : Prop where
  nodup : b.vars.Nodup
  free : b.get? EvaluationContext.valueVariable = none
  evaluates : ∀ a ∈ arguments, Semantics.isDirect a = false → context.Evaluates sem a
  insensitive : ∀ a ∈ arguments, Semantics.isDirect a = false →
    (sem.value a b.mapping.presented).map Skolem.decode = sem.value a b.mapping

theorem Callable.tail {a : Expr} {rest : List Expr} {b : Binding}
    (h : Callable context sem (a :: rest) b) : Callable context sem rest b :=
  ⟨h.nodup, h.free, fun e he => h.evaluates e (List.mem_cons_of_mem _ he),
    fun e he => h.insensitive e (List.mem_cons_of_mem _ he)⟩

theorem agrees_call (f : ScalarFunction) (terms : List Term) :
    Evaluation.Agrees (f.call terms) (f.result? terms) Eq := by
  unfold call result?
  cases f.value terms with
  | ok t => exact Evaluation.agrees_pure rfl
  | error message => exact Evaluation.agrees_throw _

section Engine
variable (hd : context.deadline = none)
include hd

theorem argument?_eq {a : Expr} {rest : List Expr} {b : Binding}
    (h : Callable context sem (a :: rest) b) : argument? context b a = pure (sem.value a b.mapping) := by
  cases hdirect : Semantics.isDirect a with
  | false =>
    rw [argument?_of_not_isDirect hdirect, EvaluationContext.evaluateExpression_eq hd
      (h.evaluates a List.mem_cons_self hdirect) h.nodup h.free,
      h.insensitive a List.mem_cons_self hdirect]
  | true =>
    cases a with
    | var x => exact congrArg pure (sem.value_var x b.mapping).symm
    | constant t => exact congrArg pure (sem.value_constant t b.mapping).symm
    | _ => cases hdirect

theorem agrees_arguments (f : ScalarFunction) {arguments : List Expr} {b : Binding}
    (h : Callable context sem arguments b) (position : Nat) :
    Evaluation.Agrees (f.arguments context b position arguments)
      (sem.arguments? arguments b.mapping) Eq := by
  induction arguments generalizing position with
  | nil => exact Evaluation.agrees_pure rfl
  | cons a rest ih =>
    have hrest : sem.arguments? (a :: rest) b.mapping = (sem.value a b.mapping).bind fun t =>
        (sem.arguments? rest b.mapping).bind fun ts => some (t :: ts) := List.mapM_cons
    rw [arguments, argument?_eq hd h, pure_bind, hrest]
    cases sem.value a b.mapping with
    | none => exact Evaluation.agrees_throw _
    | some t =>
      refine (ih h.tail (position + 1)).bind fun ts ts' _ hts => ?_
      exact Evaluation.agrees_pure (congrArg (t :: ·) hts)

/-- One row of a call. -/
theorem agrees_apply (f : ScalarFunction) {state : ExtendState} {i : Iri} {arguments : List Expr}
    {b : Binding} (hcontext : state.context = context)
    (hnode : state.node.expression = .functionCall i arguments) (h : Callable context sem arguments b) :
    Evaluation.Agrees (f.toExtension.apply state b)
      ((sem.arguments? arguments b.mapping).bind f.result?)
      fun after t => after = state.push (b.set state.node.target t) := by
  unfold toExtension
  simp only [hcontext, hnode, argumentExprs]
  refine (agrees_arguments hd f h 0).bind fun terms terms' _ hterms => ?_
  subst hterms
  exact (agrees_call f terms).map fun t t' _ ht => by rw [ht]

/-- A call on all rows: what is pushed are the extended rows. -/
theorem agrees_run (f : ScalarFunction) {i : Iri} {arguments : List Expr} {rows : List Binding}
    (h : ∀ b ∈ rows, Callable context sem arguments b) {state : ExtendState}
    (hcontext : state.context = context)
    (hnode : state.node.expression = .functionCall i arguments) :
    Evaluation.Agrees ((ExtendStep.function f.toExtension).run state (rows.map .ok))
      (Bag.extend? state.node.target (fun μ => (sem.arguments? arguments μ).bind f.result?)
        (Bag.ofRows rows))
      fun after B => ∃ pushed : List Binding, after.results.toList = state.results.toList ++ pushed ∧
        Bag.ofRows pushed = B ∧ DistinctVars pushed := by
  induction rows generalizing state with
  | nil =>
    refine Evaluation.agrees_pure ⟨[], (List.append_nil _).symm, rfl, fun b hb => ?_⟩
    exact absurd hb List.not_mem_nil
  | cons b rest ih =>
    have hcons : Bag.ofRows (b :: rest) = b.mapping ::ₘ Bag.ofRows rest := rfl
    rw [List.map_cons, ExtendStep.run, hcontext, EvaluationContext.settled_checkDeadline hd,
      pure_bind, hcons, Bag.extend?_cons]
    have hb := h b List.mem_cons_self
    refine (agrees_apply hd f hcontext hnode hb).bind fun after t _ hafter => ?_
    subst hafter
    have hcontext' : (state.push (b.set state.node.target t)).context = context := hcontext
    refine (ih (fun c hc => h c (List.mem_cons_of_mem _ hc)) hcontext' hnode).bind_some ?_
    rintro last B ⟨pushed, hresults, rfl, hdistinct⟩
    refine ⟨b.set state.node.target t :: pushed, ?_, ?_, ?_⟩
    · rw [hresults, ExtendState.push, Array.toList_push, List.append_assoc, List.singleton_append]
    · rw [← Binding.mapping_set]
      rfl
    · intro c hc
      rcases List.mem_cons.mp hc with rfl | hc
      · exact Binding.nodup_set hb.nodup
      · exact hdistinct c hc

end Engine

end ScalarFunction

namespace ExtensionEvaluator

variable {p : Pattern} {x : Variable} {i : Iri} {arguments : List Expr} {rows : List Binding}

/-- A call of a registered function on evaluated rows. -/
theorem agrees_extendSolutions {ev : ExtensionEvaluator} (hd : context.deadline = none)
    {f : ScalarFunction} (hf : ev.registry.lookup i = some f.toExtension)
    (h : ∀ b ∈ rows, ScalarFunction.Callable context sem arguments b) :
    Evaluation.Agrees
      (ev.extendSolutions context ⟨p, x, .functionCall i arguments⟩ (rows.map .ok))
      ((Bag.ofRows rows).extend? x fun μ => (sem.arguments? arguments μ).bind f.result?)
      fun extended B => Bag.ofRows extended = B ∧ DistinctVars extended := by
  unfold extendSolutions ExtendStep.ofNode
  simp only [hf, pure_bind]
  refine (ScalarFunction.agrees_run hd f h rfl rfl).map ?_
  rintro state B _ ⟨pushed, hresults, hbag, hdistinct⟩
  have hpushed : state.results.toList = pushed := hresults
  rw [hpushed]
  exact ⟨hbag, hdistinct⟩

/-- A call that is resolved by a registry of scalar functions. -/
theorem agrees_bind? (hd : context.deadline = none) (functions : ScalarFunctions)
    (h : ∀ b ∈ rows, ScalarFunction.Callable context sem arguments b) :
    Evaluation.Agrees
      ((ExtensionEvaluator.mk (Registry.ofScalars functions)).extendSolutions context
        ⟨p, x, .functionCall i arguments⟩ (rows.map .ok))
      (sem.bind? functions x (Bag.ofRows rows) (.functionCall i arguments))
      fun extended B => Bag.ofRows extended = B ∧ DistinctVars extended := by
  have hlookup := Registry.lookup_ofScalars functions i
  rw [Semantics.bind?]
  cases hf : functions.lookup i.text with
  | none =>
    rw [hf, Option.map_none] at hlookup
    unfold extendSolutions ExtendStep.ofNode
    simp only [hlookup]
    exact Evaluation.agrees_throw _
  | some f =>
    rw [hf, Option.map_some] at hlookup
    exact agrees_extendSolutions hd hlookup h

end ExtensionEvaluator

end SparqlBind

end
