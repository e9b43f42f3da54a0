import SparqlBind.Proofs.Inlining.Answers
import SparqlBind.Proofs.Inlining.Strictness
import SparqlBind.Proofs.Semantics.Forgetting

/-!
# Built-in `BIND`s on evaluated rows

A built-in `BIND` on a table is evaluated in two ways: by one query for the whole table, and row by
row with the target forgotten. The first way takes a row for failed when its target is unbound
afterwards, so a row that binds the target already is never failed, and its value may depend on what
was bound. The two ways agree where neither of it shows.
-/

noncomputable section

open scoped Classical

namespace SparqlBind

open EvaluationContext (valueVariable)

/-! ## Rows with the target set -/

/-- The rows with the target set, or the error of a `BIND` if there is no value for one of them. -/
def bindRows (x : Variable) (f : Mapping → Option Term) (rows : List Mapping) :
    Except EvaluationError (List Mapping) :=
  if ∀ μ ∈ rows, f μ ≠ none then .ok (rows.map fun μ => μ.extend x (f μ))
  else .error (.expression x)

section Rows

variable {x : Variable} {f g : Mapping → Option Term} {μ : Mapping} {rows : List Mapping}

theorem Mapping.extend_or_self (o : Option Term) : μ.extend x (o.or (μ x)) = μ.extend x o := by
  funext y
  rw [extend_apply, extend_apply, Option.or_assoc, Option.or_self]

theorem bindRows_cons_none (h : f μ = none) : bindRows x f (μ :: rows) = .error (.expression x) :=
  if_neg fun hall => hall μ List.mem_cons_self h

theorem bindRows_cons_some {v : Term} (h : f μ = some v) :
    bindRows x f (μ :: rows) = (bindRows x f rows).map (μ.set x v :: ·) := by
  have hall : (∀ ν ∈ μ :: rows, f ν ≠ none) ↔ ∀ ν ∈ rows, f ν ≠ none := by
    rw [List.forall_mem_cons]
    exact and_iff_right (h ▸ Option.some_ne_none v)
  unfold bindRows
  simp only [hall]
  split
  · rw [List.map_cons, h]
    rfl
  · rfl

/-- Values that a row is extended by can be read from it. -/
theorem map_extend_eq_iff (hf : ∀ μ ∈ rows, f μ ≠ none) (hg : ∀ μ ∈ rows, g μ ≠ none) :
    (rows.map fun μ => μ.extend x (f μ)) = (rows.map fun μ => μ.extend x (g μ)) ↔
      ∀ μ ∈ rows, f μ = g μ := by
  have hread {o : Option Term} (μ : Mapping) (ho : o ≠ none) : μ.extend x o x = o := by
    obtain ⟨v, rfl⟩ := Option.ne_none_iff_exists'.mp ho
    rw [Mapping.extend_apply, if_pos rfl, Option.some_or]
  rw [List.map_inj_left]
  refine forall₂_congr fun μ hμ => ⟨fun h => ?_, fun h => by rw [h]⟩
  have hx := congrFun h x
  rwa [hread μ (hf μ hμ), hread μ (hg μ hμ)] at hx

theorem bindRows_eq_iff : bindRows x f rows = bindRows x g rows ↔
    ((∃ μ ∈ rows, f μ = none) ∧ ∃ μ ∈ rows, g μ = none) ∨ ∀ μ ∈ rows, f μ = g μ := by
  have hsome {f : Mapping → Option Term} :
      (∀ μ ∈ rows, f μ ≠ none) ↔ ¬ ∃ μ ∈ rows, f μ = none := by
    simp only [not_exists, not_and, Ne]
  unfold bindRows
  by_cases hf : ∀ μ ∈ rows, f μ ≠ none
  · by_cases hg : ∀ μ ∈ rows, g μ ≠ none
    · rw [if_pos hf, if_pos hg, Except.ok.injEq, map_extend_eq_iff hf hg]
      exact (or_iff_right fun h => hsome.mp hf h.1).symm
    · rw [if_pos hf, if_neg hg]
      refine iff_of_false nofun ?_
      rintro (h | h)
      · exact hsome.mp hf h.1
      · exact hg fun μ hμ => h μ hμ ▸ hf μ hμ
  · by_cases hg : ∀ μ ∈ rows, g μ ≠ none
    · rw [if_neg hf, if_pos hg]
      refine iff_of_false nofun ?_
      rintro (h | h)
      · exact hsome.mp hg h.2
      · exact hf fun μ hμ => h μ hμ ▸ hg μ hμ
    · rw [if_neg hf, if_neg hg]
      rw [hsome, not_not] at hf hg
      exact iff_of_true rfl (.inl ⟨hf, hg⟩)

end Rows

/-! ## Values on a row -/

namespace Mapping

variable {value : Mapping → Option Term} {x : Variable} {μ : Mapping}

/-- The target of a row of which the engine was asked together with all others: without a value it
is what it was. -/
def askedTogether (value : Mapping → Option Term) (x : Variable) (μ : Mapping) : Option Term :=
  ((value μ.presented).map Skolem.decode).or (μ x)

/-- The value on a row of which the engine was asked alone. The row has lost the target, but may bind
the variable in which the value is sought. -/
def askedAlone (value : Mapping → Option Term) (x : Variable) (μ : Mapping) : Option Term :=
  ((value (μ.forget x).presented).or ((μ.forget x).presented valueVariable)).map Skolem.decode

theorem askedTogether_eq_none_iff :
    μ.askedTogether value x = none ↔ μ x = none ∧ value μ.presented = none := by
  rw [askedTogether, Option.or_eq_none_iff, Option.map_eq_none_iff, and_comm]

theorem askedAlone_eq (h : μ.forget x valueVariable = none) :
    μ.askedAlone value x = (value (μ.forget x).presented).map Skolem.decode := by
  have hhelper : (μ.forget x).presented valueVariable = none := by
    rw [presented, mapTerms, h, Option.map_none]
  rw [askedAlone, hhelper, Option.or_none]

/-- On a row that does not bind the target it makes no difference. -/
theorem askedAlone_eq_askedTogether (h : μ.forget x valueVariable = none) (hx : μ x = none) :
    μ.askedAlone value x = μ.askedTogether value x := by
  rw [askedAlone_eq h, forget_of_eq_none hx, askedTogether, hx, Option.or_none]

/-- Reading a written row and writing it again changes nothing. -/
theorem presented_decoded_presented : μ.presented.decoded.presented = μ.presented := by
  funext y
  unfold presented decoded mapTerms
  cases μ y with
  | none => rfl
  | some t =>
    refine congrArg some (Skolem.encode_decode fun label => ?_)
    cases t <;> simp [Skolem.encode, GroundTerm.toTerm]

end Mapping

/-! ## What the engine is asked -/

/-- The rows of an evaluated part. -/
def Inlined.mappings? : Inlined → Option (List Mapping)
  | pattern _ => none
  | solutions t => some t.mappings

namespace EvaluationContext

/-- The engine has an answer without failures for a pattern, with these rows in this order. -/
def Lists (context : EvaluationContext) (p : Pattern) (rows : List Mapping) : Prop :=
  ∃ (xs : List Variable) (solutions : List Solution),
    context.engine.answer context.store (context.query .select p) =
      .ok (.solutions xs (solutions.map .ok)) ∧
    solutions.map Solution.mapping = rows

/-- On the rows of the table the engine sets the target of an expression that has a value, and leaves
a row as it is otherwise: for all rows together, and for each of them alone and without the target. -/
structure Computes (context : EvaluationContext) (t : Table) (x : Variable) (e : Expr)
    (value : Mapping → Option Term) : Prop where
  together : context.Lists (.extend t.toPattern x e)
    (t.mappings.map fun μ => μ.presented.extend x (value μ.presented))
  alone : ∀ b ∈ t.rows, context.Lists (expressionPattern e (b.forget x))
    [((b.mapping.forget x).presented.extend valueVariable
      (value (b.mapping.forget x).presented)).restrict [valueVariable]]

variable {context : EvaluationContext} {p : Pattern} {ms : List Mapping}

theorem Lists.solutions (h : context.Lists p ms) :
    ∃ bs : List Binding, Evaluation.Reaches context.deadline (context.solutions p)
        (.ok (bs.map .ok)) ∧
      bs.map Binding.mapping = ms.map Mapping.decoded := by
  obtain ⟨xs, solutions, hanswer, rfl⟩ := h
  refine ⟨solutions.map bindingOfSolution, ?_, map_mapping_bindingOfSolution solutions⟩
  rw [solutions_of_answer hanswer]
  exact reaches_checkDeadline.bind_ok (Evaluation.reaches_pure _)

theorem Lists.rows (h : context.Lists p ms) :
    ∃ bs : List Binding, Evaluation.Reaches context.deadline (context.rows p) (.ok bs) ∧
      bs.map Binding.mapping = ms.map Mapping.decoded := by
  obtain ⟨bs, hbs, hrows⟩ := h.solutions
  refine ⟨bs, hbs.bind_ok ?_, hrows⟩
  rw [collect_ok]
  exact Evaluation.reaches_pure bs

theorem Lists.evaluateExpression {e : Expr} {b : Binding} {μ : Mapping}
    (h : context.Lists (expressionPattern e b) [μ]) :
    Evaluation.Reaches context.deadline (context.evaluateExpression e b)
      (.ok ((μ valueVariable).map Skolem.decode)) := by
  obtain ⟨bs, hbs, hrows⟩ := h.solutions
  obtain ⟨c, rfl, hc⟩ := List.map_eq_singleton_iff.mp hrows
  refine hbs.bind_ok ?_
  have hvalue : c.get? valueVariable = (μ valueVariable).map Skolem.decode := congrFun hc valueVariable
  rw [← hvalue]
  exact Evaluation.reaches_pure _

theorem Computes.evaluateExpression {t : Table} {x : Variable} {e : Expr}
    {value : Mapping → Option Term} (h : context.Computes t x e value) {b : Binding}
    (hb : b ∈ t.rows) :
    Evaluation.Reaches context.deadline (context.evaluateExpression e (b.forget x))
      (.ok (b.mapping.askedAlone value x)) := by
  have hvalue := (h.alone b hb).evaluateExpression
  rwa [Mapping.restrict, if_pos (List.mem_singleton.mpr rfl), Mapping.extend_apply, if_pos rfl]
    at hvalue

end EvaluationContext

/-! ## Row by row -/

namespace ExtendStep

variable {context : EvaluationContext} {t : Table} {x : Variable} {e : Expr}
variable {value : Mapping → Option Term} {state : ExtendState}

theorem reaches_apply_builtIn (h : context.Computes t x e value) {b : Binding} (hb : b ∈ t.rows)
    (hcontext : state.context = context) (htarget : state.node.target = x) :
    Evaluation.Reaches context.deadline ((builtIn e).apply state b)
      ((b.mapping.askedAlone value x).elim (.error (.expression x))
        fun v => .ok (state.push (b.set x v))) := by
  subst hcontext htarget
  refine (h.evaluateExpression hb).bind_ok ?_
  cases b.mapping.askedAlone value state.node.target with
  | some v => exact Evaluation.reaches_pure _
  | none => exact Evaluation.reaches_throw _

/-- The induction is on the rows that are left; those done stand before the others. -/
theorem reaches_run_builtIn (h : context.Computes t x e value) {rows : List Binding}
    (hrows : ∀ b ∈ rows, b ∈ t.rows) (hcontext : state.context = context)
    (htarget : state.node.target = x) :
    Evaluation.Reaches context.deadline
      ((fun s => s.results.toList.map Binding.mapping) <$> (builtIn e).run state (rows.map .ok))
      ((bindRows x (Mapping.askedAlone value x) (rows.map Binding.mapping)).map
        (state.results.toList.map Binding.mapping ++ ·)) := by
  induction rows generalizing state with
  | nil =>
    have hnil : bindRows x (Mapping.askedAlone value x) [] = .ok [] :=
      if_pos fun _ hμ => absurd hμ List.not_mem_nil
    rw [List.map_nil, List.map_nil, hnil, Except.map, List.append_nil]
    exact Evaluation.reaches_pure _
  | cons b rest ih =>
    have hcheck : Evaluation.Reaches context.deadline state.context.checkDeadline (.ok ()) :=
      hcontext ▸ EvaluationContext.reaches_checkDeadline
    have happly := reaches_apply_builtIn h (hrows b List.mem_cons_self) hcontext htarget
    have hrest := fun c hc => hrows c (List.mem_cons_of_mem _ hc)
    rw [List.map_cons, run, map_bind]
    refine hcheck.bind_ok ?_
    rw [map_bind]
    cases hv : b.mapping.askedAlone value x with
    | none =>
      rw [hv] at happly
      rw [List.map_cons, bindRows_cons_none hv]
      refine happly.bind (g := fun _ => .error (.expression x)) fun _ hok => ?_
      cases hok
    | some v =>
      rw [hv] at happly
      have hpushed : (state.push (b.set x v)).results.toList.map Binding.mapping =
          state.results.toList.map Binding.mapping ++ [b.mapping.set x v] := by
        rw [ExtendState.push, Array.toList_push, List.map_append, List.map_singleton,
          Binding.mapping_set]
      have hnext := @ih (state.push (b.set x v)) hrest hcontext htarget
      rw [hpushed] at hnext
      rw [List.map_cons, bindRows_cons_some hv]
      refine happly.bind_ok ?_
      cases hbound : bindRows x (Mapping.askedAlone value x) (rest.map Binding.mapping) with
      | error e => simpa only [hbound, Except.map] using hnext
      | ok ms => simpa only [hbound, Except.map, List.append_assoc, List.singleton_append] using hnext

end ExtendStep

/-! ## The two ways -/

namespace ExtensionEvaluator

variable {ev : ExtensionEvaluator} {context : EvaluationContext} {t : Table} {x : Variable} {e : Expr}
variable {value : Mapping → Option Term}

theorem reaches_extendBuiltIn_solutions (h : context.Computes t x e value) (he : e.isVar = false)
    (graph : Option NamePattern) :
    Evaluation.Reaches context.deadline
      (Inlined.mappings? <$> (Inlined.solutions t).extendBuiltIn context graph x e)
      ((bindRows x (Mapping.askedTogether value x) (t.mappings.map fun μ => μ.presented.decoded)).map
        some) := by
  obtain ⟨bs, hbs, hrows⟩ := h.together.rows
  have hread : bs.map Binding.mapping =
      (t.mappings.map fun μ => μ.presented.decoded).map fun μ =>
        μ.extend x (μ.askedTogether value x) := by
    rw [hrows, List.map_map, List.map_map]
    refine List.map_congr_left fun μ _ => ?_
    rw [Function.comp_apply, Function.comp_apply, Mapping.askedTogether, Mapping.extend_or_self,
      Mapping.presented_decoded_presented, Mapping.decoded_extend]
  have hall : bs.all (·.contains x) = true ↔
      ∀ μ ∈ t.mappings.map fun μ => μ.presented.decoded, μ.askedTogether value x ≠ none := by
    have hmapping : bs.all (·.contains x) = true ↔ ∀ μ ∈ bs.map Binding.mapping, μ x ≠ none := by
      rw [List.all_eq_true, List.forall_mem_map]
      exact forall₂_congr fun b _ => Option.isSome_iff_ne_none
    rw [hmapping, hread, List.forall_mem_map]
    refine forall₂_congr fun μ _ => ?_
    rw [Mapping.extend_apply, if_pos rfl, Mapping.askedTogether, Option.or_assoc, Option.or_self]
  rw [Inlined.extendBuiltIn_solutions, map_bind]
  refine hbs.bind_ok ?_
  rw [he]
  unfold bindRows
  by_cases hbound : bs.all (·.contains x) = true
  · rw [if_pos (hall.mp hbound), hbound]
    rw [← hread]
    exact (Evaluation.reaches_pure (Inlined.solutions ⟨_, bs⟩)).map Inlined.mappings?
  · rw [if_neg (hbound ∘ hall.mpr), Bool.eq_false_iff.mpr hbound]
    exact (Evaluation.reaches_throw _).map Inlined.mappings?

theorem reaches_extendSolutions_builtIn (h : context.Computes t x e value) (p : Pattern) :
    Evaluation.Reaches context.deadline
      (List.map Binding.mapping <$>
        ev.extendSolutions context ⟨p, x, .builtIn e⟩ (t.rows.map .ok))
      (bindRows x (Mapping.askedAlone value x) t.mappings) := by
  have hrun := @ExtendStep.reaches_run_builtIn context t x e value
    (.start context ⟨p, x, .builtIn e⟩) h t.rows (fun _ hb => hb) rfl rfl
  have hstart : (bindRows x (Mapping.askedAlone value x) t.mappings).map
      ([] ++ ·) = bindRows x (Mapping.askedAlone value x) t.mappings := by
    cases bindRows x (Mapping.askedAlone value x) t.mappings <;> rfl
  have hresults : List.map Binding.mapping <$>
      ev.extendSolutions context ⟨p, x, .builtIn e⟩ (t.rows.map .ok) =
        (fun s => s.results.toList.map Binding.mapping) <$>
          (ExtendStep.builtIn e).run (.start context ⟨p, x, .builtIn e⟩) (t.rows.map .ok) := by
    simp only [extendSolutions, ExtendStep.ofNode, pure_bind, map_eq_pure_bind, bind_assoc]
  rw [hresults, ← hstart]
  exact hrun

/-- Both ways end with the rows or with the error of the `BIND`, in time or too late. On rows that the
engine gives back as they are, of which none binds the variable that the value is sought in, they end
alike exactly when some row has neither value nor target, or when each row that binds the target has
the same value without it. -/
theorem extendBuiltIn_extendSolutions (h : context.Computes t x e value) (he : e.isVar = false)
    (graph : Option NamePattern) (p : Pattern) :
    Evaluation.Reaches context.deadline
      (Inlined.mappings? <$> (Inlined.solutions t).extendBuiltIn context graph x e)
      ((bindRows x (Mapping.askedTogether value x) (t.mappings.map fun μ => μ.presented.decoded)).map
        some) ∧
    Evaluation.Reaches context.deadline
      (List.map Binding.mapping <$>
        ev.extendSolutions context ⟨p, x, .builtIn e⟩ (t.rows.map .ok))
      (bindRows x (Mapping.askedAlone value x) t.mappings) ∧
    ((∀ μ ∈ t.mappings, μ.Unreserved ∧ μ.forget x valueVariable = none) →
      (bindRows x (Mapping.askedTogether value x) (t.mappings.map fun μ => μ.presented.decoded) =
          bindRows x (Mapping.askedAlone value x) t.mappings ↔
        (∃ μ ∈ t.mappings, μ x = none ∧ value μ.presented = none) ∨
        ∀ μ ∈ t.mappings, μ x ≠ none →
          (value (μ.forget x).presented).map Skolem.decode =
            ((value μ.presented).map Skolem.decode).or (μ x))) := by
  refine ⟨reaches_extendBuiltIn_solutions h he graph, reaches_extendSolutions_builtIn h p,
    fun hrows => ?_⟩
  have hread : (t.mappings.map fun μ => μ.presented.decoded) = t.mappings :=
    (List.map_congr_left fun μ hμ => (hrows μ hμ).1.decoded_presented).trans (List.map_id _)
  rw [hread, bindRows_eq_iff]
  constructor
  · rintro (⟨⟨μ, hμ, hnone⟩, _⟩ | hall)
    · exact .inl ⟨μ, hμ, Mapping.askedTogether_eq_none_iff.mp hnone⟩
    · exact .inr fun μ hμ _ => (Mapping.askedAlone_eq (hrows μ hμ).2).symm.trans (hall μ hμ).symm
  · rintro (⟨μ, hμ, hx, hnone⟩ | hall)
    · have htogether := Mapping.askedTogether_eq_none_iff.mpr ⟨hx, hnone⟩
      have halone : μ.askedAlone value x = μ.askedTogether value x :=
        Mapping.askedAlone_eq_askedTogether (hrows μ hμ).2 hx
      exact .inl ⟨⟨μ, hμ, htogether⟩, μ, hμ, halone.trans htogether⟩
    · refine .inr fun μ hμ => ?_
      by_cases hx : μ x = none
      · exact (Mapping.askedAlone_eq_askedTogether (hrows μ hμ).2 hx).symm
      · exact ((Mapping.askedAlone_eq (hrows μ hμ).2).trans (hall μ hμ hx)).symm

end ExtensionEvaluator

namespace Sample

/-- A name with the target of a `BIND` set already, and one without. -/
def stale : Binding := ⟨[(object, .literal (.plain "v")), (target, .literal (.plain "old"))]⟩

def fresh : Binding := ⟨[(object, .literal (.plain "w"))]⟩

def upper : Expr := .call (.builtIn .upper) [.var object]

/-- The answer to the question about one row. -/
def answered (o : Option Term) : Solution := ⟨[(valueVariable, o)]⟩

theorem mapping_answered {μ : Mapping} {o : Option Term} (h : μ valueVariable = o) :
    (answered o).mapping = μ.restrict [valueVariable] := by
  have hanswered : answered o = .ofMapping [valueVariable] (μ.restrict [valueVariable]) := by
    subst h
    rfl
  rw [hanswered]
  exact Solution.mapping_ofMapping (List.nodup_singleton _) (Mapping.within_restrict _)

theorem mapping_extended {b : Binding} (hb : b.vars.Nodup) (x : Variable) (t : Term) :
    ((b.mapTerms fun t => (Skolem.encode t).toTerm).set x t).mapping =
      b.mapping.presented.extend x (some t) := by
  rw [Binding.mapping_set, Binding.mapping_mapTerms _ hb]
  rfl

theorem computes_upper : (stored []).Computes ⟨[object, target], [stale, fresh]⟩ target upper
    ((semantics []).value upper) where
  together := by
    refine ⟨[object, target], [
      ⟨[(object, some (.literal (.plain "v"))), (target, some (.literal (.plain "V")))]⟩,
      ⟨[(object, some (.literal (.plain "w"))), (target, some (.literal (.plain "W")))]⟩], rfl, ?_⟩
    exact congrArg₂ (fun μ ν => [μ, ν])
      (mapping_extended (b := stale) (by decide) target (.literal (.plain "V")))
      (mapping_extended (b := fresh) (by decide) target (.literal (.plain "W")))
  alone b hb := by
    rcases List.mem_cons.mp hb with rfl | hb
    · exact ⟨[valueVariable], [answered (some (.literal (.plain "V")))], rfl,
        congrArg (fun μ => [μ]) (mapping_answered rfl)⟩
    · obtain rfl := List.mem_singleton.mp hb
      exact ⟨[valueVariable], [answered (some (.literal (.plain "W")))], rfl,
        congrArg (fun μ => [μ]) (mapping_answered rfl)⟩

end Sample

open Sample in
/-- The value that a row binds the target to does not matter for an expression that has another one. -/
theorem ExtensionEvaluator.extendBuiltIn_extendSolutions_upper :
    stale.mapping target ≠ none ∧ upper.isVar = false ∧
    Evaluation.Reaches none (Inlined.mappings? <$>
      (Inlined.solutions ⟨[object, target], [stale, fresh]⟩).extendBuiltIn (stored []) none target upper)
      (.ok (some [stale.mapping.set target (.literal (.plain "V")),
        fresh.mapping.set target (.literal (.plain "W"))])) ∧
    Evaluation.Reaches none (List.map Binding.mapping <$>
      evaluator.extendSolutions (stored []) ⟨.bgp [], target, .builtIn upper⟩ [.ok stale, .ok fresh])
      (.ok [stale.mapping.set target (.literal (.plain "V")),
        fresh.mapping.set target (.literal (.plain "W"))]) := by
  obtain ⟨htogether, halone, hagree⟩ := @ExtensionEvaluator.extendBuiltIn_extendSolutions
    evaluator _ _ _ _ _ computes_upper rfl none (.bgp [])
  have hunreserved : ∀ b ∈ [stale, fresh], ∀ e ∈ b.entries, e.2.isReserved = false := by decide
  have hrows : ∀ μ ∈ Table.mappings ⟨[object, target], [stale, fresh]⟩,
      μ.Unreserved ∧ μ.forget target valueVariable = none := by
    refine List.forall_mem_map.mpr fun b hb => ⟨Binding.unreserved_mapping (hunreserved b hb), ?_⟩
    rcases List.mem_cons.mp hb with rfl | hb
    · rfl
    · exact List.mem_singleton.mp hb ▸ rfl
  have hvalues : ∀ μ ∈ Table.mappings ⟨[object, target], [stale, fresh]⟩, μ target ≠ none →
      ((semantics []).value upper (μ.forget target).presented).map Skolem.decode =
        (((semantics []).value upper μ.presented).map Skolem.decode).or (μ target) := by
    refine List.forall_mem_map.mpr fun b hb _ => ?_
    rcases List.mem_cons.mp hb with rfl | hb
    · rfl
    · exact List.mem_singleton.mp hb ▸ rfl
  have hbound : bindRows target (Mapping.askedAlone ((semantics []).value upper) target)
      (Table.mappings ⟨[object, target], [stale, fresh]⟩) =
        .ok [stale.mapping.set target (.literal (.plain "V")),
          fresh.mapping.set target (.literal (.plain "W"))] := by
    refine if_pos (List.forall_mem_map.mpr fun b hb => ?_)
    rcases List.mem_cons.mp hb with rfl | hb
    · exact Option.some_ne_none _
    · exact List.mem_singleton.mp hb ▸ Option.some_ne_none _
  rw [(hagree hrows).mpr (.inr hvalues), hbound] at htogether
  rw [hbound] at halone
  exact ⟨nofun, rfl, htogether, halone⟩

namespace Sample

/-- A function that binds a variable besides its target. -/
def noting : ExtensionFunction :=
  ⟨fun state b => pure (state.push
    ((b.set state.node.target (.literal (.plain "v"))).set subject (.literal (.plain "more"))))⟩

def noted : Binding :=
  ⟨[(object, .literal (.plain "v")), (target, .literal (.plain "v")), (subject, .literal (.plain "more"))]⟩

def notes : Table := ⟨[object, target, subject], [noted]⟩

theorem computes_increased : (stored []).Computes notes subject increased fun _ => none where
  together := by
    refine ⟨[object, target, subject], [⟨noted.entries.map fun e => (e.1, some e.2)⟩], rfl, ?_⟩
    exact congrArg (fun μ => [μ]) (Binding.mapping_mapTerms (fun t => (Skolem.encode t).toTerm)
      (b := noted) (by decide))
  alone b hb := by
    obtain rfl := List.mem_singleton.mp hb
    exact ⟨[valueVariable], [answered none], rfl, congrArg (fun μ => [μ]) (mapping_answered rfl)⟩

def truth (b : Bool) : Term := .literal (.ofBool b)

theorem computes_bound : (stored []).Computes notes subject (.bound subject)
    fun μ => some (truth (μ subject).isSome) where
  together := by
    refine ⟨[object, target, subject],
      [⟨(noted.set subject (truth true)).entries.map fun e => (e.1, some e.2)⟩], rfl, ?_⟩
    exact congrArg (fun μ => [μ]) (mapping_extended (b := noted) (by decide) subject (truth true))
  alone b hb := by
    obtain rfl := List.mem_singleton.mp hb
    exact ⟨[valueVariable], [answered (some (truth false))], rfl,
      congrArg (fun μ => [μ]) (mapping_answered rfl)⟩

end Sample

open Sample in
/-- On a row that binds the target, an expression without value goes unnoticed, and an expression about
the target has another value. -/
theorem ExtensionEvaluator.extendBuiltIn_extendSolutions_differ :
    (ExtensionEvaluator.mk ⟨[(concat.text, noting)]⟩).inlinePattern (stored []) none
      (.extend (cell object (text "v")) target (concatText "a")) = pure (.solutions notes) ∧
    ((stored []).Computes notes subject increased (fun _ => none) ∧ increased.isVar = false ∧
      (Inlined.solutions notes).extendBuiltIn (stored []) none subject increased =
        pure (.solutions ⟨[subject, object, target], notes.rows⟩) ∧
      (ExtensionEvaluator.mk ⟨[(concat.text, noting)]⟩).extendSolutions (stored [])
        ⟨.extend (cell object (text "v")) target (concatText "a"), subject, .builtIn increased⟩
        (notes.rows.map .ok) = throw (.expression subject)) ∧
    (stored []).Computes notes subject (.bound subject) (fun μ => some (truth (μ subject).isSome)) ∧
    (Inlined.solutions notes).extendBuiltIn (stored []) none subject (.bound subject) =
      pure (.solutions ⟨[subject, object, target], [noted.set subject (truth true)]⟩) ∧
    (ExtensionEvaluator.mk ⟨[(concat.text, noting)]⟩).extendSolutions (stored [])
      ⟨.extend (cell object (text "v")) target (concatText "a"), subject, .builtIn (.bound subject)⟩
      (notes.rows.map .ok) = pure [noted.set subject (truth false)] := by
  refine ⟨?_, ⟨computes_increased, rfl, ?_, ?_⟩, computes_bound, ?_, ?_⟩
  · rfl
  · rfl
  · rfl
  · rfl
  · rfl

end SparqlBind

end
