import SparqlBind.Proofs.Inlining.Calls
import SparqlBind.Proofs.Semantics.Places

/-!
# Inlining follows the reference evaluation

A part is either left to the engine or evaluated to a table, and each operator has to be right for
both. Inlined step by step, a pattern stays in agreement with its reference evaluation in the graphs
of a name: a part left to the engine calls nothing, and a table holds the rows of the evaluation.
-/

noncomputable section

open scoped Classical

namespace SparqlBind

variable {context : EvaluationContext} {sem : Semantics} {functions : ScalarFunctions}
variable {name : Option NamePattern} {rowWise : Bool}

namespace Semantics

/-- What is asked of the variables and the rows of a pattern that stands under a graph name. -/
structure Suitable (sem : Semantics) (functions : ScalarFunctions) (name : Option NamePattern)
    (p : Pattern) : Prop where
  fresh : ∀ x ∈ p.vars, Untagged name x
  noRow : Join.rowVariable ∉ p.vars
  noValue : EvaluationContext.valueVariable ∉ p.vars
  nameNotValue : EvaluationContext.valueVariable ∉ Pattern.graphVariables name
  presentable : sem.Presentable functions (sem.under name) p

namespace Suitable

variable {p q l r : Pattern}

theorem of_child (h : sem.Suitable functions name p) (hq : q ∈ p.children) :
    sem.Suitable functions name q where
  fresh x hx := h.fresh x (Pattern.vars_of_child hq hx)
  noRow hx := h.noRow (Pattern.vars_of_child hq hx)
  noValue hx := h.noValue (Pattern.vars_of_child hq hx)
  nameNotValue := h.nameNotValue
  presentable := h.presentable.of_child hq

/-- No row of the evaluation binds the variable in which values are asked for. -/
theorem value_free (h : sem.Suitable functions name p) {A : Bag}
    (hA : sem.reference functions (sem.under name) p = some A) {b : Binding}
    (hb : b.mapping ∈ A) : b.get? EvaluationContext.valueVariable = none := by
  by_contra hne
  rcases (scoped_under name).reference_within hA b.mapping hb _ hne with hx | hx
  · exact h.noValue (Pattern.mem_vars_of_mentions hx)
  · exact h.nameNotValue hx

/-- A target that is not in scope is not bound below its `BIND`. -/
theorem unbound {x : Variable} {e : Expr} (h : sem.Suitable functions name (.extend p x e))
    {A : Bag} (hA : sem.reference functions (sem.under name) p = some A) (hx : x ∉ p.mentions) :
    ∀ μ ∈ A, μ x = none := by
  intro μ hμ
  by_contra hne
  rcases (scoped_under name).reference_within hA μ hμ x hne with hm | hm
  · exact hx hm
  · exact h.fresh x List.mem_cons_self hm

end Suitable

end Semantics

/-! ## Operators on tables -/

namespace Table.Represents

variable {s t : Table} {A B : Bag}

theorem join (hs : s.Represents A) (ht : t.Represents B) :
    Table.Represents ⟨unionVariables s.vars t.vars, Join.join s.rows t.rows⟩ (A.join B) where
  covers := hs.covers.join ht.covers
  distinctVars := Join.distinctVars_join hs.distinctVars
  rows := by rw [← hs.rows, ← ht.rows, ← Join.ofRows_join hs.distinctVars ht.distinctVars]

theorem union (hs : s.Represents A) (ht : t.Represents B) :
    Table.Represents ⟨unionVariables s.vars t.vars, s.rows ++ t.rows⟩ (A + B) where
  covers := hs.covers.union ht.covers
  distinctVars b hb := (List.mem_append.mp hb).elim (hs.distinctVars b) (ht.distinctVars b)
  rows := by rw [← hs.rows, ← ht.rows, ← Bag.ofRows_append]

theorem minus (hs : s.Represents A) (ht : t.Represents B) :
    Table.Represents ⟨s.vars, Join.minus s.rows t.rows⟩ (A.minus B) where
  covers := hs.covers.minus t.rows
  distinctVars := Join.distinctVars_minus hs.distinctVars
  rows := by rw [← hs.rows, ← ht.rows, ← Join.ofRows_minus hs.distinctVars]

/-- An optional part. The condition is asked of all candidate rows at once, as a table holds them. -/
theorem leftJoin_presented (hd : context.deadline = none) {e : Option Expr}
    (he : ∀ c ∈ e, context.Evaluates sem c) (hignores : ∀ c ∈ e, sem.Ignores Join.rowVariable c)
    (hs : s.Represents A) (ht : t.Represents B) :
    ∃ rows, Join.leftJoin context s.rows t.rows e = pure rows ∧
      Table.Represents ⟨unionVariables s.vars t.vars, rows⟩
        (A.leftJoin (fun μ => sem.condition e μ.presented) B) := by
  have hflags : ∀ rows : List Binding, Join.flags context rows e =
      pure (rows.map fun b => sem.condition e b.mapping.presented) := by
    intro rows
    cases e with
    | none => rfl
    | some c => exact Join.satisfied_eq hd (he c rfl) (hignores c rfl)
  have hrows := Join.leftJoin_eq context s.rows t.rows e
  simp only [hflags, pure_bind] at hrows
  have hyields := Evaluation.yields_of_eq_pure hrows
  refine ⟨_, hrows, hs.covers.leftJoin ht.covers hyields,
    Join.distinctVars_keepMatched hs.distinctVars, ?_⟩
  rw [← hs.rows, ← ht.rows]
  exact Join.ofRows_keepMatched hs.distinctVars ht.distinctVars fun _ _ => rfl

theorem leftJoin (hd : context.deadline = none) {e : Option Expr}
    (he : ∀ c ∈ e, context.Evaluates sem c) (hignores : ∀ c ∈ e, sem.Ignores Join.rowVariable c)
    (hinsensitive : ∀ μ ∈ A, ∀ ν ∈ B, μ.Compatible ν →
      sem.condition e (μ.merge ν).presented = sem.condition e (μ.merge ν))
    (hs : s.Represents A) (ht : t.Represents B) :
    ∃ rows, Join.leftJoin context s.rows t.rows e = pure rows ∧
      Table.Represents ⟨unionVariables s.vars t.vars, rows⟩
        (A.leftJoin (sem.condition e) B) := by
  have hjoin : A.leftJoin (fun μ => sem.condition e μ.presented) B = A.leftJoin (sem.condition e) B :=
    Bag.leftJoin_congr hinsensitive
  exact hjoin ▸ hs.leftJoin_presented hd he hignores ht

/-- A condition on the rows, as a table holds them. -/
theorem filter_presented (hd : context.deadline = none) {e : Expr} (he : context.Evaluates sem e)
    (hfree : A.Unreserved) (ht : t.Represents A) :
    ∃ u, (Inlined.solutions t).apply context (.filter e) = pure (.solutions u) ∧
      u.Represents (A.select fun μ => sem.holds e μ.presented) := by
  obtain ⟨rows, hrows, hrep⟩ := EvaluationContext.rows_operator hd ht.covers (he _ (.filter t))
    (F := fun C => C.select (sem.holds e)) rfl
  rw [ht.rows, Bag.select_presented_eq hfree] at hrep
  refine ⟨⟨(Pattern.filter e t.toPattern).inScope, rows⟩, ?_, hrep⟩
  rw [Inlined.apply, hrows, pure_bind]

theorem filter (hd : context.deadline = none) {e : Expr} (he : context.Evaluates sem e)
    (hfree : A.Unreserved) (hinsensitive : ∀ μ ∈ A, sem.holds e μ.presented = sem.holds e μ)
    (ht : t.Represents A) :
    ∃ u, (Inlined.solutions t).apply context (.filter e) = pure (.solutions u) ∧
      u.Represents (A.select (sem.holds e)) := by
  have hselect : A.select (fun μ => sem.holds e μ.presented) = A.select (sem.holds e) :=
    Multiset.filter_congr fun μ hμ => by simp only [hinsensitive μ hμ]
  exact hselect ▸ ht.filter_presented hd he hfree

/-- A built-in `BIND` on the rows, as a table holds them. Afterwards the target is looked for in each
of the rows. -/
theorem extendBuiltIn_decoded (hd : context.deadline = none) {x : Variable} {e : Expr}
    (he : context.Evaluates sem e) (ht : t.Represents A) {B : Bag}
    (hB : (A.presented.extend x (sem.value e)).decoded = B) :
    Evaluation.Agrees ((Inlined.solutions t).extendBuiltIn context name x e)
      (if e.isVar then some B else B.binding? x) fun i B => ∃ u, i = .solutions u ∧ u.Represents B := by
  obtain ⟨rows, hrows, hrep⟩ := EvaluationContext.rows_operator hd ht.covers (he _ (.extend t x))
    (F := fun C => C.extend x (sem.value e)) rfl
  rw [ht.rows, hB] at hrep
  rw [Inlined.extendBuiltIn_solutions, hrows, pure_bind]
  cases hvar : e.isVar with
  | true =>
    rw [if_neg (by simp), if_pos rfl]
    exact Evaluation.agrees_pure ⟨_, rfl, hrep⟩
  | false =>
    rw [if_neg Bool.false_ne_true]
    have hall : rows.all (·.contains x) = true ↔ ∀ μ ∈ B, μ x ≠ none := by
      rw [← hrep.rows, Bag.forall_mem_ofRows, List.all_eq_true]
      refine forall₂_congr fun b _ => ?_
      rw [Binding.contains_iff_mem_vars, ← Binding.get?_ne_none_iff]
      rfl
    cases hbound : rows.all (·.contains x) with
    | true =>
      rw [if_neg (by simp), Bag.binding?, if_pos (hall.mp hbound)]
      exact Evaluation.agrees_pure ⟨_, rfl, hrep⟩
    | false =>
      have hfail : ¬ ∀ μ ∈ B, μ x ≠ none := fun h => by simp [hall.mpr h] at hbound
      rw [if_pos (by simp), Bag.binding?, if_neg hfail]
      exact Evaluation.agrees_throw _

/-- A target that is not bound below shows whether there is a value for each of the rows. -/
theorem extendBuiltIn_presented (hd : context.deadline = none) {x : Variable} {e : Expr}
    (he : context.Evaluates sem e) (hfree : A.Unreserved)
    (hx : e.isVar = false → ∀ μ ∈ A, μ x = none) (ht : t.Represents A) :
    Evaluation.Agrees ((Inlined.solutions t).extendBuiltIn context name x e)
      (if e.isVar then some (A.extend x fun μ => (sem.value e μ.presented).map Skolem.decode)
        else A.extend? x fun μ => (sem.value e μ.presented).map Skolem.decode)
      fun i B => ∃ u, i = .solutions u ∧ u.Represents B := by
  have hextend : Evaluation.Agrees ((Inlined.solutions t).extendBuiltIn context name x e) _
      fun i B => ∃ u, i = .solutions u ∧ u.Represents B :=
    ht.extendBuiltIn_decoded hd he (Bag.extend_presented_eq hfree)
  cases hvar : e.isVar with
  | true => rwa [hvar] at hextend
  | false => rwa [hvar, if_neg Bool.false_ne_true, ← Bag.extend?_eq_binding? (hx hvar)] at hextend

theorem extendBuiltIn (hd : context.deadline = none) {x : Variable} {e : Expr}
    (he : context.Evaluates sem e) (hfree : A.Unreserved)
    (hinsensitive : ∀ μ ∈ A, (sem.value e μ.presented).map Skolem.decode = sem.value e μ)
    (hx : e.isVar = false → ∀ μ ∈ A, μ x = none) (ht : t.Represents A) :
    Evaluation.Agrees ((Inlined.solutions t).extendBuiltIn context name x e)
      (sem.bind? functions x A (.builtIn e)) fun i B => ∃ u, i = .solutions u ∧ u.Represents B := by
  rw [Semantics.bind?_builtIn, ← Bag.extend_congr hinsensitive, ← Bag.extend?_congr hinsensitive]
  exact ht.extendBuiltIn_presented hd he hfree hx

/-- The rows of a call. -/
theorem called (ht : t.Represents A) (x : Variable) {rows : List Binding}
    (hrows : Bag.ofRows rows = B) (hdistinct : DistinctVars rows) :
    Table.Represents
      ⟨unionVariables (addVariable t.vars x) (rows.flatMap Binding.vars), rows⟩ B where
  covers := ht.covers.call x rows
  distinctVars := hdistinct
  rows := hrows

end Table.Represents

namespace Inlined

/-- A part left to the engine calls nothing, and a table holds the rows of the bag. -/
def Represents (p : Pattern) : Inlined → Bag → Prop
  | pattern q, _ => q = p ∧ p.extensionCalls = []
  | solutions t, A => p.extensionCalls ≠ [] ∧ t.Represents A

theorem plain_inGraph {p : Pattern} (h : p.isPlain sem.known = true) :
    (inGraph name p).isPlain sem.known = true := by
  cases name with
  | none => exact h
  | some n => exact h

variable {i j : Inlined} {p q c : Pattern} {A B : Bag}
variable (hf : context.Follows sem) (hd : context.deadline = none)
include hf hd

/-- The table of a part. A part left to the engine is evaluated in the graphs. -/
theorem Represents.evaluate (hname : rowWise = true ∨ name = none)
    (hp : sem.Inlinable rowWise p) (hs : sem.Suitable functions name p) (hfree : A.Unreserved)
    (hA : sem.reference functions (sem.under name) p = some A) (hi : i.Represents p A) :
    ∃ t, i.evaluate context name = pure t ∧ t.Represents A := by
  cases i with
  | solutions t => exact ⟨t, rfl, hi.2⟩
  | pattern q =>
    obtain ⟨rfl, hcalls⟩ := hi
    obtain ⟨rows, hrows, hrep⟩ := hf.rows hd (plain_inGraph (hp.isPlain hcalls))
    rw [← Semantics.rows_eq_of_reference_under hp hname hs.fresh hcalls hA,
      Bag.decoded_eq hfree] at hrep
    refine ⟨⟨(inGraph name q).inScope, rows⟩, ?_, hrep⟩
    rw [Inlined.evaluate, hrows, pure_bind]

/-- An operator on one part. -/
theorem Represents.apply {operator : Pattern → Pattern} {F : Bag → Bag} (hi : i.Represents p A)
    (hc : i = .pattern p → operator p = c) (hcalls : c.extensionCalls = p.extensionCalls)
    (hplain : ∀ t : Table, (operator t.toPattern).isPlain sem.known = true)
    (hrows : ∀ q : Pattern, sem.rows none (operator q) = F (sem.rows none q))
    (hF : c.extensionCalls ≠ [] → (F A.presented).decoded = B) :
    Evaluation.Agrees (i.apply context operator) (some B) (Represents c) := by
  cases i with
  | pattern q =>
    obtain ⟨rfl, hnone⟩ := hi
    exact Evaluation.agrees_pure ⟨hc rfl, hcalls.trans hnone⟩
  | solutions t =>
    obtain ⟨hsome, ht⟩ := hi
    have hne : c.extensionCalls ≠ [] := hcalls ▸ hsome
    obtain ⟨rows, hrows, hrep⟩ := EvaluationContext.rows_operator hd ht.covers
      (hf.answers (hplain t)) (hrows t.toPattern)
    rw [ht.rows, hF hne] at hrep
    refine ⟨solutions ⟨(operator t.toPattern).inScope, rows⟩, ?_, hne, hrep⟩
    rw [Inlined.apply, hrows, pure_bind]

/-- An operator on two parts, of which at least one is evaluated to a table. -/
theorem Represents.combine {operator : Pattern → Pattern → Pattern}
    {tables : Table → Table → Evaluation Table} {C : Bag} (hname : rowWise = true ∨ name = none)
    (hp : sem.Inlinable rowWise p) (hq : sem.Inlinable rowWise q)
    (hs : sem.Suitable functions name (operator p q)) (hchildren : (operator p q).children = [p, q])
    (hA : sem.reference functions (sem.under name) p = some A)
    (hB : sem.reference functions (sem.under name) q = some B)
    (hi : i.Represents p A) (hj : j.Represents q B)
    (hcalls : (operator p q).extensionCalls = p.extensionCalls ++ q.extensionCalls)
    (htables : (operator p q).extensionCalls ≠ [] → ∀ {s t : Table}, s.Represents A →
      t.Represents B → ∃ u, tables s t = pure u ∧ u.Represents C) :
    Evaluation.Agrees (Inlined.combine context name operator tables i j) (some C)
      (Represents (operator p q)) := by
  have split (hne : (operator p q).extensionCalls ≠ []) : Evaluation.Agrees (do
      let left ← i.evaluate context name
      let right ← j.evaluate context name
      pure (solutions (← tables left right))) (some C) (Represents (operator p q)) := by
    have hpc : p ∈ (operator p q).children := by simp [hchildren]
    have hqc : q ∈ (operator p q).children := by simp [hchildren]
    obtain ⟨s, hleft, hsA⟩ := hi.evaluate hf hd hname hp (hs.of_child hpc)
      (hs.presentable.operand hne hpc hA) hA
    obtain ⟨t, hright, htB⟩ := hj.evaluate hf hd hname hq (hs.of_child hqc)
      (hs.presentable.operand hne hqc hB) hB
    obtain ⟨u, hu, huC⟩ := htables hne hsA htB
    refine ⟨solutions u, ?_, hne, huC⟩
    rw [hleft, pure_bind, hright, pure_bind, hu, pure_bind]
  cases i with
  | pattern p' =>
    cases j with
    | pattern q' =>
      obtain ⟨rfl, hp'⟩ := hi
      obtain ⟨rfl, hq'⟩ := hj
      exact Evaluation.agrees_pure ⟨rfl, by rw [hcalls, hp', hq', List.append_nil]⟩
    | solutions t =>
      exact split (by rw [hcalls]; exact List.append_ne_nil_of_right_ne_nil _ hj.1)
  | solutions t =>
    exact split (by rw [hcalls]; exact List.append_ne_nil_of_left_ne_nil hi.1 _)

/-- A built-in `BIND`. On a part left to the engine it is asked whether some row lacks the target; on
evaluated rows the target is looked for. -/
theorem Represents.extendBuiltIn {x : Variable} {e : Expr} (hname : rowWise = true ∨ name = none)
    (hp : sem.Inlinable rowWise p) (he : BindExpression.ofExpr e = .builtIn e)
    (hplain : e.isPlain sem.known = true) (hx : e.isVar = false → x ∉ p.mentions)
    (hs : sem.Suitable functions name (.extend p x e))
    (hA : sem.reference functions (sem.under name) p = some A) (hi : i.Represents p A) :
    Evaluation.Agrees (i.extendBuiltIn context name x e) (sem.bind? functions x A (.builtIn e))
      (Represents (.extend p x e)) := by
  have hsp : sem.Suitable functions name p := hs.of_child List.mem_cons_self
  have hcalls : (Pattern.extend p x e).extensionCalls = p.extensionCalls := by
    simp [Pattern.extensionCalls, he, BindExpression.function?]
  cases i with
  | pattern q =>
    obtain ⟨rfl, hnone⟩ := hi
    have hrep : (pattern (.extend q x e)).Represents (.extend q x e) (A.extend x (sem.value e)) :=
      ⟨rfl, hcalls.trans hnone⟩
    rw [extendBuiltIn_pattern, Semantics.bind?_builtIn]
    cases hvar : e.isVar with
    | true =>
      rw [if_pos rfl, if_pos rfl]
      exact Evaluation.agrees_pure hrep
    | false =>
      rw [if_neg Bool.false_ne_true, if_neg Bool.false_ne_true]
      have hquestion : (Pattern.filter (.not (.bound x))
          (inGraph name (.extend q x e))).isPlain sem.known = true := by
        have hextend : (Pattern.extend q x e).isPlain sem.known = true := by
          simp [Pattern.isPlain, hplain, hp.isPlain hnone]
        simp [Pattern.isPlain, Expr.not, Expr.isPlain, plain_inGraph hextend]
      obtain ⟨answer, hask, hanswer⟩ := hf.ask_eq hd hquestion
      rw [Semantics.rows, Semantics.rows_inGraph_extend hplain hs.fresh,
        ← Semantics.rows_eq_of_reference_under hp hname hsp.fresh hnone hA,
        sem.select_unbound_ne_zero (hs.unbound hA (hx hvar))] at hanswer
      rw [hask, pure_bind]
      cases answer with
      | true =>
        obtain ⟨μ, hμ, hfail⟩ := hanswer.mp rfl
        rw [Bag.extend?_eq_none hμ hfail, if_pos rfl]
        exact Evaluation.agrees_throw _
      | false =>
        have hall : ∀ μ ∈ A, sem.value e μ ≠ none := fun μ hμ hfail =>
          Bool.noConfusion (hanswer.mpr ⟨μ, hμ, hfail⟩)
        rw [Bag.extend?_eq_some hall, if_neg Bool.false_ne_true]
        exact Evaluation.agrees_pure hrep
  | solutions t =>
    obtain ⟨hsome, ht⟩ := hi
    have hne : (Pattern.extend p x e).extensionCalls ≠ [] := hcalls ▸ hsome
    have hinsensitive : ∀ μ ∈ A, (sem.value e μ.presented).map Skolem.decode = sem.value e μ := by
      have hroot := hs.presentable.root hne
      rw [Semantics.Insensitive, he] at hroot
      exact fun μ hμ => hroot μ ⟨A, hA, hμ⟩ e (List.mem_singleton.mpr rfl)
    have hextend : Evaluation.Agrees ((solutions t).extendBuiltIn context name x e)
        (sem.bind? functions x A (.builtIn e)) fun i B => ∃ u, i = solutions u ∧ u.Represents B :=
      ht.extendBuiltIn hd (hf.evaluates hplain)
        (hs.presentable.operand hne List.mem_cons_self hA) hinsensitive
        fun hvar => hs.unbound hA (hx hvar)
    refine hextend.imp ?_
    rintro _ B ⟨u, rfl, hu⟩
    exact ⟨hne, hu⟩

/-- A `BIND` that calls a function. -/
theorem Represents.callFunction {x : Variable} {e : Expr} {f : Iri} {arguments : List Expr}
    (hname : rowWise = true ∨ name = none) (hp : sem.Inlinable rowWise p)
    (he : BindExpression.ofExpr e = .functionCall f arguments)
    (hplain : ∀ a ∈ arguments, a.isPlain sem.known = true)
    (hs : sem.Suitable functions name (.extend p x e))
    (hA : sem.reference functions (sem.under name) p = some A) (hi : i.Represents p A) :
    Evaluation.Agrees
      ((ExtensionEvaluator.mk (Registry.ofScalars functions)).callFunction context name
        ⟨p, x, .functionCall f arguments⟩ i)
      (sem.bind? functions x A (.functionCall f arguments)) (Represents (.extend p x e)) := by
  have hsp : sem.Suitable functions name p := hs.of_child List.mem_cons_self
  have hne : (Pattern.extend p x e).extensionCalls ≠ [] := by
    simp [Pattern.extensionCalls, he, BindExpression.function?]
  obtain ⟨t, heval, ht⟩ := hi.evaluate hf hd hname hp hsp
    (hs.presentable.operand hne List.mem_cons_self hA) hA
  have hrow : ∀ b ∈ t.rows, b.mapping ∈ A := fun b hb =>
    ht.rows ▸ Bag.mem_ofRows.mpr ⟨b, hb, rfl⟩
  have hcallable : ∀ b ∈ t.rows, ScalarFunction.Callable context sem arguments b := by
    intro b hb
    have hroot := hs.presentable.root hne
    rw [Semantics.Insensitive, he] at hroot
    refine ⟨ht.distinctVars b hb, hsp.value_free hA (hrow b hb),
      fun a ha _ => hf.evaluates (hplain a ha), fun a ha hdirect => ?_⟩
    exact hroot b.mapping ⟨A, hA, hrow b hb⟩ a (List.mem_filter.mpr ⟨ha, by simp [hdirect]⟩)
  have hcall := ExtensionEvaluator.agrees_bind? hd functions (p := p) (x := x) (i := f) hcallable
  rw [ht.rows] at hcall
  unfold ExtensionEvaluator.callFunction
  rw [heval, pure_bind]
  refine hcall.map ?_
  rintro rows B _ ⟨hbag, hdistinct⟩
  exact ⟨hne, ht.called x hbag hdistinct⟩

end Inlined

/-- The columns that a projection keeps of evaluated rows. -/
theorem Inlined.project_keepGraph {xs : List Variable} {t : Table} (A : Bag) :
    A.project ((Inlined.solutions t).keepGraph name xs) =
      A.project (xs ++ Pattern.graphVariables name) := by
  refine Bag.project_congr (fun x => ?_) A
  rcases name with _ | ⟨i⟩ | ⟨g⟩
  · simp [Inlined.keepGraph, Pattern.graphVariables]
  · simp [Inlined.keepGraph, Pattern.graphVariables, NamePattern.vars]
  · simp [Inlined.keepGraph, Pattern.graphVariables, NamePattern.vars, mem_addVariable]

namespace ExtensionEvaluator

/-- The induction is on the way the pattern is built. In each case the parts agree by induction and
the operator is one of the steps above. -/
theorem agrees_inlinePattern (hf : context.Follows sem) (hd : context.deadline = none)
    (hname : rowWise = true ∨ name = none) {p : Pattern} (hp : sem.Inlinable rowWise p)
    (hs : sem.Suitable functions name p) :
    Evaluation.Agrees
      ((ExtensionEvaluator.mk (Registry.ofScalars functions)).inlinePattern context name p)
      (sem.reference functions (sem.under name) p) (Inlined.Represents p) := by
  induction hp with
  | bgp triples => exact Evaluation.agrees_pure ⟨rfl, rfl⟩
  | path s p o => exact Evaluation.agrees_pure ⟨rfl, rfl⟩
  | values xs table => exact Evaluation.agrees_pure ⟨rfl, rfl⟩
  | @join l r hl hr ihl ihr =>
    have hsl : sem.Suitable functions name l := hs.of_child List.mem_cons_self
    have hsr : sem.Suitable functions name r :=
      hs.of_child (List.mem_cons_of_mem _ List.mem_cons_self)
    refine (ihl hsl).bind fun i A hA hi => (ihr hsr).bind fun j B hB hj => ?_
    exact hi.combine hf hd hname hl hr hs rfl hA hB hj rfl
      fun _ _ _ hs ht => ⟨_, rfl, hs.join ht⟩
  | @union l r hl hr ihl ihr =>
    have hsl : sem.Suitable functions name l := hs.of_child List.mem_cons_self
    have hsr : sem.Suitable functions name r :=
      hs.of_child (List.mem_cons_of_mem _ List.mem_cons_self)
    refine (ihl hsl).bind fun i A hA hi => (ihr hsr).bind fun j B hB hj => ?_
    exact hi.combine hf hd hname hl hr hs rfl hA hB hj rfl
      fun _ _ _ hs ht => ⟨_, rfl, hs.union ht⟩
  | @minus l r hrow hl hr ihl ihr =>
    have hsl : sem.Suitable functions name l := hs.of_child List.mem_cons_self
    have hsr : sem.Suitable functions name r :=
      hs.of_child (List.mem_cons_of_mem _ List.mem_cons_self)
    refine (ihl hsl).bind fun i A hA hi => (ihr hsr).bind fun j B hB hj => ?_
    exact hi.combine hf hd hname hl hr hs rfl hA hB hj rfl
      fun _ _ _ hs ht => ⟨_, rfl, hs.minus ht⟩
  | @leftJoin l r e he hl hr ihl ihr =>
    have hsl : sem.Suitable functions name l := hs.of_child List.mem_cons_self
    have hsr : sem.Suitable functions name r :=
      hs.of_child (List.mem_cons_of_mem _ List.mem_cons_self)
    have hplain : ∀ c ∈ e, c.isPlain sem.known = true := by
      rintro c rfl
      exact he
    have hfree : ∀ c ∈ e, Join.rowVariable ∉ c.vars := by
      rintro c rfl hx
      exact hs.noRow (List.mem_append_right _ hx)
    refine (ihl hsl).bind fun i A hA hi => (ihr hsr).bind fun j B hB hj => ?_
    refine hi.combine hf hd hname hl hr hs rfl hA hB hj rfl fun hne s t hsA htB => ?_
    have hroot := hs.presentable.root hne
    obtain ⟨rows, hrows, hrep⟩ := hsA.leftJoin hd (fun c hc => hf.evaluates (hplain c hc))
      (fun c hc => sem.ignores_of_isPlain (hplain c hc) (hfree c hc))
      (fun μ hμ ν hν hc => hroot μ ν ⟨A, hA, hμ⟩ ⟨B, hB, hν⟩ hc) htB
    exact ⟨_, by rw [hrows, pure_bind], hrep⟩
  | @filter e p he hp ih =>
    have hsp : sem.Suitable functions name p := hs.of_child List.mem_cons_self
    refine (ih hsp).bind fun i A hA hi => ?_
    refine hi.apply hf hd (F := fun C => C.select (sem.holds e)) (fun _ => rfl) rfl ?_
      (fun _ => rfl) fun hne => ?_
    · exact fun t => by simp [Pattern.isPlain, Table.toPattern, he]
    · exact Bag.select_presented (hs.presentable.operand hne List.mem_cons_self hA) fun μ hμ =>
        hs.presentable.root hne μ ⟨A, hA, hμ⟩
  | @call p x e f arguments he hargs hp ih =>
    have hsp : sem.Suitable functions name p := hs.of_child List.mem_cons_self
    rw [inlinePattern, Semantics.reference]
    simp only [he]
    exact (ih hsp).bind fun i A hA hi => hi.callFunction hf hd hname hp he hargs hs hA
  | @builtIn p x e he hplain hx hp ih =>
    have hsp : sem.Suitable functions name p := hs.of_child List.mem_cons_self
    rw [inlinePattern, Semantics.reference]
    simp only [he]
    exact (ih hsp).bind fun i A hA hi => hi.extendBuiltIn hf hd hname hp he hplain hx hs hA
  | @project p xs hp ih =>
    have hsp : sem.Suitable functions name p := hs.of_child List.mem_cons_self
    refine (ih hsp).bind fun i A hA hi => ?_
    refine hi.apply hf hd (F := fun C => C.project (i.keepGraph name xs)) (by rintro rfl; rfl) rfl
      (fun _ => rfl) (fun _ => rfl) fun hne => ?_
    rw [Bag.project_presented (hs.presentable.operand hne List.mem_cons_self hA)]
    cases i with
    | pattern q => exact absurd hi.2 hne
    | solutions t => exact Inlined.project_keepGraph A
  | @distinct p hp ih =>
    have hsp : sem.Suitable functions name p := hs.of_child List.mem_cons_self
    refine (ih hsp).bind fun i A hA hi => ?_
    exact hi.apply hf hd (F := Bag.distinct) (fun _ => rfl) rfl (fun _ => rfl) (fun _ => rfl)
      fun hne => Bag.distinct_presented (hs.presentable.operand hne List.mem_cons_self hA)
  | @orderBy p keys hrow hkeys hp ih =>
    have hsp : sem.Suitable functions name p := hs.of_child List.mem_cons_self
    rw [inlinePattern, Semantics.reference, ← Option.bind_fun_some (sem.reference functions _ p)]
    refine (ih hsp).bind fun i A hA hi => ?_
    refine hi.apply hf hd (F := id) (fun _ => rfl) rfl ?_ (fun _ => rfl) fun hne => ?_
    · exact fun t => by simp [Pattern.isPlain, Table.toPattern, hkeys]
    · exact Bag.decoded_presented (hs.presentable.operand hne List.mem_cons_self hA)
  | @group p keys aggregates hrow hplain hp ih =>
    have hsp : sem.Suitable functions name p := hs.of_child List.mem_cons_self
    obtain rfl : name = none := hname.resolve_left (by simp [hrow])
    refine (ih hsp).bind fun i A hA hi => ?_
    have hkeys : i.keepGraph none keys = keys := by cases i <;> rfl
    simp only [hkeys]
    refine hi.apply hf hd (F := fun C => C.group keys (sem.summarize aggregates)) (fun _ => rfl)
      rfl ?_ (fun _ => rfl) fun hne => ?_
    · exact fun t => by simp [Pattern.isPlain, Table.toPattern, hplain]
    · have hfree := hs.presentable.operand hne List.mem_cons_self hA
      exact Bag.group_presented hfree fun κ hκ =>
        Semantics.summarize_presented (hfree.groupKeys keys κ hκ)
          (hs.presentable.root hne A hA κ hκ)

end ExtensionEvaluator

end SparqlBind

end
