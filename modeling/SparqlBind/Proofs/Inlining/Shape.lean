import SparqlBind.Proofs.Inlining.Steps
import SparqlBind.Proofs.Pattern
import SparqlBind.Proofs.Scalars

/-!
# The shape of an inlined query

Inlining a pattern either leaves it as it is, node for node, which happens when no reachable `BIND`
calls an extension function, or turns it into one table. So a pattern left to the engine never holds
an evaluated table, and inlining a second time changes nothing.
-/

namespace SparqlBind

namespace Inlined

/-- What the two kinds of an inlined pattern say about the pattern it came from. -/
def Faithful (registry : Registry) (p : Pattern) : Inlined → Prop
  | pattern q => q = p ∧ p.extensionCalls = []
  | solutions _ => p.extensionCalls ≠ [] ∧ ∀ f ∈ p.extensionCalls, registry.contains f = true

variable {registry : Registry} {context : EvaluationContext} {graph : Option NamePattern}
variable {i j r : Inlined} {p q : Pattern}

theorem Faithful.registered (h : i.Faithful registry p) :
    ∀ f ∈ p.extensionCalls, registry.contains f = true := by
  cases i with
  | pattern _ => simp [h.2]
  | solutions _ => exact h.2

theorem Faithful.apply {operator : Pattern → Pattern} (hi : i.Faithful registry p)
    (hq : i = pattern p → operator p = q) (hcalls : q.extensionCalls = p.extensionCalls)
    (h : Evaluation.Yields (i.apply context operator) r) : r.Faithful registry q := by
  rcases yields_apply h with ⟨p', rfl, rfl⟩ | ⟨t, rows, rfl, _, rfl⟩
  · obtain ⟨rfl, hnone⟩ := hi
    exact ⟨hq rfl, hcalls.trans hnone⟩
  · unfold Faithful
    rw [hcalls]
    exact hi

theorem Faithful.combine {operator : Pattern → Pattern → Pattern}
    {tables : Table → Table → Evaluation Table} (hi : i.Faithful registry p)
    (hj : j.Faithful registry q) {c : Pattern} (hc : operator p q = c)
    (hcalls : c.extensionCalls = p.extensionCalls ++ q.extensionCalls)
    (h : Evaluation.Yields (Inlined.combine context graph operator tables i j) r) :
    r.Faithful registry c := by
  rcases yields_combine h with ⟨p', q', rfl, rfl, rfl⟩ | ⟨hsome, s, t, u, _, _, _, rfl⟩
  · obtain ⟨rfl, hp⟩ := hi
    obtain ⟨rfl, hq⟩ := hj
    exact ⟨hc, by simp [hcalls, hp, hq]⟩
  · refine ⟨?_, ?_⟩
    · rw [hcalls]
      rcases hsome with ⟨t, rfl⟩ | ⟨t, rfl⟩
      · exact List.append_ne_nil_of_left_ne_nil hi.1 _
      · exact List.append_ne_nil_of_right_ne_nil _ hj.1
    · intro f hf
      rw [hcalls, List.mem_append] at hf
      exact hf.elim (hi.registered f) (hj.registered f)

theorem Faithful.named {name : NamePattern} (hi : i.Faithful registry p)
    (h : Evaluation.Yields (i.named context name) r) : r.Faithful registry (.graph name p) := by
  rcases yields_named h with ⟨p', rfl, rfl⟩ | ⟨t, rfl, rfl | ⟨graphs, _, rfl⟩⟩
  · obtain ⟨rfl, hnone⟩ := hi
    exact ⟨rfl, hnone⟩
  · exact hi
  · exact hi

theorem Faithful.extendBuiltIn {x : Variable} {e : Expr} (hi : i.Faithful registry p)
    (he : BindExpression.ofExpr e = .builtIn e)
    (h : Evaluation.Yields (i.extendBuiltIn context graph x e) r) :
    r.Faithful registry (.extend p x e) := by
  have hcalls : (Pattern.extend p x e).extensionCalls = p.extensionCalls := by
    simp [Pattern.extensionCalls, he, BindExpression.function?]
  rcases yields_extendBuiltIn h with ⟨p', rfl, rfl⟩ | ⟨t, rows, rfl, _, _, rfl⟩
  · obtain ⟨rfl, hnone⟩ := hi
    exact ⟨rfl, hcalls.trans hnone⟩
  · unfold Faithful
    rw [hcalls]
    exact hi

end Inlined

namespace ExtensionEvaluator

variable {ev : ExtensionEvaluator} {context : EvaluationContext}

theorem faithful_callFunction {graph : Option NamePattern} {p : Pattern} {x : Variable} {e : Expr}
    {f : Iri} {arguments : List Expr} {i r : Inlined} (hi : i.Faithful ev.registry p)
    (he : BindExpression.ofExpr e = .functionCall f arguments)
    (h : Evaluation.Yields (ev.callFunction context graph ⟨p, x, .functionCall f arguments⟩ i) r) :
    r.Faithful ev.registry (.extend p x e) := by
  obtain ⟨hf, t, rows, _, _, rfl⟩ := yields_callFunction h
  have hcalls : (Pattern.extend p x e).extensionCalls = p.extensionCalls ++ [f] := by
    simp [Pattern.extensionCalls, he, BindExpression.function?]
  refine ⟨by simp [hcalls], ?_⟩
  intro f' hf'
  rw [hcalls, List.mem_append, List.mem_singleton] at hf'
  rcases hf' with hf' | rfl
  · exact hi.registered f' hf'
  · exact hf

/-- The induction follows the pattern; the graph changes on the way down. -/
theorem faithful_inlinePattern {graph : Option NamePattern} {p : Pattern} {r : Inlined}
    (h : Evaluation.Yields (ev.inlinePattern context graph p) r) : r.Faithful ev.registry p := by
  induction p generalizing graph r with
  | extend p x e ih =>
    rw [inlinePattern] at h
    obtain ⟨inner, hinner, h⟩ := Evaluation.yields_bind_iff.mp h
    cases he : BindExpression.ofExpr e with
    | functionCall f arguments =>
      simp only [he] at h
      exact faithful_callFunction (ih hinner) he h
    | builtIn e' =>
      obtain rfl := BindExpression.eq_of_ofExpr_builtIn he
      simp only [he] at h
      exact (ih hinner).extendBuiltIn he h
  | join l r ihl ihr =>
    obtain ⟨i, hi, h⟩ := Evaluation.yields_bind_iff.mp h
    obtain ⟨j, hj, h⟩ := Evaluation.yields_bind_iff.mp h
    exact (ihl hi).combine (ihr hj) rfl rfl h
  | leftJoin l r e ihl ihr =>
    obtain ⟨i, hi, h⟩ := Evaluation.yields_bind_iff.mp h
    obtain ⟨j, hj, h⟩ := Evaluation.yields_bind_iff.mp h
    exact (ihl hi).combine (ihr hj) rfl rfl h
  | minus l r ihl ihr =>
    obtain ⟨i, hi, h⟩ := Evaluation.yields_bind_iff.mp h
    obtain ⟨j, hj, h⟩ := Evaluation.yields_bind_iff.mp h
    exact (ihl hi).combine (ihr hj) rfl rfl h
  | union l r ihl ihr =>
    obtain ⟨i, hi, h⟩ := Evaluation.yields_bind_iff.mp h
    obtain ⟨j, hj, h⟩ := Evaluation.yields_bind_iff.mp h
    exact (ihl hi).combine (ihr hj) rfl rfl h
  | graph name p ih =>
    obtain ⟨inner, hinner, h⟩ := Evaluation.yields_bind_iff.mp h
    exact (ih hinner).named h
  | filter e p ih =>
    obtain ⟨inner, hinner, h⟩ := Evaluation.yields_bind_iff.mp h
    exact (ih hinner).apply (fun _ => rfl) rfl h
  | orderBy p keys ih =>
    obtain ⟨inner, hinner, h⟩ := Evaluation.yields_bind_iff.mp h
    exact (ih hinner).apply (fun _ => rfl) rfl h
  | project p xs ih =>
    obtain ⟨inner, hinner, h⟩ := Evaluation.yields_bind_iff.mp h
    exact (ih hinner).apply (by rintro rfl; rfl) rfl h
  | distinct p ih =>
    obtain ⟨inner, hinner, h⟩ := Evaluation.yields_bind_iff.mp h
    exact (ih hinner).apply (fun _ => rfl) rfl h
  | reduced p ih =>
    obtain ⟨inner, hinner, h⟩ := Evaluation.yields_bind_iff.mp h
    exact (ih hinner).apply (fun _ => rfl) rfl h
  | slice p start length ih =>
    obtain ⟨inner, hinner, h⟩ := Evaluation.yields_bind_iff.mp h
    exact (ih hinner).apply (fun _ => rfl) rfl h
  | group p keys aggregates ih =>
    obtain ⟨inner, hinner, h⟩ := Evaluation.yields_bind_iff.mp h
    exact (ih hinner).apply (by rintro rfl; rfl) rfl h
  | bgp triples => exact Evaluation.yields_pure_iff.mp h ▸ ⟨rfl, rfl⟩
  | path s p o => exact Evaluation.yields_pure_iff.mp h ▸ ⟨rfl, rfl⟩
  | values xs rows => exact Evaluation.yields_pure_iff.mp h ▸ ⟨rfl, rfl⟩
  | lateral l r => exact Evaluation.yields_pure_iff.mp h ▸ ⟨rfl, rfl⟩
  | service name p silent => exact Evaluation.yields_pure_iff.mp h ▸ ⟨rfl, rfl⟩

/-- Without calls of extension functions nothing is asked of the clock. -/
theorem settled_inlinePattern (hd : context.deadline = none) {graph : Option NamePattern}
    {p : Pattern} (hcalls : p.extensionCalls = []) :
    Evaluation.Settled (ev.inlinePattern context graph p) := by
  induction p generalizing graph with
  | extend p x e ih =>
    obtain ⟨hp, he⟩ := List.append_eq_nil_iff.mp hcalls
    rw [inlinePattern]
    refine (ih hp).bind fun inner => ?_
    cases hb : BindExpression.ofExpr e with
    | functionCall f arguments => simp [hb, BindExpression.function?] at he
    | builtIn e' => exact Inlined.settled_extendBuiltIn hd x e' inner
  | join l r ihl ihr =>
    obtain ⟨hl, hr⟩ := List.append_eq_nil_iff.mp hcalls
    exact (ihl hl).bind fun i => (ihr hr).bind fun j =>
      Inlined.settled_combine hd _ (fun _ _ => Evaluation.settled_pure _) i j
  | leftJoin l r e ihl ihr =>
    obtain ⟨hl, hr⟩ := List.append_eq_nil_iff.mp hcalls
    exact (ihl hl).bind fun i => (ihr hr).bind fun j =>
      Inlined.settled_combine hd _ (fun _ _ => (Join.settled_leftJoin hd _ _ _).bind fun _ =>
        Evaluation.settled_pure _) i j
  | minus l r ihl ihr =>
    obtain ⟨hl, hr⟩ := List.append_eq_nil_iff.mp hcalls
    exact (ihl hl).bind fun i => (ihr hr).bind fun j =>
      Inlined.settled_combine hd _ (fun _ _ => Evaluation.settled_pure _) i j
  | union l r ihl ihr =>
    obtain ⟨hl, hr⟩ := List.append_eq_nil_iff.mp hcalls
    exact (ihl hl).bind fun i => (ihr hr).bind fun j =>
      Inlined.settled_combine hd _ (fun _ _ => Evaluation.settled_pure _) i j
  | graph name p ih => exact (ih hcalls).bind fun i => Inlined.settled_named hd name i
  | filter e p ih => exact (ih hcalls).bind fun i => Inlined.settled_apply hd _ i
  | orderBy p keys ih => exact (ih hcalls).bind fun i => Inlined.settled_apply hd _ i
  | project p xs ih => exact (ih hcalls).bind fun i => Inlined.settled_apply hd _ i
  | distinct p ih => exact (ih hcalls).bind fun i => Inlined.settled_apply hd _ i
  | reduced p ih => exact (ih hcalls).bind fun i => Inlined.settled_apply hd _ i
  | slice p start length ih => exact (ih hcalls).bind fun i => Inlined.settled_apply hd _ i
  | group p keys aggregates ih => exact (ih hcalls).bind fun i => Inlined.settled_apply hd _ i
  | bgp triples => exact Evaluation.settled_pure _
  | path s p o => exact Evaluation.settled_pure _
  | values xs rows => exact Evaluation.settled_pure _
  | lateral l r => exact Evaluation.settled_pure _
  | service name p silent => exact Evaluation.settled_pure _

/-- A query that is one table has nothing to inline. -/
theorem inlineQuery_values (q : Query) (xs : List Variable) (rows : List (List (Option GroundTerm)))
    (h : q.pattern = .values xs rows) : ev.inlineQuery context q = pure q := by
  have hq : { q with pattern := (Inlined.pattern q.pattern).toPattern } = q := rfl
  unfold inlineQuery inlineWith
  rw [h, inlinePattern, ← h, pure_bind, hq]

theorem inlineQuery_shape (hd : context.deadline = none) {q q' : Query}
    (h : Evaluation.Yields (ev.inlineQuery context q) q') :
    (q.pattern.extensionCalls = [] → q' = q) ∧
    (q.pattern.extensionCalls ≠ [] →
      (∃ xs rows, q' = { q with pattern := .values xs rows }) ∧
      ∀ f ∈ q.pattern.extensionCalls, ev.registry.contains f = true) ∧
    ev.inlineQuery context q' = pure q' ∧
    ∀ (c : EvaluationContext) (graph : Option NamePattern) (p r : Pattern),
      Evaluation.Yields (ev.inlinePattern c graph p) (.pattern r) →
        r = p ∧ p.extensionCalls = [] := by
  have hforms : ∀ (c : EvaluationContext) (graph : Option NamePattern) (p r : Pattern),
      Evaluation.Yields (ev.inlinePattern c graph p) (.pattern r) →
        r = p ∧ p.extensionCalls = [] := fun _ _ _ _ hr => faithful_inlinePattern hr
  obtain ⟨i, hi, hq⟩ := Evaluation.yields_bind_iff.mp h
  have hq' := Evaluation.yields_pure_iff.mp hq
  have hshape := faithful_inlinePattern hi
  cases i with
  | pattern p =>
    obtain ⟨rfl, hnone⟩ := hshape
    obtain rfl : q = q' := hq'
    have hdeadline : (context.forQuery q).deadline = none := hd
    have hpattern := @settled_inlinePattern ev _ hdeadline none _ hnone
    have hsettled : Evaluation.Settled (ev.inlineQuery context q) :=
      hpattern.bind fun _ => Evaluation.settled_pure _
    exact ⟨fun _ => rfl, fun hsome => absurd hnone hsome, hsettled.eq_pure h, hforms⟩
  | solutions t =>
    obtain ⟨hsome, hregistered⟩ := hshape
    subst hq'
    exact ⟨fun hnone => absurd hnone hsome, fun _ => ⟨⟨_, _, rfl⟩, hregistered⟩,
      inlineQuery_values _ _ _ rfl, hforms⟩

end ExtensionEvaluator

/-- What the sample becomes when one blank node has a name. -/
def Sample.shouted : Pattern :=
  .values [subject, object, target]
    [[some (.iri ⟨Skolem.namespaceText ++ "n"⟩), some (text "v"), some (text "V!")]]

open Sample in
theorem ExtensionEvaluator.inlineQuery_shape_names :
    evaluator.inlineQuery (stored [named (.blank "n") "v" none])
      (select (.extend names target shout)) = pure (select shouted) ∧
    (∀ f ∈ (Pattern.extend names target shout).extensionCalls,
      evaluator.registry.contains f = true) ∧
    evaluator.inlineQuery (stored [named (.blank "n") "v" none]) (select shouted) =
      pure (select shouted) := by
  have hinlined : evaluator.inlineQuery (stored [named (.blank "n") "v" none])
      (select (.extend names target shout)) = pure (select shouted) := rfl
  have h := inlineQuery_shape rfl (Evaluation.yields_of_eq_pure hinlined)
  exact ⟨hinlined, (h.2.1 (List.cons_ne_nil _ _)).2, h.2.2.1⟩

end SparqlBind
