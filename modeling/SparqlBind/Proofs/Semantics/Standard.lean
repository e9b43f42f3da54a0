import SparqlBind.Evaluation.Engine
import SparqlBind.Proofs.Semantics.Engine

/-!
# The semantics of a dataset

Triple patterns, paths, expressions and aggregates mean here what the standard engine makes of them.
Functions that draw on chance are not counted as known, since their values depend on more than the
variables of an expression.
-/

noncomputable section

open scoped Classical

namespace SparqlBind

namespace Dataset

/-- The triples of the default graph or of a named one. -/
def triplesOf (d : Dataset) : Option Term → List Triple
  | none => d.default
  | some t => ((d.named.find? fun g => g.1.toTerm = t).map (·.2)).getD []

def leafRows (d : Dataset) (graph : Option Term) : Pattern → List Binding
  | .bgp triples => matchBasic ⟨d.triplesOf graph, []⟩ none triples .empty
  | .path s p o => matchPath ⟨d.triplesOf graph, []⟩ none s p o .empty
  | _ => []

end Dataset

namespace Mapping

/-- The row with the values of some variables. -/
def toBinding (μ : Mapping) (xs : List Variable) : Binding :=
  .ofList (xs.filterMap fun x => (μ x).map (x, ·))

theorem toBinding_congr {μ ν : Mapping} {xs : List Variable} (h : ∀ x ∈ xs, μ x = ν x) :
    μ.toBinding xs = ν.toBinding xs :=
  congrArg Binding.ofList (List.filterMap_congr fun x hx => by rw [h x hx])

end Mapping

namespace Semantics

/-- The value of an expression in the standard engine. Variables and constants keep their terms. -/
def standardValue (s : Surroundings) : Expr → Mapping → Option Term
  | .var x, μ => μ x
  | .constant t, _ => some t.toTerm
  | e, μ => (e.value? s none (μ.toBinding e.vars)).map Value.toTerm

def drawsOnChance : BuiltIn → Bool
  | .bnode => true
  | .rand => true
  | .uuid => true
  | .strUuid => true
  | _ => false

def standard (s : Surroundings) : Semantics where
  graphs := (s.dataset.named.map (·.1.toTerm)).toFinset
  leaf graph p :=
    ((s.dataset.leafRows graph p).map fun b => b.mapping.restrict p.mentions : List Mapping)
  known
    | .builtIn f => !drawsOnChance f
    | .custom f => (Value.constructor? f).isSome
  value := standardValue s
  effective t := (Value.ofTerm t).truth? == some true
  aggregate f distinct values :=
    (f.apply distinct (values.toList.map (·.map Value.ofTerm))).map Value.toTerm
  leaf_within graph p := by
    intro μ hμ
    obtain ⟨b, _, rfl⟩ := List.mem_map.mp (Multiset.mem_coe.mp hμ)
    exact Mapping.within_restrict p.mentions
  value_var _ _ := rfl
  value_constant _ _ := rfl
  value_congr e μ ν _ h := by
    cases e with
    | var x => exact h x (List.mem_singleton.mpr rfl)
    | constant t => rfl
    | _ => simp only [standardValue, Mapping.toBinding_congr h]
  value_unbound x μ := by
    have hcontains : (μ.toBinding [x]).contains x = (μ x).isSome := by
      unfold Mapping.toBinding
      cases h : μ x with
      | none => simp [h, Binding.ofList, Binding.contains, Binding.get?, Binding.empty]
      | some t =>
        simp [h, Binding.ofList, Binding.contains, Binding.get?, Binding.empty, Binding.set,
          Binding.setEntries]
    have hnot : ∀ c : Bool, ((((some (Value.boolean c)).bind UnaryOp.not.value?).map
        Value.toTerm).any fun t => (Value.ofTerm t).truth? == some true) = !c := by
      intro c
      cases c <;> rfl
    have hvalue : standardValue s (.not (.bound x)) μ =
        ((some (Value.boolean ((μ.toBinding [x]).contains x))).bind UnaryOp.not.value?).map
          Value.toTerm := rfl
    rw [hvalue, hcontains, hnot, Option.not_isSome]

end Semantics

/-! ## The semantics of the sample -/

namespace Sample
open Semantics

/-- The standard semantics of a store. -/
def semantics (quads : List Quad) : Semantics := .standard ⟨.ofStore ⟨quads⟩ none, default⟩

/-- A term with the name `v`. -/
def row (s : Term) : Mapping :=
  (Binding.mapping ⟨[(subject, s), (object, .literal (.plain "v"))]⟩).restrict [subject, object]

def shoutedRow (s : Term) : Mapping := (row s).set target (.literal (.plain "V!"))

variable {quads : List Quad} {g : Option Term} {s : Term}

theorem unreserved_row (hs : s.isReserved = false) : (row s).Unreserved := by
  refine (Binding.unreserved_mapping fun e he => ?_).restrict _
  rcases List.mem_cons.mp he with rfl | he
  · exact hs
  · exact List.mem_singleton.mp he ▸ rfl

theorem unreserved_shoutedRow (hs : s.isReserved = false) : (shoutedRow s).Unreserved :=
  (unreserved_row hs).set rfl

theorem evaluate_names (h : (semantics quads).rows g names = {row s}) :
    (semantics quads).evaluate functions g names = some {row s} := congrArg some h

theorem evaluate_shout (h : (semantics quads).rows g names = {row s}) :
    (semantics quads).evaluate functions g (.extend names target shout) = some {shoutedRow s} := by
  rw [evaluate, reference, ← evaluate, evaluate_names h, Option.bind_some]
  exact bind?_call_singleton rfl rfl

theorem presentable_shout (h : (semantics quads).rows g names = {row s})
    (hs : s.isReserved = false) :
    (semantics quads).Presentable functions ((semantics quads).inGraph g)
      (.extend names target shout) where
  unreserved q hq hcalls r hr μ hμ := by
    rcases hq.eq_or_part rfl with rfl | hq
    · obtain rfl := List.mem_singleton.mp hr
      exact (rowOf_singleton (evaluate_names h)).mp hμ ▸ unreserved_row hs
    · exact absurd (hq.eq_of_leaf rfl ▸ rfl) hcalls
  insensitive q hq hcalls := by
    rcases hq.eq_or_part rfl with rfl | hq
    · intro μ hμ a ha
      obtain rfl := (rowOf_singleton (evaluate_names h)).mp hμ
      obtain rfl := List.mem_singleton.mp ha
      rfl
    · exact absurd (hq.eq_of_leaf rfl ▸ rfl) hcalls

/-- The rows that were shouted, if any. -/
def loud : Pattern :=
  .project (.filter (.bound target) (.extend names target shout)) [subject, target]

theorem evaluate_filter (h : (semantics quads).rows g names = {row s}) :
    (semantics quads).evaluate functions g (.filter (.bound target) (.extend names target shout)) =
      some {shoutedRow s} := by
  rw [evaluate, reference, ← evaluate, evaluate_shout h, Option.bind_some]
  exact congrArg some (Bag.select_singleton rfl)

theorem evaluate_loud (h : (semantics quads).rows g names = {row s}) :
    (semantics quads).evaluate functions g loud = some {(shoutedRow s).restrict [subject, target]} := by
  rw [loud, evaluate, reference, ← evaluate, evaluate_filter h, Option.bind_some]
  exact congrArg some (Multiset.map_singleton _ _)

theorem presentable_loud (h : (semantics quads).rows g names = {row s})
    (hs : s.isReserved = false) :
    (semantics quads).Presentable functions ((semantics quads).inGraph g) loud where
  unreserved q hq hcalls r hr μ hμ := by
    rcases hq.eq_or_part rfl with rfl | hq
    · obtain rfl := List.mem_singleton.mp hr
      exact (rowOf_singleton (evaluate_filter h)).mp hμ ▸ unreserved_shoutedRow hs
    rcases hq.eq_or_part rfl with rfl | hq
    · obtain rfl := List.mem_singleton.mp hr
      exact (rowOf_singleton (evaluate_shout h)).mp hμ ▸ unreserved_shoutedRow hs
    · exact (presentable_shout h hs).unreserved q hq hcalls r hr μ hμ
  insensitive q hq hcalls := by
    rcases hq.eq_or_part rfl with rfl | hq
    · trivial
    rcases hq.eq_or_part rfl with rfl | hq
    · intro μ hμ
      obtain rfl := (rowOf_singleton (evaluate_shout h)).mp hμ
      rfl
    · exact (presentable_shout h hs).insensitive q hq hcalls

/-- The sample context with the engine of its semantics. -/
def answering (quads : List Quad) : EvaluationContext :=
  { stored quads with engine := (semantics quads).engine }

end Sample

end SparqlBind

end
