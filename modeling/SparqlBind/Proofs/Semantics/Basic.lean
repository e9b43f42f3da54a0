import Mathlib.Data.Finset.Image
import SparqlBind.Proofs.Semantics.Bag
import SparqlBind.Proofs.Semantics.Variables

/-!
# Bag semantics of patterns

What the patterns mean, given what triple patterns, paths, expressions and aggregates mean on a
dataset. The rows of a pattern are a bag, computed from the rows of its parts. Of the operators that
are not given here (`LATERAL`, `SERVICE`, `SLICE` and `REDUCED`) only the scope is known.
-/

noncomputable section

open scoped Classical

namespace SparqlBind

/-- The meaning of the leaves and the expressions of a query. The default graph of the query has no
name. Only expressions with known functions and without `EXISTS` are required to have a value that
depends on their variables alone. -/
structure Semantics where
  graphs : Finset Term
  leaf : Option Term → Pattern → Bag
  known : Function → Bool
  value : Expr → Mapping → Option Term
  effective : Term → Bool
  aggregate : AggregateFunction → Bool → Multiset (Option Term) → Option Term
  leaf_within : ∀ graph p, (leaf graph p).Within (· ∈ p.mentions)
  value_var : ∀ x μ, value (.var x) μ = μ x
  value_constant : ∀ t μ, value (.constant t) μ = some t.toTerm
  value_congr : ∀ e μ ν, e.isPlain known = true → (∀ x ∈ e.vars, μ x = ν x) →
    value e μ = value e ν
  value_unbound : ∀ x μ, (value (.not (.bound x)) μ).any effective = (μ x).isNone

namespace Semantics

variable (sem : Semantics)

/-- The effective boolean value of an expression; an error is no truth. -/
def holds (e : Expr) (μ : Mapping) : Bool := (sem.value e μ).any sem.effective

def condition : Option Expr → Mapping → Bool
  | some e => sem.holds e
  | none => fun _ => true

/-- The value of the expression does not depend on the variable. -/
def Ignores (x : Variable) (e : Expr) : Prop := ∀ μ t, sem.value e (μ.set x t) = sem.value e μ

theorem ignores_of_isPlain {x : Variable} {e : Expr} (he : e.isPlain sem.known = true)
    (hx : x ∉ e.vars) : sem.Ignores x e := by
  intro μ t
  refine sem.value_congr e _ _ he fun y hy => ?_
  have hne : y ≠ x := fun h => hx (h ▸ hy)
  rw [Mapping.set_apply, if_neg hne]

def summary? (A : Bag) : Aggregate → Option Term
  | .countAll _ distinct => some (.literal (.ofInt (if distinct then A.distinct else A).card))
  | .apply _ f distinct e => sem.aggregate f distinct (A.map (sem.value e))

/-- The row of a group with the given keys. -/
def summarize (aggregates : List Aggregate) (A : Bag) (κ : Mapping) : Mapping :=
  aggregates.foldl (fun ν a => ν.extend a.target (sem.summary? A a)) κ

/-- The rows of a pattern in a graph. -/
def rows : Option Term → Pattern → Bag
  | g, .join l r => (rows g l).join (rows g r)
  | g, .leftJoin l r e => (rows g l).leftJoin (sem.condition e) (rows g r)
  | g, .filter e p => (rows g p).select (sem.holds e)
  | g, .union l r => rows g l + rows g r
  | _, .graph (.iri i) p => if .iri i ∈ sem.graphs then rows (some (.iri i)) p else 0
  | _, .graph (.var x) p => sem.graphs.val.bind fun t =>
    Bag.join {Mapping.empty.set x t} (rows (some t) p)
  | g, .extend p x e => (rows g p).extend x (sem.value e)
  | g, .minus l r => (rows g l).minus (rows g r)
  | _, .values xs table => (table.map (Mapping.ofCells xs) : List Mapping)
  | g, .orderBy p _ => rows g p
  | g, .project p xs => (rows g p).project xs
  | g, .distinct p => (rows g p).distinct
  | g, .group p keys aggregates => (rows g p).group keys (sem.summarize aggregates)
  | g, .bgp triples => sem.leaf g (.bgp triples)
  | g, .path s p o => sem.leaf g (.path s p o)
  | g, .lateral l r => sem.leaf g (.lateral l r)
  | g, .reduced p => sem.leaf g (.reduced p)
  | g, .slice p start length => sem.leaf g (.slice p start length)
  | g, .service name p silent => sem.leaf g (.service name p silent)

theorem holds_unbound (x : Variable) (μ : Mapping) :
    sem.holds (.not (.bound x)) μ = (μ x).isNone := sem.value_unbound x μ

/-- After a `BIND` with an unbound target, the rows without it are those with an error. -/
theorem select_unbound_ne_zero {x : Variable} {f : Mapping → Option Term} {A : Bag}
    (hx : ∀ μ ∈ A, μ x = none) :
    (A.extend x f).select (sem.holds (.not (.bound x))) ≠ 0 ↔ ∃ μ ∈ A, f μ = none := by
  rw [Ne, Multiset.eq_zero_iff_forall_notMem, not_forall_not]
  constructor
  · rintro ⟨ν, hν⟩
    obtain ⟨hν, hunbound⟩ := Multiset.mem_filter.mp hν
    obtain ⟨μ, hμ, rfl⟩ := Multiset.mem_map.mp hν
    rw [holds_unbound, Option.isNone_iff_eq_none] at hunbound
    exact ⟨μ, hμ, (Bag.extend_eq_none_iff (hx μ hμ)).mp hunbound⟩
  · rintro ⟨μ, hμ, hfail⟩
    refine ⟨μ.extend x (f μ), Multiset.mem_filter.mpr ⟨Multiset.mem_map_of_mem _ hμ, ?_⟩⟩
    rw [holds_unbound, Option.isNone_iff_eq_none]
    exact (Bag.extend_eq_none_iff (hx μ hμ)).mpr hfail

theorem summarize_within {aggregates : List Aggregate} {keys : List Variable} (A : Bag)
    {κ : Mapping} (h : κ.Within (· ∈ keys)) :
    (sem.summarize aggregates A κ).Within (· ∈ keys ++ aggregates.map Aggregate.target) :=
  Mapping.Within.bindAll (h.mono fun _ => List.mem_append_left _) fun _ ha =>
    List.mem_append_right _ (List.mem_map_of_mem ha)

/-- Rows bind variables in scope only. -/
theorem rows_within (p : Pattern) : ∀ g, (sem.rows g p).Within (· ∈ p.mentions) := by
  induction p with
  | join l r ihl ihr =>
    intro g
    exact ((ihl g).mono fun _ => List.mem_append_left _).join
      ((ihr g).mono fun _ => List.mem_append_right _)
  | leftJoin l r e ihl ihr =>
    intro g
    exact ((ihl g).mono fun _ => List.mem_append_left _).leftJoin
      ((ihr g).mono fun _ => List.mem_append_right _)
  | filter e p ih => exact fun g => (ih g).select
  | union l r ihl ihr =>
    intro g
    exact ((ihl g).mono fun _ => List.mem_append_left _).add
      ((ihr g).mono fun _ => List.mem_append_right _)
  | graph name p ih =>
    intro g
    cases name with
    | iri i =>
      rw [rows]
      split
      · exact ih _
      · exact fun μ hμ => (Multiset.notMem_zero μ hμ).elim
    | var x =>
      intro μ hμ
      obtain ⟨t, _, hμ⟩ := Multiset.mem_bind.mp hμ
      have hname : Bag.Within (· ∈ (Pattern.graph (.var x) p).mentions)
          {Mapping.empty.set x t} := by
        intro ν hν
        rw [Multiset.mem_singleton.mp hν]
        exact Mapping.within_empty.extend List.mem_cons_self (some t)
      exact hname.join ((ih _).mono fun _ => List.mem_cons_of_mem _) μ hμ
  | extend p x e ih =>
    intro g
    exact ((ih g).mono fun _ => List.mem_cons_of_mem _).extend List.mem_cons_self _
  | minus l r ihl ihr => exact fun g => (ihl g).minus _
  | values xs table =>
    intro g μ hμ
    obtain ⟨cells, _, rfl⟩ := List.mem_map.mp (Multiset.mem_coe.mp hμ)
    exact Mapping.within_ofCells xs cells
  | orderBy p keys ih => exact ih
  | project p xs ih => exact fun g => Bag.within_project xs _
  | distinct p ih => exact fun g => (ih g).distinct
  | group p keys aggregates ih =>
    exact fun g => Bag.within_group (fun A κ hκ => sem.summarize_within A hκ) _
  | bgp triples => exact fun g => sem.leaf_within g _
  | path s p o => exact fun g => sem.leaf_within g _
  | lateral l r ihl ihr => exact fun g => sem.leaf_within g _
  | reduced p ih => exact fun g => sem.leaf_within g _
  | slice p start length ih => exact fun g => sem.leaf_within g _
  | service name p silent ih => exact fun g => sem.leaf_within g _

end Semantics

namespace Pattern

/-- The patterns whose meaning is given: all their expressions are plain. -/
def isPlain (known : Function → Bool) : Pattern → Bool
  | bgp _ => true
  | path .. => true
  | join l r => l.isPlain known && r.isPlain known
  | leftJoin l r e => l.isPlain known && r.isPlain known && e.all (·.isPlain known)
  | filter e p => e.isPlain known && p.isPlain known
  | union l r => l.isPlain known && r.isPlain known
  | graph _ p => p.isPlain known
  | extend p _ e => e.isPlain known && p.isPlain known
  | minus l r => l.isPlain known && r.isPlain known
  | values .. => true
  | orderBy p keys => keys.all (·.expr.isPlain known) && p.isPlain known
  | project p _ => p.isPlain known
  | distinct p => p.isPlain known
  | group p _ aggregates => aggregates.all (·.isPlain known) && p.isPlain known
  | lateral .. => false
  | reduced _ => false
  | slice .. => false
  | service .. => false

end Pattern

end SparqlBind

end
