import SparqlBind.Evaluation.Simplify
import SparqlBind.Extension.Inlining
import SparqlBind.Proofs.Semantics.Basic
import SparqlBind.Proofs.Semantics.NamedRows

/-!
# Strict `BIND`s

Which `BIND`s of a pattern are checked, in which order, and what the check can see. Of the meaning of
patterns only the rules for `BIND`, for `GRAPH` and for the question whether a variable is unbound
are used; solution modifiers, `EXISTS`, `SERVICE` and all else may mean anything.
-/

noncomputable section

open scoped Classical

namespace SparqlBind

/-- The solutions of patterns in the default graph and in the named ones. The value of an expression
may depend on the graph that is active. -/
structure SolutionSemantics where
  graphs : Finset Term
  rows : Option Term → Pattern → Bag
  value : Option Term → Expr → Mapping → Option Term
  rows_within : ∀ g p, (rows g p).Within (· ∈ p.mentions)
  rows_extend : ∀ g p x e, rows g (.extend p x e) = (rows g p).extend x (value g e)
  rows_unbound : ∀ g p x,
    rows g (.filter (.not (.bound x)) p) = (rows g p).filter fun μ => μ x = none
  rows_graph_iri : ∀ g i p,
    rows g (.graph (.iri i) p) = if .iri i ∈ graphs then rows (some (.iri i)) p else 0
  rows_graph_var : ∀ g x p, rows g (.graph (.var x) p) =
    graphs.val.bind fun t => Bag.join {Mapping.empty.set x t} (rows (some t) p)

/-- The bag semantics, in which values do not depend on the graph. -/
def Semantics.solutions (sem : Semantics) : SolutionSemantics where
  graphs := sem.graphs
  rows := sem.rows
  value _ := sem.value
  rows_within g p := sem.rows_within p g
  rows_extend _ _ _ _ := rfl
  rows_unbound g p x := by
    rw [Semantics.rows]
    exact Multiset.filter_congr fun μ _ => by rw [sem.holds_unbound, Option.isNone_iff_eq_none]
  rows_graph_iri _ _ _ := rfl
  rows_graph_var _ _ _ := rfl

/-- A `BIND` on top of `inner`, in the graph it stands in. -/
structure PlacedBind where
  graph : Option NamePattern
  inner : Pattern
  target : Variable
  expression : Expr

namespace Pattern

/-- The reachable `BIND`s but the bare copies of variables, children before parents and left before
right. -/
def checkedBinds : Option NamePattern → Pattern → List PlacedBind
  | g, .extend p x e => p.checkedBinds g ++ if e.isVar then [] else [⟨g, p, x, e⟩]
  | g, .join l r => l.checkedBinds g ++ r.checkedBinds g
  | g, .leftJoin l r _ => l.checkedBinds g ++ r.checkedBinds g
  | g, .minus l r => l.checkedBinds g ++ r.checkedBinds g
  | g, .union l r => l.checkedBinds g ++ r.checkedBinds g
  | _, .graph name p => p.checkedBinds (some name)
  | g, .filter _ p => p.checkedBinds g
  | g, .orderBy p _ => p.checkedBinds g
  | g, .project p _ => p.checkedBinds g
  | g, .distinct p => p.checkedBinds g
  | g, .reduced p => p.checkedBinds g
  | g, .slice p _ _ => p.checkedBinds g
  | g, .group p _ _ => p.checkedBinds g
  | _, .bgp _ => []
  | _, .path .. => []
  | _, .values .. => []
  | _, .lateral .. => []
  | _, .service .. => []

end Pattern

namespace PlacedBind

variable (sem : SolutionSemantics) (b : PlacedBind)

/-- The pattern that has a solution when the target is found unbound. -/
def question : Pattern :=
  .filter (.not (.bound b.target)) (Inlined.inGraph b.graph (.extend b.inner b.target b.expression))

/-- The graph is active below the name. -/
def IsActive (name : Option NamePattern) (g : Option Term) : Prop :=
  match name with
  | none => g = none
  | some (.iri i) => .iri i ∈ sem.graphs ∧ g = some (.iri i)
  | some (.var _) => ∃ t ∈ sem.graphs, g = some t

/-- In an active graph the expression has no value on some solution of the child. -/
def Fails : Prop :=
  ∃ g, IsActive sem b.graph g ∧ ∃ μ ∈ sem.rows g b.inner, sem.value g b.expression μ = none

/-- From outside of the graph the solution is seen without a value for the target: the graph does not
give it one, and does not drop the solution for another graph that it names. -/
def Shows (g : Option Term) (μ : Mapping) : Prop :=
  ∀ x ∈ Pattern.graphVariables b.graph, x ≠ b.target ∧ ∀ t ∈ g, μ.CountsIn x t

/-- The expression fails, and it shows. -/
def IsSeen : Prop :=
  ∃ g, IsActive sem b.graph g ∧
    ∃ μ ∈ sem.rows g b.inner, sem.value g b.expression μ = none ∧ b.Shows g μ

/-- The graph variable, if there is one, does not occur in the `BIND`. -/
def Apart : Prop :=
  ∀ x ∈ Pattern.graphVariables b.graph, x ≠ b.target ∧ x ∉ b.inner.mentions

variable {sem b}

theorem IsSeen.fails (h : b.IsSeen sem) : b.Fails sem := by
  obtain ⟨g, hg, μ, hμ, hvalue, _⟩ := h
  exact ⟨g, hg, μ, hμ, hvalue⟩

theorem isSeen_iff_fails (h : b.Apart) : b.IsSeen sem ↔ b.Fails sem := by
  constructor
  · exact IsSeen.fails
  · rintro ⟨g, hg, μ, hμ, hvalue⟩
    refine ⟨g, hg, μ, hμ, hvalue, fun x hx => ⟨(h x hx).1, fun t _ => .inl ?_⟩⟩
    by_contra hne
    exact (h x hx).2 (sem.rows_within g b.inner μ hμ x hne)

section Question
variable {g : Option Term} {p : Pattern} {x y : Variable} {e : Expr} {μ : Mapping} {t : Term}

/-- The rows of a `BIND` that lack its target come from the rows without a value. -/
theorem mem_unbound_extend (hx : x ∉ p.mentions) {ν : Mapping} :
    ν ∈ (sem.rows g (.extend p x e)).filter (fun μ => μ x = none) ↔
      ν ∈ sem.rows g p ∧ sem.value g e ν = none := by
  have hunbound : ∀ μ ∈ sem.rows g p, μ x = none := fun μ hμ =>
    by_contra fun hne => hx (sem.rows_within g p μ hμ x hne)
  rw [sem.rows_extend, Multiset.mem_filter]
  constructor
  · rintro ⟨hν, hnone⟩
    obtain ⟨μ, hμ, rfl⟩ := Multiset.mem_map.mp hν
    have hvalue := (Bag.extend_eq_none_iff (hunbound μ hμ)).mp hnone
    rw [hvalue]
    exact ⟨hμ, hvalue⟩
  · rintro ⟨hν, hvalue⟩
    refine ⟨Multiset.mem_map.mpr ⟨ν, hν, ?_⟩, hunbound ν hν⟩
    rw [hvalue]
    rfl

/-- A row that is put into the graph `t` lacks `x` when it lacked it before, and `y` is not `x`. -/
theorem exists_unbound_named {A : Bag} :
    (∃ ν ∈ Bag.join {Mapping.empty.set y t} A, ν x = none) ↔
      y ≠ x ∧ ∃ μ ∈ A.filter (fun μ => μ x = none), μ.CountsIn y t := by
  have happly : ∀ μ : Mapping, (Mapping.empty.set y t).merge μ x = none ↔ y ≠ x ∧ μ x = none := by
    intro μ
    by_cases hxy : x = y
    · simp [Mapping.merge, Mapping.set, hxy]
    · simp [Mapping.merge, Mapping.set, Mapping.empty, hxy, Ne.symm hxy]
  simp only [Bag.mem_join, Multiset.mem_singleton, exists_eq_left, Multiset.mem_filter]
  constructor
  · rintro ⟨_, ⟨μ, hμ, hc, rfl⟩, hnone⟩
    obtain ⟨hne, hnone⟩ := (happly μ).mp hnone
    exact ⟨hne, μ, ⟨hμ, hnone⟩, hc.countsIn (if_pos rfl)⟩
  · rintro ⟨hne, μ, ⟨hμ, hnone⟩, hcounts⟩
    have hc : μ.Compatible (Mapping.empty.set y t) := Mapping.compatible_name_iff.mpr hcounts
    exact ⟨_, ⟨μ, hμ, fun z u v hu hv => (hc z v u hv hu).symm, rfl⟩, (happly μ).mpr ⟨hne, hnone⟩⟩

end Question

/-- The question finds the failures that show. -/
theorem question_ne_zero_iff (hx : b.target ∉ b.inner.mentions) :
    sem.rows none b.question ≠ 0 ↔ b.IsSeen sem := by
  obtain ⟨name, p, x, e⟩ := b
  have hmem : sem.rows none (question ⟨name, p, x, e⟩) ≠ 0 ↔
      ∃ ν ∈ sem.rows none (Inlined.inGraph name (.extend p x e)), ν x = none := by
    rw [question, sem.rows_unbound, Ne, Multiset.eq_zero_iff_forall_notMem, not_forall_not]
    simp only [Multiset.mem_filter]
  rw [hmem]
  rcases name with _ | ⟨i⟩ | ⟨y⟩
  · have hgraph : ∀ ν, ν ∈ sem.rows none (.extend p x e) ∧ ν x = none ↔
        ν ∈ sem.rows none p ∧ sem.value none e ν = none := fun ν =>
      Multiset.mem_filter.symm.trans (mem_unbound_extend hx)
    simp [Inlined.inGraph, hgraph, IsSeen, IsActive, Shows, Pattern.graphVariables]
  · have hgraph : ∀ ν, ν ∈ sem.rows (some (.iri i)) (.extend p x e) ∧ ν x = none ↔
        ν ∈ sem.rows (some (.iri i)) p ∧ sem.value (some (.iri i)) e ν = none := fun ν =>
      Multiset.mem_filter.symm.trans (mem_unbound_extend hx)
    by_cases hi : Term.iri i ∈ sem.graphs
    · simp [Inlined.inGraph, sem.rows_graph_iri, hi, hgraph, IsSeen, IsActive, Shows,
        Pattern.graphVariables, NamePattern.vars]
    · simp [Inlined.inGraph, sem.rows_graph_iri, hi, IsSeen, IsActive]
  · have hgraph : ∀ t : Term,
        (∃ ν ∈ Bag.join {Mapping.empty.set y t} (sem.rows (some t) (.extend p x e)), ν x = none) ↔
          y ≠ x ∧ ∃ μ, (μ ∈ sem.rows (some t) p ∧ sem.value (some t) e μ = none) ∧
            μ.CountsIn y t := by
      intro t
      simp only [exists_unbound_named, mem_unbound_extend hx]
    constructor
    · rintro ⟨ν, hν, hnone⟩
      rw [Inlined.inGraph, sem.rows_graph_var] at hν
      obtain ⟨t, ht, hν⟩ := Multiset.mem_bind.mp hν
      obtain ⟨hyx, μ, ⟨hμ, hvalue⟩, hcounts⟩ := (hgraph t).mp ⟨ν, hν, hnone⟩
      refine ⟨some t, ⟨t, ht, rfl⟩, μ, hμ, hvalue, fun z hz => ?_⟩
      obtain rfl := List.mem_singleton.mp hz
      exact ⟨hyx, fun u hu => Option.some.inj hu ▸ hcounts⟩
    · rintro ⟨_, ⟨t, ht, rfl⟩, μ, hμ, hvalue, hshows⟩
      obtain ⟨hyx, hcounts⟩ := hshows y (List.mem_singleton.mpr rfl)
      obtain ⟨ν, hν, hnone⟩ := (hgraph t).mpr ⟨hyx, μ, ⟨hμ, hvalue⟩, hcounts t rfl⟩
      refine ⟨ν, ?_, hnone⟩
      rw [Inlined.inGraph, sem.rows_graph_var]
      exact Multiset.mem_bind.mpr ⟨t, ht, hν⟩

end PlacedBind

end SparqlBind

end
