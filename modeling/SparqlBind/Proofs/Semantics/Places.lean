import Mathlib.Algebra.BigOperators.Group.Finset.Basic
import SparqlBind.Proofs.Semantics.Reference

/-!
# Evaluation in all graphs of a name

A pattern under `GRAPH` is evaluated in every graph that the name stands for, and each row is
extended with the graph it comes from. Row-wise operators can be applied to the rows of all graphs
at once: rows of different graphs are not compatible, so nothing of one graph meets another.
-/

noncomputable section

open scoped Classical

namespace SparqlBind

/-- The name of a graph as part of a row. -/
def graphTag : Option NamePattern → Option Term → Mapping
  | some (.var x), some t => Mapping.empty.set x t
  | _, _ => Mapping.empty

namespace Semantics

variable (sem : Semantics)

/-- The graphs that a name stands for; without a name it is the default graph. -/
def places : Option NamePattern → Finset (Option Term)
  | none => {none}
  | some (.iri i) => if .iri i ∈ sem.graphs then {some (.iri i)} else ∅
  | some (.var _) => sem.graphs.image some

/-- The rows of all graphs of a name, each with its graph. -/
def spread (name : Option NamePattern) (A : Option Term → Bag) : Bag :=
  (sem.places name).val.bind fun g => (A g).map (graphTag name g).merge

/-- The same if there are rows for every graph. -/
def everywhere (name : Option NamePattern) (A : Option Term → Option Bag) : Option Bag :=
  if ∀ g ∈ sem.places name, A g ≠ none then some (sem.spread name fun g => (A g).getD 0) else none

variable {sem} {name : Option NamePattern} {g h : Option Term} {μ ν : Mapping}
variable {A B : Option Term → Bag} {x : Variable}

/-- The mapping leaves the variable of the graph alone. -/
abbrev Untagged (name : Option NamePattern) (x : Variable) : Prop :=
  x ∉ Pattern.graphVariables name

theorem graphTag_eq_none (hx : Untagged name x) : graphTag name g x = none := by
  rcases name with _ | ⟨i⟩ | ⟨y⟩
  · rfl
  · rfl
  · cases g with
    | none => rfl
    | some t =>
      have hxy : x ≠ y := fun h => hx (List.mem_singleton.mpr h)
      simp [graphTag, Mapping.set, Mapping.empty, hxy]

theorem eq_of_compatible_graphTag (hg : g ∈ sem.places name) (hh : h ∈ sem.places name)
    (hc : (graphTag name g).Compatible (graphTag name h)) : g = h := by
  rcases name with _ | ⟨i⟩ | ⟨y⟩
  · rw [Finset.mem_singleton.mp hg, Finset.mem_singleton.mp hh]
  · unfold places at hg hh
    dsimp only at hg hh
    split at hg
    · rename_i hi
      rw [if_pos hi] at hh
      rw [Finset.mem_singleton.mp hg, Finset.mem_singleton.mp hh]
    · exact absurd hg (Finset.notMem_empty g)
  · obtain ⟨t, _, rfl⟩ := Finset.mem_image.mp hg
    obtain ⟨u, _, rfl⟩ := Finset.mem_image.mp hh
    have htu : t = u := hc y t u (if_pos rfl) (if_pos rfl)
    rw [htu]

theorem merge_graphTag_apply (hx : Untagged name x) : (graphTag name g).merge μ x = μ x := by
  simp [Mapping.merge, graphTag_eq_none hx]

theorem compatible_merge_graphTag (hμ : μ.Within (Untagged name)) (hν : ν.Within (Untagged name))
    (hg : g ∈ sem.places name) (hh : h ∈ sem.places name) :
    ((graphTag name g).merge μ).Compatible ((graphTag name h).merge ν) ↔
      g = h ∧ μ.Compatible ν := by
  constructor
  · intro hc
    refine ⟨eq_of_compatible_graphTag hg hh fun x t u ht hu => hc x t u ?_ ?_, ?_⟩
    · simp [Mapping.merge, ht]
    · simp [Mapping.merge, hu]
    · intro x t u ht hu
      have hx : Untagged name x := hμ x (by simp [ht])
      exact hc x t u ((merge_graphTag_apply hx).trans ht) ((merge_graphTag_apply hx).trans hu)
  · rintro ⟨rfl, hc⟩ x t u ht hu
    by_cases hx : Untagged name x
    · rw [merge_graphTag_apply hx] at ht hu
      exact hc x t u ht hu
    · have hμx : μ x = none := by_contra fun h => hx (hμ x h)
      have hνx : ν x = none := by_contra fun h => hx (hν x h)
      simp only [Mapping.merge, hμx, hνx, Option.or_none] at ht hu
      exact Option.some.inj (ht.symm.trans hu)

theorem merge_merge_graphTag (hμ : μ.Within (Untagged name)) (hν : ν.Within (Untagged name)) :
    ((graphTag name g).merge μ).merge ((graphTag name g).merge ν) =
      (graphTag name g).merge (μ.merge ν) := by
  funext x
  by_cases hx : Untagged name x
  · simp [Mapping.merge, graphTag_eq_none hx]
  · have hμx : μ x = none := by_contra fun h => hx (hμ x h)
    have hνx : ν x = none := by_contra fun h => hx (hν x h)
    simp [Mapping.merge, hμx, hνx]

theorem merge_graphTag_inj (hμ : μ.Within (Untagged name)) (hν : ν.Within (Untagged name))
    (h : (graphTag name g).merge μ = (graphTag name g).merge ν) : μ = ν := by
  funext x
  by_cases hx : Untagged name x
  · rw [← merge_graphTag_apply hx (μ := μ), h, merge_graphTag_apply hx]
  · have hμx : μ x = none := by_contra fun h => hx (hμ x h)
    have hνx : ν x = none := by_contra fun h => hx (hν x h)
    rw [hμx, hνx]

/-! ## Operators on the rows of all graphs -/

theorem mem_spread :
    ν ∈ sem.spread name A ↔ ∃ g ∈ sem.places name, ∃ μ ∈ A g, (graphTag name g).merge μ = ν := by
  simp only [spread, Multiset.mem_bind, Finset.mem_val, Multiset.mem_map]

theorem spread_congr (h : ∀ g ∈ sem.places name, A g = B g) :
    sem.spread name A = sem.spread name B :=
  Multiset.bind_congr fun g hg => by rw [h g hg]

theorem everywhere_congr {A B : Option Term → Option Bag} (h : ∀ g ∈ sem.places name, A g = B g) :
    sem.everywhere name A = sem.everywhere name B := by
  have hall : (∀ g ∈ sem.places name, A g ≠ none) ↔ ∀ g ∈ sem.places name, B g ≠ none :=
    forall₂_congr fun g hg => by rw [h g hg]
  have hspread : sem.spread name (fun g => (A g).getD 0) = sem.spread name fun g => (B g).getD 0 :=
    spread_congr fun g hg => by rw [h g hg]
  simp only [everywhere, hall, hspread]

theorem everywhere_eq_some {A : Option Term → Option Bag}
    (h : ∀ g ∈ sem.places name, A g = some (B g)) :
    sem.everywhere name A = some (sem.spread name B) := by
  rw [everywhere_congr h]
  exact if_pos fun g _ => Option.some_ne_none _

theorem everywhere_eq_none {A : Option Term → Option Bag} (hg : g ∈ sem.places name)
    (h : A g = none) : sem.everywhere name A = none :=
  if_neg fun hall => hall g hg h

theorem exists_of_everywhere {A : Option Term → Option Bag} {C : Bag}
    (h : sem.everywhere name A = some C) :
    ∃ B : Option Term → Bag, (∀ g ∈ sem.places name, A g = some (B g)) ∧ C = sem.spread name B := by
  unfold everywhere at h
  split at h
  · rename_i hall
    refine ⟨fun g => (A g).getD 0, fun g hg => ?_, (Option.some.inj h).symm⟩
    obtain ⟨B, hB⟩ := Option.ne_none_iff_exists'.mp (hall g hg)
    simp only [hB, Option.getD_some]
  · cases h

/-- Only one graph has rows that go together with a row of graph `g`. -/
theorem matching_spread (hg : g ∈ sem.places name) (hμ : μ.Within (Untagged name))
    (hB : ∀ h ∈ sem.places name, (B h).Within (Untagged name)) :
    Bag.matching ((graphTag name g).merge μ) (sem.spread name B) =
      (Bag.matching μ (B g)).map (graphTag name g).merge := by
  let F (h : Option Term) : Bag :=
    Bag.matching ((graphTag name g).merge μ) ((B h).map (graphTag name h).merge)
  have hbind : Bag.matching ((graphTag name g).merge μ) (sem.spread name B) =
      ∑ h ∈ sem.places name, F h := by
    rw [Bag.matching, spread, Multiset.filter_bind, Multiset.map_bind]
    rfl
  have hothers : ∀ h ∈ sem.places name, h ≠ g → F h = 0 := by
    intro h hh hne
    refine Multiset.eq_zero_of_forall_notMem fun ν hν => ?_
    obtain ⟨ρ, hρ, hc, _⟩ := Bag.mem_matching.mp hν
    obtain ⟨ν, hν, rfl⟩ := Multiset.mem_map.mp hρ
    exact hne ((compatible_merge_graphTag hμ (hB h hh ν hν) hg hh).mp hc).1.symm
  rw [hbind, Finset.sum_eq_single_of_mem g hg hothers]
  simp only [F, Bag.matching, Multiset.filter_map, Multiset.map_map]
  have hfilter : (B g).filter ((fun ν => ((graphTag name g).merge μ).Compatible ν) ∘
      (graphTag name g).merge) = (B g).filter fun ν => μ.Compatible ν :=
    Multiset.filter_congr fun ν hν => by
      simp [compatible_merge_graphTag hμ (hB g hg ν hν) hg hg]
  rw [hfilter]
  refine Multiset.map_congr rfl fun ν hν => ?_
  exact merge_merge_graphTag hμ (hB g hg ν (Multiset.mem_filter.mp hν).1)

/-- What is done with each row and its matches can be done graph by graph. -/
theorem spread_bind {F : Mapping → Bag} {G : Option Term → Mapping → Bag}
    (h : ∀ g ∈ sem.places name, ∀ μ ∈ A g,
      F ((graphTag name g).merge μ) = (G g μ).map (graphTag name g).merge) :
    (sem.spread name A).bind F = sem.spread name fun g => (A g).bind (G g) := by
  unfold spread
  rw [Multiset.bind_assoc]
  refine Multiset.bind_congr fun g hg => ?_
  rw [Multiset.bind_map, Multiset.map_bind]
  exact Multiset.bind_congr fun μ hμ => h g hg μ hμ

theorem join_spread (hA : ∀ g ∈ sem.places name, (A g).Within (Untagged name))
    (hB : ∀ g ∈ sem.places name, (B g).Within (Untagged name)) :
    (sem.spread name A).join (sem.spread name B) = sem.spread name fun g => (A g).join (B g) :=
  spread_bind fun g hg μ hμ => matching_spread hg (hA g hg μ hμ) hB

theorem leftJoin_spread {holds : Mapping → Bool}
    (hA : ∀ g ∈ sem.places name, (A g).Within (Untagged name))
    (hB : ∀ g ∈ sem.places name, (B g).Within (Untagged name))
    (hholds : ∀ g μ, holds ((graphTag name g).merge μ) = holds μ) :
    (sem.spread name A).leftJoin holds (sem.spread name B) =
      sem.spread name fun g => (A g).leftJoin holds (B g) := by
  refine spread_bind fun g hg μ hμ => ?_
  have hfound : (Bag.matching ((graphTag name g).merge μ) (sem.spread name B)).filter
        (fun ν => holds ν = true) =
      ((Bag.matching μ (B g)).filter fun ν => holds ν = true).map (graphTag name g).merge := by
    rw [matching_spread hg (hA g hg μ hμ) hB, Multiset.filter_map]
    simp only [Function.comp_def, hholds]
  simp only [Bag.optionally, hfound, Multiset.map_eq_zero]
  split
  · rw [Multiset.map_singleton]
  · rfl

theorem add_spread :
    sem.spread name A + sem.spread name B = sem.spread name fun g => A g + B g := by
  simp only [spread, Multiset.map_add, Multiset.bind_add]

theorem select_spread {holds : Mapping → Bool}
    (hholds : ∀ g μ, holds ((graphTag name g).merge μ) = holds μ) :
    (sem.spread name A).select holds = sem.spread name fun g => (A g).select holds := by
  simp only [spread, Bag.select, Multiset.filter_bind, Multiset.filter_map, Function.comp_def,
    hholds]

theorem extend_spread {f : Mapping → Option Term} (hx : Untagged name x)
    (hf : ∀ g μ, f ((graphTag name g).merge μ) = f μ) :
    (sem.spread name A).extend x f = sem.spread name fun g => (A g).extend x f := by
  have hrow : ∀ g μ, ((graphTag name g).merge μ).extend x (f ((graphTag name g).merge μ)) =
      (graphTag name g).merge (μ.extend x (f μ)) := by
    intro g μ
    funext y
    rw [hf, Mapping.extend_apply]
    by_cases hy : y = x
    · subst hy
      simp [graphTag_eq_none hx, Mapping.merge, Mapping.extend_apply]
    · simp [hy, Mapping.merge, Mapping.extend_apply]
  simp only [spread, Bag.extend, Multiset.map_bind, Multiset.map_map, Function.comp_def, hrow]

theorem project_spread {xs : List Variable}
    (hA : ∀ g ∈ sem.places name, (A g).Within (Untagged name)) :
    (sem.spread name A).project (xs ++ Pattern.graphVariables name) =
      sem.spread name fun g => (A g).project xs := by
  have hrow : ∀ g ∈ sem.places name, ∀ μ ∈ A g,
      ((graphTag name g).merge μ).restrict (xs ++ Pattern.graphVariables name) =
        (graphTag name g).merge (μ.restrict xs) := by
    intro g hg μ hμ
    funext y
    simp only [Mapping.restrict, Mapping.merge, List.mem_append]
    by_cases hy : Untagged name y
    · simp [graphTag_eq_none hy, hy]
    · have hμy : μ y = none := by_contra fun h => hy (hA g hg μ hμ y h)
      simp [not_not.mp hy, hμy]
  simp only [spread, Bag.project, Multiset.map_bind, Multiset.map_map]
  refine Multiset.bind_congr fun g hg => Multiset.map_congr rfl fun μ hμ => ?_
  exact hrow g hg μ hμ

theorem distinct_spread (hA : ∀ g ∈ sem.places name, (A g).Within (Untagged name)) :
    (sem.spread name A).distinct = sem.spread name fun g => (A g).distinct := by
  have hnodup : (sem.spread name fun g => (A g).distinct).Nodup := by
    unfold spread
    rw [Multiset.nodup_bind]
    constructor
    · intro g hg
      refine Multiset.Nodup.map_on ?_ (Multiset.nodup_dedup (A g))
      intro μ hμ ν hν h
      exact merge_graphTag_inj (hA g hg μ (Multiset.mem_dedup.mp hμ))
        (hA g hg ν (Multiset.mem_dedup.mp hν)) h
    · refine Multiset.Nodup.pairwise (fun g hg h hh hne => ?_) (sem.places name).nodup
      refine Multiset.disjoint_left.mpr fun hleft hright => hne ?_
      obtain ⟨μ, hμ, rfl⟩ := Multiset.mem_map.mp hleft
      obtain ⟨ν, hν, heq⟩ := Multiset.mem_map.mp hright
      have hμ := hA g hg μ (Multiset.mem_dedup.mp hμ)
      have hν := hA h hh ν (Multiset.mem_dedup.mp hν)
      refine ((compatible_merge_graphTag hμ hν hg hh).mp ?_).1
      rw [heq]
      exact Mapping.compatible_refl _
  refine (Multiset.Nodup.ext (Multiset.nodup_dedup _) hnodup).mpr fun ν => ?_
  simp only [Multiset.mem_dedup, mem_spread, Bag.distinct]

theorem extend?_spread {f : Mapping → Option Term} (hx : Untagged name x)
    (hf : ∀ g μ, f ((graphTag name g).merge μ) = f μ) :
    (sem.spread name A).extend? x f = sem.everywhere name fun g => (A g).extend? x f := by
  by_cases hall : ∀ g ∈ sem.places name, ∀ μ ∈ A g, f μ ≠ none
  · have hleft : ∀ ν ∈ sem.spread name A, f ν ≠ none := by
      intro ν hν
      obtain ⟨g, hg, μ, hμ, rfl⟩ := mem_spread.mp hν
      rw [hf]
      exact hall g hg μ hμ
    rw [Bag.extend?_eq_some hleft, extend_spread hx hf]
    exact (everywhere_eq_some fun g hg => Bag.extend?_eq_some (hall g hg)).symm
  · push Not at hall
    obtain ⟨g, hg, μ, hμ, hfail⟩ := hall
    have hμ' := mem_spread.mpr ⟨g, hg, μ, hμ, rfl⟩
    rw [Bag.extend?_eq_none hμ' ((hf g μ).trans hfail)]
    exact (everywhere_eq_none hg (Bag.extend?_eq_none hμ hfail)).symm

/-! ## Gathering an evaluation graph by graph -/

/-- One step of an evaluation, taken on the rows of all graphs or in each of them. -/
theorem everywhere_bind {A : Option Term → Option Bag} {F : Bag → Option Bag}
    {G : Option Term → Bag → Option Bag}
    (h : ∀ B : Option Term → Bag, (∀ g ∈ sem.places name, A g = some (B g)) →
      F (sem.spread name B) = sem.everywhere name fun g => G g (B g)) :
    (sem.everywhere name A).bind F = sem.everywhere name fun g => (A g).bind (G g) := by
  by_cases hall : ∀ g ∈ sem.places name, A g ≠ none
  · have hA : ∀ g ∈ sem.places name, A g = some ((A g).getD 0) := by
      intro g hg
      obtain ⟨B, hB⟩ := Option.ne_none_iff_exists'.mp (hall g hg)
      rw [hB, Option.getD_some]
    rw [everywhere_eq_some hA, Option.bind_some, h _ hA]
    exact everywhere_congr fun g hg => by rw [hA g hg, Option.bind_some, Option.getD_some]
  · push Not at hall
    obtain ⟨g, hg, hnone⟩ := hall
    rw [everywhere_eq_none hg hnone, Option.bind_none]
    exact (everywhere_eq_none hg (by rw [hnone, Option.bind_none])).symm

/-- The rows of a pattern under a graph name. -/
theorem rows_inGraph {p : Pattern} (hfresh : ∀ x ∈ p.mentions, Untagged name x) :
    sem.rows none (Inlined.inGraph name p) = sem.spread name fun g => sem.rows g p := by
  rcases name with _ | ⟨i⟩ | ⟨y⟩
  · simp [Inlined.inGraph, spread, places, graphTag, Bag.map_empty_merge]
  · by_cases hi : .iri i ∈ sem.graphs
    · simp [Inlined.inGraph, rows, spread, places, graphTag, hi, Bag.map_empty_merge]
    · simp [Inlined.inGraph, rows, spread, places, hi]
  · have hplaces : (sem.places (some (.var y))).val = sem.graphs.val.map some :=
      Finset.image_val_of_injOn (Option.some_injective _).injOn
    simp only [Inlined.inGraph, rows, spread, hplaces, Multiset.bind_map]
    refine Multiset.bind_congr fun t _ => ?_
    rw [Bag.join, Multiset.singleton_bind]
    refine Bag.matching_eq_map fun μ hμ => ?_
    intro x u v hu hv
    have hx := hfresh x (sem.rows_within p (some t) μ hμ x (by simp [hv]))
    have hnone : graphTag (some (.var y)) (some t) x = none := graphTag_eq_none hx
    exact absurd (hnone.symm.trans hu) (by simp)

theorem value_merge_graphTag {e : Expr} (he : e.isPlain sem.known = true)
    (hfresh : ∀ x ∈ e.vars, Untagged name x) (g : Option Term) (μ : Mapping) :
    sem.value e ((graphTag name g).merge μ) = sem.value e μ :=
  sem.value_congr e _ _ he fun x hx => merge_graphTag_apply (hfresh x hx)

variable {functions : ScalarFunctions}

theorem within_of_evaluate {p : Pattern} {A : Bag} (hfresh : ∀ x ∈ p.vars, Untagged name x)
    (h : sem.evaluate functions g p = some A) : A.Within (Untagged name) := by
  refine ((scoped_inGraph g).reference_within h).mono fun x hx => ?_
  rcases hx with hx | hx
  · exact hfresh x (Pattern.mem_vars_of_mentions hx)
  · exact absurd hx List.not_mem_nil

theorem reference_under_leaf {p : Pattern} (hfresh : ∀ x ∈ p.vars, Untagged name x)
    (hunder : sem.reference functions (sem.under name) p =
      some (sem.rows none (Inlined.inGraph name p)))
    (hplace : ∀ g, sem.evaluate functions g p = some (sem.rows g p)) :
    sem.reference functions (sem.under name) p =
      sem.everywhere name fun g => sem.evaluate functions g p := by
  rw [hunder, rows_inGraph fun x hx => hfresh x (Pattern.mem_vars_of_mentions hx)]
  exact (everywhere_eq_some fun g _ => hplace g).symm

/-- An operator on two parts, gathered. -/
theorem everywhere_bind₂ {A B : Option Term → Option Bag} {op : Bag → Bag → Bag}
    (h : ∀ C D : Option Term → Bag, (∀ g ∈ sem.places name, A g = some (C g)) →
      (∀ g ∈ sem.places name, B g = some (D g)) →
      op (sem.spread name C) (sem.spread name D) = sem.spread name fun g => op (C g) (D g)) :
    ((sem.everywhere name A).bind fun C => (sem.everywhere name B).bind fun D => some (op C D)) =
      sem.everywhere name fun g => (A g).bind fun C => (B g).bind fun D => some (op C D) := by
  refine everywhere_bind fun C hC => everywhere_bind fun D hD => ?_
  rw [h C D hC hD]
  exact (everywhere_eq_some fun _ _ => rfl).symm

/-- An operator on one part, gathered. -/
theorem everywhere_bind₁ {A : Option Term → Option Bag} {op opEach : Bag → Bag}
    (h : ∀ C : Option Term → Bag, (∀ g ∈ sem.places name, A g = some (C g)) →
      op (sem.spread name C) = sem.spread name fun g => opEach (C g)) :
    ((sem.everywhere name A).bind fun C => some (op C)) =
      sem.everywhere name fun g => (A g).bind fun C => some (opEach C) := by
  refine everywhere_bind fun C hC => ?_
  rw [h C hC]
  exact (everywhere_eq_some fun _ _ => rfl).symm

/-- Evaluating all graphs of a name at once is evaluating them one by one. A function that is not
registered fails even where there is no graph. -/
theorem reference_under {p : Pattern} (hp : sem.Inlinable true p)
    (hfresh : ∀ x ∈ p.vars, Untagged name x)
    (hcalls : ∀ f ∈ p.extensionCalls, (functions.lookup f.text).isSome = true) :
    sem.reference functions (sem.under name) p =
      sem.everywhere name fun g => sem.evaluate functions g p := by
  induction hp with
  | bgp triples => exact reference_under_leaf hfresh rfl fun g => rfl
  | path s p o => exact reference_under_leaf hfresh rfl fun g => rfl
  | values xs table => exact reference_under_leaf hfresh rfl fun g => rfl
  | @join l r _ _ ihl ihr =>
    have hl : ∀ x ∈ l.vars, Untagged name x := fun x hx => hfresh x (List.mem_append_left _ hx)
    have hr : ∀ x ∈ r.vars, Untagged name x := fun x hx => hfresh x (List.mem_append_right _ hx)
    rw [reference, ihl hl fun f hf => hcalls f (List.mem_append_left _ hf),
      ihr hr fun f hf => hcalls f (List.mem_append_right _ hf)]
    exact everywhere_bind₂ fun C D hC hD =>
      join_spread (fun g hg => within_of_evaluate hl (hC g hg))
        fun g hg => within_of_evaluate hr (hD g hg)
  | @leftJoin l r e he _ _ ihl ihr =>
    have hl : ∀ x ∈ l.vars, Untagged name x := fun x hx =>
      hfresh x (List.mem_append_left _ (List.mem_append_left _ hx))
    have hr : ∀ x ∈ r.vars, Untagged name x := fun x hx =>
      hfresh x (List.mem_append_left _ (List.mem_append_right _ hx))
    have hcondition : ∀ g μ, sem.condition e ((graphTag name g).merge μ) = sem.condition e μ := by
      intro g μ
      cases e with
      | none => rfl
      | some e =>
        have hvalue := value_merge_graphTag he (fun x hx => hfresh x (List.mem_append_right _ hx)) g μ
        simp only [condition, holds, hvalue]
    rw [reference, ihl hl fun f hf => hcalls f (List.mem_append_left _ hf),
      ihr hr fun f hf => hcalls f (List.mem_append_right _ hf)]
    exact everywhere_bind₂ fun C D hC hD =>
      leftJoin_spread (fun g hg => within_of_evaluate hl (hC g hg))
        (fun g hg => within_of_evaluate hr (hD g hg)) hcondition
  | @union l r _ _ ihl ihr =>
    have hl : ∀ x ∈ l.vars, Untagged name x := fun x hx => hfresh x (List.mem_append_left _ hx)
    have hr : ∀ x ∈ r.vars, Untagged name x := fun x hx => hfresh x (List.mem_append_right _ hx)
    rw [reference, ihl hl fun f hf => hcalls f (List.mem_append_left _ hf),
      ihr hr fun f hf => hcalls f (List.mem_append_right _ hf)]
    exact everywhere_bind₂ fun C D _ _ => add_spread
  | @filter e p he _ ih =>
    have hvalue := value_merge_graphTag he fun x hx => hfresh x (List.mem_append_left _ hx)
    rw [reference, ih (fun x hx => hfresh x (List.mem_append_right _ hx)) hcalls]
    exact everywhere_bind₁ fun C _ =>
      select_spread fun g μ => congrArg (Option.any sem.effective) (hvalue g μ)
  | @call p x e f arguments he hargs _ ih =>
    have hp : ∀ y ∈ p.vars, Untagged name y := fun y hy =>
      hfresh y (List.mem_cons_of_mem _ (List.mem_append_right _ hy))
    have hx : Untagged name x := hfresh x List.mem_cons_self
    have hvars : ∀ a ∈ arguments, ∀ y ∈ a.vars, Untagged name y := fun a ha y hy =>
      hfresh y (List.mem_cons_of_mem _ (List.mem_append_left _ (vars_of_argument he ha hy)))
    have hf : (functions.lookup f.text).isSome = true :=
      hcalls f (List.mem_append_right _ (by simp [he, BindExpression.function?]))
    obtain ⟨g, hg⟩ := Option.isSome_iff_exists.mp hf
    rw [reference, ih hp fun f hf => hcalls f (List.mem_append_left _ hf)]
    refine everywhere_bind fun C _ => ?_
    simp only [he, bind?, hg, Option.bind_some]
    refine extend?_spread hx fun h μ => ?_
    rw [arguments?_congr fun a ha => value_merge_graphTag (hargs a ha) (hvars a ha) h μ]
  | @builtIn p x e he hplain _ _ ih =>
    have hp : ∀ y ∈ p.vars, Untagged name y := fun y hy =>
      hfresh y (List.mem_cons_of_mem _ (List.mem_append_right _ hy))
    have hx : Untagged name x := hfresh x List.mem_cons_self
    have hvalue := value_merge_graphTag hplain fun y hy =>
      hfresh y (List.mem_cons_of_mem _ (List.mem_append_left _ hy))
    rw [reference, ih hp fun f hf => hcalls f (List.mem_append_left _ hf)]
    refine everywhere_bind fun C _ => ?_
    simp only [he, bind?]
    split
    · rw [extend_spread hx hvalue]
      exact (everywhere_eq_some fun _ _ => rfl).symm
    · exact extend?_spread hx hvalue
  | @project p xs _ ih =>
    have hp : ∀ y ∈ p.vars, Untagged name y := fun y hy => hfresh y (List.mem_append_right _ hy)
    rw [reference, ih hp hcalls]
    refine everywhere_bind fun C hC => ?_
    rw [under, project_spread fun g hg => within_of_evaluate hp (hC g hg)]
    exact (everywhere_eq_some fun g _ => by rw [inGraph, List.append_nil]).symm
  | @distinct p _ ih =>
    rw [reference, ih hfresh hcalls]
    exact everywhere_bind₁ fun C hC =>
      distinct_spread fun g hg => within_of_evaluate (p := p) hfresh (hC g hg)
  | minus h => cases h
  | orderBy h => cases h
  | group h => cases h

/-- Where no function is called the evaluation gives the rows of the pattern in the graphs. -/
theorem rows_eq_of_reference_under {rowWise : Bool} {p : Pattern} {A : Bag}
    (hp : sem.Inlinable rowWise p) (hname : rowWise = true ∨ name = none)
    (hfresh : ∀ x ∈ p.vars, Untagged name x) (hcalls : p.extensionCalls = [])
    (h : sem.reference functions (sem.under name) p = some A) :
    A = sem.rows none (Inlined.inGraph name p) := by
  rcases hname with rfl | rfl
  · rw [reference_under hp hfresh (by simp [hcalls])] at h
    obtain ⟨B, hB, rfl⟩ := exists_of_everywhere h
    rw [rows_inGraph fun x hx => hfresh x (Pattern.mem_vars_of_mentions hx)]
    exact spread_congr fun g hg => rows_eq_of_evaluate hcalls (hB g hg)
  · exact rows_eq_of_evaluate hcalls h

/-- A built-in `BIND` in the graphs of a name. -/
theorem rows_inGraph_extend {p : Pattern} {x : Variable} {e : Expr}
    (he : e.isPlain sem.known = true) (hfresh : ∀ y ∈ (Pattern.extend p x e).vars, Untagged name y) :
    sem.rows none (Inlined.inGraph name (.extend p x e)) =
      (sem.rows none (Inlined.inGraph name p)).extend x (sem.value e) := by
  have hp : ∀ y ∈ p.mentions, Untagged name y := fun y hy =>
    hfresh y (Pattern.mem_vars_of_mentions (List.mem_cons_of_mem _ hy))
  have hx : Untagged name x := hfresh x List.mem_cons_self
  have hvalue := value_merge_graphTag he fun y hy =>
    hfresh y (List.mem_cons_of_mem _ (List.mem_append_left _ hy))
  rw [rows_inGraph fun y hy => hfresh y (Pattern.mem_vars_of_mentions hy), rows_inGraph hp,
    extend_spread hx hvalue]
  rfl

end Semantics

end SparqlBind

end
