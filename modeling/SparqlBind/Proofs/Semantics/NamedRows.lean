import SparqlBind.Proofs.Semantics.Bag

/-!
# Rows of several graphs in one bag

Rows of all graphs stand in one bag, and a variable says which graph a row comes from. A row without
it counts in every graph. Joining such a bag with the names of the graphs splits it by graph; what
this does to a difference is worked out here, since the variable is shared by all rows that have it.
-/

noncomputable section

open scoped Classical

namespace SparqlBind

namespace Mapping

/-- In graph `i` the row counts: it names this graph, or none. -/
def CountsIn (g : Variable) (i : Term) (μ : Mapping) : Prop := μ g = none ∨ μ g = some i

/-- Some variable other than `g` is bound in both. -/
def SharesBeyond (g : Variable) (μ ν : Mapping) : Prop := ∃ x, x ≠ g ∧ μ x ≠ none ∧ ν x ≠ none

variable {g x : Variable} {i : Term} {μ ν : Mapping}

theorem compatible_name_iff : μ.Compatible (empty.set g i) ↔ μ.CountsIn g i := by
  constructor
  · intro h
    cases hg : μ g with
    | none => exact .inl hg
    | some t =>
      have hti : t = i := h g t i hg (if_pos rfl)
      exact .inr (hg.trans (congrArg some hti))
  · intro h x t u ht hu
    rw [set_apply] at hu
    split at hu
    · rename_i hx
      subst hx
      rcases h with h | h
      · exact absurd (h.symm.trans ht) (Option.some_ne_none t).symm
      · exact Option.some.inj (ht.symm.trans (h.trans hu))
    · cases hu

theorem merge_name (h : μ.CountsIn g i) : μ.merge (empty.set g i) = μ.set g i := by
  funext x
  rw [merge, set_apply, set_apply]
  by_cases hx : x = g
  · subst hx
    rcases h with h | h
    · simp [h]
    · simp [h]
  · simp [hx, empty]

theorem set_eq_self (h : μ g = some i) : μ.set g i = μ := by
  funext x
  rw [set_apply]
  split
  · rename_i hx
    rw [hx, h]
  · rfl

theorem SharesBeyond.shares (h : μ.SharesBeyond g ν) : μ.Shares ν := by
  obtain ⟨x, _, hx⟩ := h
  exact ⟨x, hx⟩

theorem Compatible.countsIn (h : μ.Compatible ν) (hμ : μ g = some i) : ν.CountsIn g i := by
  cases hν : ν g with
  | none => exact .inl hν
  | some t => exact .inr (hν.trans (congrArg some (h g i t hμ hν).symm))

end Mapping

namespace Bag

/-- The rows that say which graphs there are. -/
def graphRows (graphs : List Term) (g : Variable) : Bag :=
  (graphs.map (Mapping.empty.set g) : List Mapping)

/-- The rows of all graphs, each with the name of its graph. -/
def byGraph (graphs : List Term) (g : Variable) (A : Term → Bag) : Bag :=
  (graphs : Multiset Term).bind fun i => (A i).map (·.set g i)

variable {graphs : List Term} {g : Variable} {i : Term} {A B : Bag} {μ : Mapping}

theorem matching_graphRows :
    matching μ (graphRows graphs g) =
      ((graphs : Multiset Term).filter fun i => μ.CountsIn g i).map (μ.set g) := by
  have hrows : graphRows graphs g = (graphs : Multiset Term).map (Mapping.empty.set g) := rfl
  rw [matching, hrows, Multiset.filter_map, Multiset.map_map]
  simp only [Function.comp_def, Mapping.compatible_name_iff]
  refine Multiset.map_congr rfl fun i hi => ?_
  exact Mapping.merge_name (Multiset.mem_filter.mp hi).2

theorem named_of_mem_join (μ : Mapping) (h : μ ∈ A.join (graphRows graphs g)) :
    ∃ i ∈ graphs, μ g = some i := by
  obtain ⟨ν, hν, hμ⟩ := Multiset.mem_bind.mp h
  rw [matching_graphRows] at hμ
  obtain ⟨i, hi, rfl⟩ := Multiset.mem_map.mp hμ
  exact ⟨i, (Multiset.mem_filter.mp hi).1, if_pos rfl⟩

/-- Joined with the names of the graphs, a bag is split by graph. -/
theorem join_graphRows :
    A.join (graphRows graphs g) =
      byGraph graphs g fun i => A.filter fun μ => μ.CountsIn g i := by
  have hsplit : ∀ (s : Multiset Term) (p : Term → Prop) (f : Term → Mapping),
      (s.filter p).map f = s.bind fun i => if p i then {f i} else 0 := by
    intro s p f
    rw [← Multiset.bind_singleton, Multiset.bind_filter]
  have hrows : ∀ (i : Term), (A.filter fun μ => μ.CountsIn g i).map (·.set g i) =
      A.bind fun μ => if μ.CountsIn g i then {μ.set g i} else 0 := by
    intro i
    rw [← Multiset.bind_singleton, Multiset.bind_filter]
  unfold join byGraph
  simp only [matching_graphRows, hsplit, hrows]
  exact Multiset.bind_bind _ _

/-- Rows that all name a graph are left as they are. -/
theorem join_graphRows_of_named (hnodup : graphs.Nodup)
    (h : ∀ μ ∈ A, ∃ i ∈ graphs, μ g = some i) : A.join (graphRows graphs g) = A := by
  have hrow : ∀ μ ∈ A, matching μ (graphRows graphs g) = {μ} := by
    intro μ hμ
    obtain ⟨i, hi, hg⟩ := h μ hμ
    have hcounts : (graphs : Multiset Term).filter (fun j => μ.CountsIn g j) = {i} := by
      have hiff : ∀ j, μ.CountsIn g j ↔ j = i := by
        intro j
        rw [Mapping.CountsIn, hg]
        simp [eq_comm]
      simp only [hiff]
      rw [Multiset.filter_eq', Multiset.count_eq_one_of_mem (Multiset.coe_nodup.mpr hnodup) hi,
        Multiset.replicate_one]
    rw [matching_graphRows, hcounts, Multiset.map_singleton, Mapping.set_eq_self hg]
  calc A.join (graphRows graphs g)
      = A.bind fun μ => {μ} := Multiset.bind_congr hrow
    _ = A.map id := Multiset.bind_singleton _ _
    _ = A := Multiset.map_id A

/-! ## Parts of the rows of each graph -/

variable {p q : Term → Mapping → Prop}

theorem byGraph_congr {F G : Term → Bag} (h : ∀ i ∈ graphs, F i = G i) :
    byGraph graphs g F = byGraph graphs g G :=
  Multiset.bind_congr fun i hi => by rw [h i hi]

theorem byGraph_cons (F : Term → Bag) :
    byGraph (i :: graphs) g F = (F i).map (·.set g i) + byGraph graphs g F := by
  rw [byGraph, ← Multiset.cons_coe, Multiset.cons_bind, byGraph]

variable [∀ i, DecidablePred (p i)] [∀ i, DecidablePred (q i)]

theorem filter_le_filter (h : ∀ μ ∈ A, p i μ → q i μ) : A.filter (p i) ≤ A.filter (q i) := by
  refine Multiset.le_filter.mpr ⟨Multiset.filter_le _ _, fun μ hμ => ?_⟩
  obtain ⟨hμ, hp⟩ := Multiset.mem_filter.mp hμ
  exact h μ hμ hp

theorem byGraph_filter_le (h : ∀ i ∈ graphs, ∀ μ ∈ A, p i μ → q i μ) :
    byGraph graphs g (fun i => A.filter (p i)) ≤ byGraph graphs g fun i => A.filter (q i) := by
  induction graphs with
  | nil => exact le_rfl
  | cons i rest ih =>
    rw [byGraph_cons, byGraph_cons]
    refine add_le_add (Multiset.map_le_map ?_) (ih fun j hj => h j (List.mem_cons_of_mem _ hj))
    exact filter_le_filter (h i List.mem_cons_self)

theorem byGraph_filter_eq_iff (h : ∀ i ∈ graphs, ∀ μ ∈ A, p i μ → q i μ) :
    (byGraph graphs g (fun i => A.filter (p i)) = byGraph graphs g fun i => A.filter (q i)) ↔
      ∀ i ∈ graphs, ∀ μ ∈ A, q i μ → p i μ := by
  constructor
  · intro heq
    -- `set g i` may identify rows, so the bags are compared by their sizes, graph after graph
    induction graphs with
    | nil => exact fun i hi => absurd hi List.not_mem_nil
    | cons i rest ih =>
      have hrest : ∀ j ∈ rest, ∀ μ ∈ A, p j μ → q j μ := fun j hj =>
        h j (List.mem_cons_of_mem _ hj)
      have hfirst : A.filter (p i) ≤ A.filter (q i) := filter_le_filter (h i List.mem_cons_self)
      rw [byGraph_cons, byGraph_cons, add_eq_add_iff_eq_and_eq (Multiset.map_le_map hfirst)
        (byGraph_filter_le hrest)] at heq
      have hcard : (A.filter (p i)).card = (A.filter (q i)).card := by
        rw [← Multiset.card_map (·.set g i), heq.1, Multiset.card_map]
      have hsame : A.filter (p i) = A.filter (q i) :=
        Multiset.eq_of_le_of_card_le hfirst hcard.ge
      intro j hj μ hμ hq
      rcases List.mem_cons.mp hj with rfl | hj
      · exact (filter_eq_filter_iff.mp hsame μ hμ).mpr hq
      · exact ih hrest heq.2 j hj μ hμ hq
  · intro hqp
    refine byGraph_congr fun i hi => Multiset.filter_congr fun μ hμ => ?_
    exact ⟨h i hi μ hμ, hqp i hi μ hμ⟩

/-- A row of `B` that counts in graph `i` goes together with the row and shares a variable with it
beyond the graph variable. -/
def RemovedIn (g : Variable) (B : Bag) (i : Term) (μ : Mapping) : Prop :=
  ∃ ν ∈ B, ν.CountsIn g i ∧ μ.Compatible ν ∧ μ.SharesBeyond g ν

/-- The difference graph by graph, for which the graph variable is not shared. -/
def minusByGraph (graphs : List Term) (g : Variable) (A B : Bag) : Bag :=
  byGraph graphs g fun i => A.filter fun μ => μ.CountsIn g i ∧ ¬ RemovedIn g B i μ

theorem minus_join_graphRows :
    (A.minus B).join (graphRows graphs g) = byGraph graphs g fun i =>
      A.filter fun μ => μ.CountsIn g i ∧ ¬ ∃ ν ∈ B, μ.Compatible ν ∧ μ.Shares ν := by
  rw [join_graphRows]
  exact byGraph_congr fun i _ => Multiset.filter_filter _ _ _

/-- The difference of all graphs at once is that of each graph if no row is removed for the sake of
the graph variable alone. -/
theorem minus_join_graphRows_eq_iff :
    (A.minus B).join (graphRows graphs g) = minusByGraph graphs g A B ↔
      ∀ i ∈ graphs, ∀ μ ∈ A, μ.CountsIn g i →
        (∃ ν ∈ B, μ.Compatible ν ∧ μ.Shares ν) → RemovedIn g B i μ := by
  rw [minus_join_graphRows, minusByGraph, byGraph_filter_eq_iff]
  · refine forall₂_congr fun i _ => forall₂_congr fun μ _ => ?_
    constructor
    · intro h hcounts hremoved
      by_contra hkept
      exact (h ⟨hcounts, hkept⟩).2 hremoved
    · rintro h ⟨hcounts, hkept⟩
      exact ⟨hcounts, fun hremoved => hkept (h hcounts hremoved)⟩
  · rintro i _ μ _ ⟨hcounts, hkept⟩
    refine ⟨hcounts, ?_⟩
    rintro ⟨ν, hν, _, hc, hs⟩
    exact hkept ⟨ν, hν, hc, hs.shares⟩

theorem minus_join_graphRows_of_named (hA : ∀ μ ∈ A, μ g ≠ none) (hB : ∀ ν ∈ B, ν g ≠ none) :
    (A.minus B).join (graphRows graphs g) = byGraph graphs g fun i =>
      A.filter fun μ => μ g = some i ∧ ¬ ∃ ν ∈ B, ν g = some i ∧ μ.Compatible ν := by
  rw [minus_join_graphRows]
  refine byGraph_congr fun i _ => Multiset.filter_congr fun μ hμ => ?_
  have hcounts : μ.CountsIn g i ↔ μ g = some i := or_iff_right (hA μ hμ)
  rw [hcounts]
  refine and_congr_right fun hg => not_congr (exists_congr fun ν => and_congr_right fun hν => ?_)
  -- two rows that name the same graph share its variable, so they always share something
  constructor
  · rintro ⟨hc, _⟩
    exact ⟨(hc.countsIn hg).resolve_left (hB ν hν), hc⟩
  · rintro ⟨_, hc⟩
    exact ⟨hc, g, hA μ hμ, hB ν hν⟩

end Bag

end SparqlBind

end
