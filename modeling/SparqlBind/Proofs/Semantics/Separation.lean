import SparqlBind.Proofs.Semantics.Modifiers

/-!
# Modifiers graph by graph

The rows of all graphs stand in one list, each with the name of its graph. A modifier that is
applied to the whole list works on each graph apart when it sorts, when a slice has the rows of one
graph to cut, or all of them to keep, and when no graph without rows is due a group of its own.
-/

noncomputable section

open scoped Classical

namespace SparqlBind

namespace Mapping

def without (g : Variable) (μ : Mapping) : Mapping := fun x => if x = g then none else μ x

variable {μ ν : Mapping} {g x : Variable} {i : Term} {keys : List Variable}

theorem without_apply : μ.without g x = if x = g then none else μ x := rfl

theorem without_set : (μ.without g).set g i = μ.set g i := by
  funext y
  rw [set_apply, set_apply, without_apply]
  split <;> rfl

theorem presented_without : (μ.without g).presented = μ.presented.without g := by
  funext y
  unfold presented mapTerms without
  split <;> rfl

theorem without_extend (hx : x ≠ g) (o : Option Term) :
    (μ.extend x o).without g = (μ.without g).extend x o := by
  funext y
  rw [without_apply, extend_apply, extend_apply, without_apply, without_apply, if_neg hx]
  by_cases hy : y = x
  · rw [if_pos hy, if_neg (hy ▸ hx), if_pos hy]
  · rw [if_neg hy, if_neg hy]

theorem without_bindAll {value : Aggregate → Option Term} {aggregates : List Aggregate}
    (h : ∀ a ∈ aggregates, a.target ≠ g) :
    (μ.bindAll value aggregates).without g = (μ.without g).bindAll value aggregates := by
  induction aggregates generalizing μ with
  | nil => rfl
  | cons a rest ih =>
    rw [bindAll_cons, bindAll_cons, ih fun b hb => h b (List.mem_cons_of_mem _ hb),
      without_extend (h a List.mem_cons_self)]

theorem restrict_addVariable_apply : μ.restrict (addVariable keys g) g = μ g :=
  if_pos (mem_addVariable.mpr (.inr rfl))

theorem without_restrict (hg : g ∉ keys) :
    (μ.restrict (addVariable keys g)).without g = (μ.without g).restrict keys := by
  funext y
  rw [without_apply, restrict, restrict, without_apply]
  by_cases hy : y = g
  · subst hy
    rw [if_pos rfl, if_pos rfl, if_neg hg]
  · rw [if_neg hy, if_neg hy]
    exact if_congr (mem_addVariable.trans (or_iff_left hy)) rfl rfl

/-- Rows that name the same graph are told apart by what else they bind. -/
theorem without_inj (hμ : μ g = some i) (hν : ν g = some i) (h : μ.without g = ν.without g) :
    μ = ν := by
  rw [← set_eq_self hμ, ← set_eq_self hν, ← without_set, h, without_set]

theorem countsIn_iff (h : μ g ≠ none) : μ.CountsIn g i ↔ μ g = some i := or_iff_right h

end Mapping

namespace Rows

/-- The rows of graph `i`, without its name. -/
def ofGraph (g : Variable) (i : Term) (rows : List Mapping) : List Mapping :=
  (rows.filter fun μ => μ.CountsIn g i).map (·.without g)

/-- Every row names one of the graphs. -/
def Named (graphs : List Term) (g : Variable) (rows : List Mapping) : Prop :=
  ∀ μ ∈ rows, ∃ i ∈ graphs, μ g = some i

variable {graphs : List Term} {g : Variable} {i : Term} {rows : List Mapping}
variable {keys : List Variable} {κ μ : Mapping}

theorem Named.ne_none (h : Named graphs g rows) (hμ : μ ∈ rows) : μ g ≠ none := by
  obtain ⟨i, _, hi⟩ := h μ hμ
  simp [hi]

theorem Named.mem_ofGraph (h : Named graphs g rows) :
    κ ∈ ofGraph g i rows ↔ ∃ μ ∈ rows, μ g = some i ∧ μ.without g = κ := by
  simp only [ofGraph, List.mem_map, List.mem_filter, decide_eq_true_iff, and_assoc]
  refine exists_congr fun μ => and_congr_right fun hμ => ?_
  rw [Mapping.countsIn_iff (h.ne_none hμ)]

theorem window_eq_self {start : Nat} {length : Option Nat} (hstart : start = 0)
    (hlength : ∀ n ∈ length, rows.length ≤ n) : window start length rows = rows := by
  subst hstart
  cases length with
  | none => rfl
  | some n => exact List.take_of_length_le (hlength n rfl)

theorem length_ofGraph_le : (ofGraph g i rows).length ≤ rows.length := by
  rw [ofGraph, List.length_map]
  exact List.length_filter_le _ rows

/-- Split by graph and put together again, the rows are those that name a graph or count in all. -/
theorem byGraph_ofGraph :
    (Bag.byGraph graphs g fun i => (ofGraph g i rows : List Mapping)) =
      Bag.byGraph graphs g fun i =>
        (rows : Multiset Mapping).filter fun μ => μ.CountsIn g i := by
  refine Multiset.bind_congr fun i _ => ?_
  simp only [ofGraph, Multiset.filter_coe, Multiset.map_coe, List.map_map]
  exact congrArg _ (List.map_congr_left fun μ _ => Mapping.without_set)

theorem mem_groupKeys_addVariable :
    κ ∈ groupKeys (addVariable keys g) rows ↔ ∃ μ ∈ rows, μ.restrict (addVariable keys g) = κ := by
  have hne : addVariable keys g ≠ [] := List.ne_nil_of_mem (mem_addVariable.mpr (.inr rfl))
  exact mem_groupKeys fun h => absurd h hne

/-- A group names the graph of its rows. -/
theorem Named.groupKeys (h : Named graphs g rows) :
    Named graphs g (groupKeys (addVariable keys g) rows) := by
  intro κ hκ
  obtain ⟨μ, hμ, rfl⟩ := mem_groupKeys_addVariable.mp hκ
  rw [Mapping.restrict_addVariable_apply]
  exact h μ hμ

theorem groupKeys_ofGraph (hnamed : Named graphs g rows) (hg : g ∉ keys)
    (hrow : keys = [] → ∃ μ ∈ rows, μ g = some i) :
    (((groupKeys (addVariable keys g) rows).filter fun κ => κ.CountsIn g i).map
      (·.without g)).Perm (groupKeys keys (ofGraph g i rows)) := by
  have hname : ∀ κ ∈ (groupKeys (addVariable keys g) rows).filter fun κ => κ.CountsIn g i,
      κ g = some i := by
    intro κ hκ
    obtain ⟨hκ, hi⟩ := List.mem_filter.mp hκ
    exact (Mapping.countsIn_iff (hnamed.groupKeys.ne_none hκ)).mp (of_decide_eq_true hi)
  have hinj : ∀ κ ∈ (groupKeys (addVariable keys g) rows).filter fun κ => κ.CountsIn g i,
      ∀ κ' ∈ (groupKeys (addVariable keys g) rows).filter fun κ => κ.CountsIn g i,
        κ.without g = κ'.without g → κ = κ' :=
    fun κ hκ κ' hκ' => Mapping.without_inj (hname κ hκ) (hname κ' hκ')
  have hrows : keys = [] → ofGraph g i rows ≠ [] := by
    intro hkeys
    obtain ⟨μ, hμ, hi⟩ := hrow hkeys
    exact List.ne_nil_of_mem (hnamed.mem_ofGraph.mpr ⟨μ, hμ, hi, rfl⟩)
  -- both lists have each key once, so it is enough that they have the same ones
  refine (List.perm_ext_iff_of_nodup ((nodup_groupKeys.filter _).map_on hinj)
    nodup_groupKeys).mpr fun κ => ?_
  rw [mem_groupKeys hrows, List.mem_map]
  constructor
  · rintro ⟨κ', hκ', rfl⟩
    have hi : κ' g = some i := hname κ' hκ'
    obtain ⟨μ, hμ, rfl⟩ := mem_groupKeys_addVariable.mp (List.mem_filter.mp hκ').1
    rw [Mapping.restrict_addVariable_apply] at hi
    exact ⟨μ.without g, hnamed.mem_ofGraph.mpr ⟨μ, hμ, hi, rfl⟩, (Mapping.without_restrict hg).symm⟩
  · rintro ⟨ν, hν, rfl⟩
    obtain ⟨μ, hμ, hi, rfl⟩ := hnamed.mem_ofGraph.mp hν
    refine ⟨μ.restrict (addVariable keys g), List.mem_filter.mpr
      ⟨mem_groupKeys_addVariable.mpr ⟨μ, hμ, rfl⟩, ?_⟩, Mapping.without_restrict hg⟩
    exact decide_eq_true (.inr (Mapping.restrict_addVariable_apply.trans hi))

theorem members_ofGraph (hnamed : Named graphs g rows) (hg : g ∉ keys) (hκ : κ g = some i) :
    (members (addVariable keys g) κ rows).map (·.without g) =
      members keys (κ.without g) (ofGraph g i rows) := by
  rw [members, members, ofGraph, List.filter_map, List.filter_filter]
  refine congrArg _ (List.filter_congr fun μ hμ => ?_)
  have hiff : μ.restrict (addVariable keys g) = κ ↔
      (μ.without g).restrict keys = κ.without g ∧ μ.CountsIn g i := by
    rw [Mapping.countsIn_iff (hnamed.ne_none hμ), ← Mapping.without_restrict hg]
    constructor
    · rintro rfl
      exact ⟨rfl, Mapping.restrict_addVariable_apply.symm.trans hκ⟩
    · rintro ⟨hsame, hi⟩
      exact Mapping.without_inj (Mapping.restrict_addVariable_apply.trans hi) hκ hsame
  simp only [Function.comp_apply, hiff, Bool.decide_and]

end Rows

/-- The modifier on rows of several graphs has no more to do than on those of each graph. -/
def Modifier.Separates (graphs : List Term) (g : Variable) (rows : List Mapping) : Modifier → Prop
  | orderBy _ => True
  | slice start length =>
    (start = 0 ∧ ∀ n ∈ length, rows.length ≤ n) ∨ ∃ i, ∀ μ ∈ rows, μ g = some i
  | group keys _ => keys = [] → ∀ i ∈ graphs, ∃ μ ∈ rows, μ g = some i

def Modifier.isSlice : Modifier → Bool
  | slice .. => true
  | _ => false

/-- A group of all rows, which is there even when there are none. -/
def Modifier.isWhole : Modifier → Bool
  | group keys _ => keys.isEmpty
  | _ => false

theorem Rows.ofGraph_window {graphs : List Term} {g : Variable} {i : Term} {rows : List Mapping}
    {start : Nat} {length : Option Nat}
    (h : (Modifier.slice start length).Separates graphs g rows) :
    ofGraph g i (window start length rows) = window start length (ofGraph g i rows) := by
  -- the slice keeps every row, or there are rows of one graph `j` only
  rcases h with ⟨hstart, hlength⟩ | ⟨j, hj⟩
  · rw [window_eq_self hstart hlength, window_eq_self hstart fun n hn =>
      length_ofGraph_le.trans (hlength n hn)]
  · have hj' : ∀ μ ∈ window start length rows, μ g = some j := fun μ hμ =>
      hj μ ((window_sublist start length rows).subset hμ)
    by_cases hij : j = i
    · subst hij
      have hall : ∀ L : List Mapping, (∀ μ ∈ L, μ g = some j) →
          ofGraph g j L = L.map (·.without g) := fun L hL =>
        congrArg _ (List.filter_eq_self.mpr fun μ hμ => decide_eq_true (.inr (hL μ hμ)))
      rw [hall _ hj', hall _ hj, map_window]
    · have hnone : ∀ L : List Mapping, (∀ μ ∈ L, μ g = some j) → ofGraph g i L = [] := by
        intro L hL
        have hfilter : L.filter (fun μ => decide (μ.CountsIn g i)) = [] := by
          refine List.filter_eq_nil_iff.mpr fun μ hμ => ?_
          simp [Mapping.CountsIn, hL μ hμ, hij]
        rw [ofGraph, hfilter, List.map_nil]
      rw [hnone _ hj', hnone _ hj, window_nil]

namespace ListSemantics

/-- The modifier does not mention `g`: no key and no aggregate looks at it, and none sets it. -/
def Ignores (sem : ListSemantics) (g : Variable) : Modifier → Prop
  | .orderBy keys => ∀ μ ν, sem.precedes keys (μ.without g) (ν.without g) = sem.precedes keys μ ν
  | .slice _ _ => True
  | .group keys aggregates => g ∉ keys ∧ ∀ a ∈ aggregates, a.target ≠ g ∧
    ∀ (i : Term) (rows : List Mapping), (∀ μ ∈ rows, μ g = some i) →
      sem.summary? a (rows.map (·.without g)) = sem.summary? a rows

/-- Whatever the results of the modifiers are, the next one separates. -/
def Separates (sem : ListSemantics) (graphs : List Term) (g : Variable) :
    List Modifier → List Mapping → Prop
  | [], _ => True
  | m :: ms, rows => m.Separates graphs g rows ∧
    ∀ result, sem.Runs (m.keeping g) rows result → sem.Separates graphs g ms result

variable {sem : ListSemantics} {graphs : List Term} {g : Variable} {m : Modifier}
variable {rows result : List Mapping} {aggregates : List Aggregate} {κ : Mapping} {i : Term}

theorem Ignores.shown (h : sem.Ignores g m) : sem.shown.Ignores g m := by
  cases m with
  | orderBy keys =>
    intro μ ν
    simp only [ListSemantics.shown, Mapping.presented_without]
    exact h μ.presented ν.presented
  | slice start length => trivial
  | group keys aggregates =>
    refine ⟨h.1, fun a ha => ⟨(h.2 a ha).1, fun i rows hrows => ?_⟩⟩
    have hpresented : ∀ μ ∈ rows.map Mapping.presented, μ g = some (Skolem.encode i).toTerm := by
      intro μ hμ
      obtain ⟨ν, hν, rfl⟩ := List.mem_map.mp hμ
      rw [Mapping.presented, Mapping.mapTerms, hrows ν hν, Option.map_some]
    have hmap : (rows.map (·.without g)).map Mapping.presented =
        (rows.map Mapping.presented).map (·.without g) := by
      rw [List.map_map, List.map_map]
      exact List.map_congr_left fun μ _ => Mapping.presented_without
    simp only [ListSemantics.shown]
    rw [hmap, (h.2 a ha).2 _ _ hpresented]

theorem Runs.exists_row (hg : sem.Ignores g m) (h : sem.Runs (m.keeping g) rows result) :
    ∀ ν ∈ result, ∃ μ ∈ rows, ν g = μ g := by
  intro ν hν
  cases m with
  | orderBy keys => exact ⟨ν, h.1.mem_iff.mp hν, rfl⟩
  | slice start length =>
    obtain rfl : result = Rows.window start length rows := h
    exact ⟨ν, (Rows.window_sublist start length rows).subset hν, rfl⟩
  | group keys aggregates =>
    obtain ⟨κ, hκ, rfl⟩ := List.mem_map.mp (h.mem_iff.mp hν)
    obtain ⟨μ, hμ, rfl⟩ := Rows.mem_groupKeys_addVariable.mp hκ
    refine ⟨μ, hμ, ?_⟩
    rw [summarize, Mapping.bindAll_apply fun a ha => (hg.2 a ha).1,
      Mapping.restrict_addVariable_apply]

theorem Runs.named (hg : sem.Ignores g m) (hrows : Rows.Named graphs g rows)
    (h : sem.Runs (m.keeping g) rows result) : Rows.Named graphs g result := by
  intro ν hν
  obtain ⟨μ, hμ, hνμ⟩ := h.exists_row hg ν hν
  rw [hνμ]
  exact hrows μ hμ

theorem without_summarize (hrows : ∀ μ ∈ rows, μ g = some i)
    (ha : ∀ a ∈ aggregates, a.target ≠ g ∧
      ∀ (i : Term) (rows : List Mapping), (∀ μ ∈ rows, μ g = some i) →
        sem.summary? a (rows.map (·.without g)) = sem.summary? a rows) :
    (sem.summarize aggregates rows κ).without g =
      sem.summarize aggregates (rows.map (·.without g)) (κ.without g) := by
  rw [summarize, Mapping.without_bindAll fun a h => (ha a h).1]
  exact Mapping.bindAll_congr fun a h => ((ha a h).2 i rows hrows).symm

/-- What a modifier makes of all rows is, graph by graph, what it makes of the rows of the graph. -/
theorem Runs.ofGraph (hg : sem.Ignores g m) (hrows : Rows.Named graphs g rows)
    (hsep : m.Separates graphs g rows) (h : sem.Runs (m.keeping g) rows result)
    (hi : i ∈ graphs) : sem.Runs m (Rows.ofGraph g i rows) (Rows.ofGraph g i result) := by
  cases m with
  | orderBy keys =>
    refine ⟨(h.1.filter _).map _, List.pairwise_map.mpr ?_⟩
    refine (h.2.filter _).imp fun {μ ν} hprecedes => ?_
    rw [hg μ ν]
    exact hprecedes
  | slice start length =>
    obtain rfl : result = Rows.window start length rows := h
    exact Rows.ofGraph_window hsep
  | group keys aggregates =>
    obtain ⟨hkeys, ha⟩ := hg
    refine ((h.filter _).map _).trans ?_
    rw [List.filter_map, List.map_map]
    refine List.Perm.trans (.of_eq ?_)
      ((Rows.groupKeys_ofGraph hrows hkeys fun hnil => hsep hnil i hi).map _)
    rw [List.map_map]
    have hfilter : (Rows.groupKeys (addVariable keys g) rows).filter
        ((fun μ => decide (μ.CountsIn g i)) ∘ fun κ =>
          sem.summarize aggregates (Rows.members (addVariable keys g) κ rows) κ) =
        (Rows.groupKeys (addVariable keys g) rows).filter fun κ => κ.CountsIn g i := by
      refine List.filter_congr fun κ _ => ?_
      have hiff : (sem.summarize aggregates (Rows.members (addVariable keys g) κ rows) κ).CountsIn
          g i ↔ κ.CountsIn g i := by
        rw [Mapping.CountsIn, summarize, Mapping.bindAll_apply fun a h => (ha a h).1]
        rfl
      simp only [Function.comp_apply, hiff]
    rw [hfilter]
    refine List.map_congr_left fun κ hκ => ?_
    obtain ⟨hκ, hcounts⟩ := List.mem_filter.mp hκ
    have hκi : κ g = some i :=
      (Mapping.countsIn_iff (hrows.groupKeys.ne_none hκ)).mp (of_decide_eq_true hcounts)
    simp only [Function.comp_apply]
    rw [without_summarize (i := i) (fun μ hμ => ?_) ha, Rows.members_ofGraph hrows hkeys hκi]
    have hμκ : μ.restrict (addVariable keys g) = κ := of_decide_eq_true (List.mem_filter.mp hμ).2
    rw [← hκi, ← hμκ, Mapping.restrict_addVariable_apply]

theorem RunsAll.ofGraph {ms : List Modifier} (hg : ∀ m ∈ ms, sem.Ignores g m)
    (hrows : Rows.Named graphs g rows) (hsep : sem.Separates graphs g ms rows)
    (h : sem.RunsAll (ms.map (·.keeping g)) rows result) (hi : i ∈ graphs) :
    sem.RunsAll ms (Rows.ofGraph g i rows) (Rows.ofGraph g i result) := by
  -- the modifiers after the first see its result, in which every row still names a graph
  induction ms generalizing rows with
  | nil => exact congrArg _ h
  | cons m ms ih =>
    obtain ⟨between, hbetween, hresult⟩ := h
    have hm : sem.Ignores g m := hg m List.mem_cons_self
    refine ⟨Rows.ofGraph g i between, hbetween.ofGraph hm hrows hsep.1 hi, ?_⟩
    exact ih (fun n hn => hg n (List.mem_cons_of_mem _ hn)) (hbetween.named hm hrows)
      (hsep.2 between hbetween) hresult

theorem RunsAll.exists_row {ms : List Modifier} (hg : ∀ m ∈ ms, sem.Ignores g m)
    (h : sem.RunsAll (ms.map (·.keeping g)) rows result) :
    ∀ ν ∈ result, ∃ μ ∈ rows, ν g = μ g := by
  induction ms generalizing rows with
  | nil =>
    obtain rfl : result = rows := h
    exact fun ν hν => ⟨ν, hν, rfl⟩
  | cons m ms ih =>
    obtain ⟨between, hbetween, hresult⟩ := h
    intro ν hν
    obtain ⟨μ, hμ, hνμ⟩ := ih (fun n hn => hg n (List.mem_cons_of_mem _ hn)) hresult ν hν
    obtain ⟨ρ, hρ, hμρ⟩ := hbetween.exists_row (hg m List.mem_cons_self) μ hμ
    exact ⟨ρ, hρ, hνμ.trans hμρ⟩

/-! ## Rows of each graph apart -/

/-- The rows are those that the modifiers make of the rows of each graph, with its name. -/
def GraphByGraph (sem : ListSemantics) (graphs : List Term) (g : Variable) (ms : List Modifier)
    (rows : List Mapping) (A : Bag) : Prop :=
  ∃ results : Term → List Mapping,
    (∀ i ∈ graphs, sem.RunsAll ms (Rows.ofGraph g i rows) (results i)) ∧
    A = Bag.byGraph graphs g fun i => (results i : List Mapping)

variable {ms : List Modifier}

theorem graphByGraph_of_separates (hnodup : graphs.Nodup) (hg : ∀ m ∈ ms, sem.Ignores g m)
    (hrows : Rows.Named graphs g rows) (hsep : sem.Separates graphs g ms rows)
    (h : sem.RunsAll (ms.map (·.keeping g)) rows result) :
    sem.GraphByGraph graphs g ms rows (result : List Mapping) := by
  refine ⟨fun i => Rows.ofGraph g i result, fun i hi => h.ofGraph hg hrows hsep hi, ?_⟩
  have hnamed : ∀ ν ∈ (result : Multiset Mapping), ∃ i ∈ graphs, ν g = some i := by
    intro ν hν
    obtain ⟨μ, hμ, hνμ⟩ := h.exists_row hg ν (Multiset.mem_coe.mp hν)
    rw [hνμ]
    exact hrows μ hμ
  rw [Rows.byGraph_ofGraph, ← Bag.join_graphRows, Bag.join_graphRows_of_named hnodup hnamed]

theorem Runs.exists_result (hg : sem.Ignores g m) (hslice : m.isSlice = false)
    (h : sem.Runs (m.keeping g) rows result) {μ : Mapping} (hμ : μ ∈ rows) :
    ∃ ν ∈ result, ν g = μ g := by
  cases m with
  | orderBy keys => exact ⟨μ, h.1.mem_iff.mpr hμ, rfl⟩
  | slice start length => cases hslice
  | group keys aggregates =>
    have hκ : μ.restrict (addVariable keys g) ∈ Rows.groupKeys (addVariable keys g) rows :=
      Rows.mem_groupKeys_addVariable.mpr ⟨μ, hμ, rfl⟩
    refine ⟨_, h.mem_iff.mpr (List.mem_map_of_mem hκ), ?_⟩
    rw [summarize, Mapping.bindAll_apply fun a ha => (hg.2 a ha).1,
      Mapping.restrict_addVariable_apply]

theorem separates_of_rows (hg : ∀ m ∈ ms, sem.Ignores g m) (hslice : ∀ m ∈ ms, m.isSlice = false)
    (hrows : ∀ i ∈ graphs, ∃ μ ∈ rows, μ g = some i) : sem.Separates graphs g ms rows := by
  induction ms generalizing rows with
  | nil => trivial
  | cons m ms ih =>
    have hm : m.isSlice = false := hslice m List.mem_cons_self
    refine ⟨?_, fun result h => ih (fun n hn => hg n (List.mem_cons_of_mem _ hn))
      (fun n hn => hslice n (List.mem_cons_of_mem _ hn)) fun i hi => ?_⟩
    · cases m with
      | orderBy keys => trivial
      | slice start length => cases hm
      | group keys aggregates => exact fun _ => hrows
    · obtain ⟨μ, hμ, hμi⟩ := hrows i hi
      obtain ⟨ν, hν, hνμ⟩ := h.exists_result (hg m List.mem_cons_self) hm hμ
      exact ⟨ν, hν, hνμ.trans hμi⟩

theorem separates_of_keys (hslice : ∀ m ∈ ms, m.isSlice = false)
    (hkeys : ∀ m ∈ ms, m.isWhole = false) : sem.Separates graphs g ms rows := by
  induction ms generalizing rows with
  | nil => trivial
  | cons m ms ih =>
    refine ⟨?_, fun result _ => ih (fun n hn => hslice n (List.mem_cons_of_mem _ hn))
      fun n hn => hkeys n (List.mem_cons_of_mem _ hn)⟩
    cases m with
    | orderBy keys => trivial
    | slice start length => cases hslice _ List.mem_cons_self
    | group keys aggregates =>
      have hne : keys.isEmpty = false := hkeys _ List.mem_cons_self
      exact fun hnil => absurd (List.isEmpty_iff.mpr hnil) (Bool.eq_false_iff.mp hne)

/-- A group of all rows gives a row, and without a slice it stays. -/
theorem RunsAll.ne_nil (hslice : ∀ m ∈ ms, m.isSlice = false)
    (hne : rows ≠ [] ∨ ∃ m ∈ ms, m.isWhole = true) (h : sem.RunsAll ms rows result) :
    result ≠ [] := by
  induction ms generalizing rows with
  | nil =>
    obtain rfl : result = rows := h
    exact hne.resolve_right fun ⟨m, hm, _⟩ => List.not_mem_nil hm
  | cons m ms ih =>
    obtain ⟨between, hbetween, hresult⟩ := h
    refine ih (fun n hn => hslice n (List.mem_cons_of_mem _ hn)) ?_ hresult
    by_cases hrest : ∃ n ∈ ms, n.isWhole = true
    · exact .inr hrest
    · refine .inl ?_
      have hrows : rows ≠ [] ∨ m.isWhole = true := by
        refine hne.imp id ?_
        rintro ⟨n, hn, hwhole⟩
        rcases List.mem_cons.mp hn with rfl | hn
        · exact hwhole
        · exact absurd ⟨n, hn, hwhole⟩ hrest
      cases m with
      | orderBy keys =>
        have hrows : rows ≠ [] := hrows.resolve_right Bool.false_ne_true
        exact fun hnil => hrows (List.perm_nil.mp (hnil ▸ hbetween.1.symm))
      | slice start length => cases hslice _ List.mem_cons_self
      | group keys aggregates =>
        have hkeys : Rows.groupKeys keys rows ≠ [] :=
          Rows.groupKeys_ne_nil (hrows.imp id List.isEmpty_iff.mp)
        exact fun hnil => hkeys (List.map_eq_nil_iff.mp (List.perm_nil.mp (hnil ▸ hbetween.symm)))

theorem graphByGraph_iff (hnodup : graphs.Nodup) (hg : ∀ m ∈ ms, sem.Ignores g m)
    (hslice : ∀ m ∈ ms, m.isSlice = false) (hrows : Rows.Named graphs g rows)
    (h : sem.RunsAll (ms.map (·.keeping g)) rows result) :
    sem.GraphByGraph graphs g ms rows (result : List Mapping) ↔
      (∀ m ∈ ms, m.isWhole = false) ∨ ∀ i ∈ graphs, ∃ μ ∈ rows, μ g = some i := by
  constructor
  · rintro ⟨results, hresults, hbag⟩
    -- a graph without rows would have to give a row for the group, and no row names that graph
    by_contra hnot
    push Not at hnot
    obtain ⟨⟨m, hm, hwhole⟩, i, hi, hnone⟩ := hnot
    have hne : results i ≠ [] :=
      (hresults i hi).ne_nil hslice (.inr ⟨m, hm, Bool.eq_true_of_not_eq_false hwhole⟩)
    obtain ⟨μ, hμ⟩ := List.exists_mem_of_ne_nil _ hne
    have hmem : μ.set g i ∈ (result : Multiset Mapping) :=
      hbag ▸ Multiset.mem_bind.mpr ⟨i, Multiset.mem_coe.mpr hi,
        Multiset.mem_map_of_mem _ (Multiset.mem_coe.mpr hμ)⟩
    obtain ⟨ρ, hρ, hμρ⟩ := h.exists_row hg _ (Multiset.mem_coe.mp hmem)
    exact hnone ρ hρ (hμρ.symm.trans (if_pos rfl))
  · rintro (hkeys | hgraphs)
    · exact graphByGraph_of_separates hnodup hg hrows (separates_of_keys hslice hkeys) h
    · exact graphByGraph_of_separates hnodup hg hrows (separates_of_rows hg hslice hgraphs) h

end ListSemantics

end SparqlBind

end
