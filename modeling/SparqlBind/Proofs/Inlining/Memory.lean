import SparqlBind.Extension.Join
import SparqlBind.Proofs.Inlining.Columns
import SparqlBind.Proofs.Semantics.Engine

/-!
# Joins in memory as operators on bags

The joins of lists of bindings compute the operators on the bags of their mappings, as long as no
binding has a variable twice. For an optional part the flags of the candidate rows are taken as
given; how an engine is asked for them comes later.
-/

noncomputable section

open scoped Classical

namespace SparqlBind

namespace Bag

theorem ofRows_append (left right : List Binding) :
    ofRows (left ++ right) = ofRows left + ofRows right := by
  simp only [ofRows, List.map_append, Multiset.coe_add]

/-- Rows that are continued one by one. -/
theorem ofRows_flatMap {rows : List Binding} {f : Binding → List Binding} {F : Mapping → Bag}
    (h : ∀ b ∈ rows, ofRows (f b) = F b.mapping) :
    ofRows (rows.flatMap f) = (ofRows rows).bind F := by
  induction rows with
  | nil => rfl
  | cons b rest ih =>
    have hcons : ofRows (b :: rest) = b.mapping ::ₘ ofRows rest := rfl
    rw [List.flatMap_cons, ofRows_append, h b List.mem_cons_self, hcons, Multiset.cons_bind,
      ih fun c hc => h c (List.mem_cons_of_mem _ hc)]

theorem ofRows_filter {rows : List Binding} {p : Binding → Bool} {q : Mapping → Prop}
    [DecidablePred q] (h : ∀ b ∈ rows, p b = true ↔ q b.mapping) :
    ofRows (rows.filter p) = (ofRows rows).filter q := by
  have hfilter : rows.filter p = rows.filter ((fun μ => decide (q μ)) ∘ Binding.mapping) := by
    refine List.filter_congr fun b hb => ?_
    rw [Bool.eq_iff_iff, h b hb, Function.comp_apply, decide_eq_true_iff]
  rw [ofRows, ofRows, Multiset.filter_coe, List.filter_map, hfilter]

theorem ofRows_map {rows : List Binding} {f : Binding → Binding} {F : Mapping → Mapping}
    (h : ∀ b ∈ rows, (f b).mapping = F b.mapping) : ofRows (rows.map f) = (ofRows rows).map F := by
  rw [ofRows, ofRows, Multiset.map_coe, List.map_map, List.map_map]
  exact congrArg _ (List.map_congr_left h)

end Bag

namespace Join

variable {l : Binding} {left right : List Binding}

theorem mapping_merge_of_compatible (hl : l.vars.Nodup) {r : Binding} (hr : r.vars.Nodup)
    (hc : l.compatible r = true) : (l.merge r).mapping = l.mapping.merge r.mapping := by
  rw [Binding.mapping_merge hr]
  exact (Mapping.merge_comm ((Binding.compatible_iff_mapping hl).mp hc)).symm

theorem ofRows_matching (hl : l.vars.Nodup) (hr : DistinctVars right) :
    Bag.ofRows (matching l right) = Bag.matching l.mapping (Bag.ofRows right) := by
  unfold matching Bag.matching
  rw [← Bag.ofRows_filter (p := l.compatible) fun b _ => Binding.compatible_iff_mapping hl]
  refine Bag.ofRows_map fun b hb => ?_
  obtain ⟨hb, hc⟩ := List.mem_filter.mp hb
  exact mapping_merge_of_compatible hl (hr b hb) hc

theorem distinctVars_matching (hl : l.vars.Nodup) : DistinctVars (matching l right) := by
  intro b hb
  obtain ⟨r, _, rfl⟩ := List.mem_map.mp hb
  exact Binding.nodup_merge hl

theorem ofRows_join (hl : DistinctVars left) (hr : DistinctVars right) :
    Bag.ofRows (join left right) = (Bag.ofRows left).join (Bag.ofRows right) :=
  Bag.ofRows_flatMap fun l h => ofRows_matching (hl l h) hr

theorem distinctVars_join (hl : DistinctVars left) : DistinctVars (join left right) := by
  intro b hb
  obtain ⟨l, h, hb⟩ := List.mem_flatMap.mp hb
  exact distinctVars_matching (hl l h) b hb

theorem excludes_iff (hl : l.vars.Nodup) :
    excludes right l = true ↔
      ∃ ν ∈ Bag.ofRows right, l.mapping.Compatible ν ∧ l.mapping.Shares ν := by
  have hshares : ∀ r : Binding, l.vars.any (r.contains ·) = true ↔ l.mapping.Shares r.mapping := by
    intro r
    rw [List.any_eq_true]
    refine exists_congr fun x => ?_
    rw [Binding.contains_iff_mem_vars, ← Binding.get?_ne_none_iff, ← Binding.get?_ne_none_iff]
    rfl
  unfold excludes
  rw [List.any_eq_true]
  constructor
  · rintro ⟨r, hr, h⟩
    rw [Bool.and_eq_true, Binding.compatible_iff_mapping hl, hshares] at h
    exact ⟨r.mapping, Bag.mem_ofRows.mpr ⟨r, hr, rfl⟩, h⟩
  · rintro ⟨ν, hν, h⟩
    obtain ⟨r, hr, rfl⟩ := Bag.mem_ofRows.mp hν
    refine ⟨r, hr, ?_⟩
    rw [Bool.and_eq_true, Binding.compatible_iff_mapping hl, hshares]
    exact h

theorem ofRows_minus (hl : DistinctVars left) :
    Bag.ofRows (minus left right) = (Bag.ofRows left).minus (Bag.ofRows right) := by
  unfold minus Bag.minus
  refine Bag.ofRows_filter fun l h => ?_
  rw [Bool.not_eq_true', ← Bool.not_eq_true, excludes_iff (hl l h)]

theorem distinctVars_minus (hl : DistinctVars left) : DistinctVars (minus left right) :=
  fun b hb => hl b (List.mem_filter.mp hb).1

/-! ## Optional parts -/

theorem zip_map_append {α β : Type} (f : α → β) (as : List α) (bs : List β) :
    as.zip (as.map f ++ bs) = as.map fun a => (a, f a) := by
  induction as with
  | nil => rfl
  | cons a rest ih => rw [List.map_cons, List.cons_append, List.zip_cons_cons, ih, List.map_cons]

/-- With one flag for each candidate, a row keeps the candidates that are flagged. -/
theorem keepMatched_flags (keep : Binding → Bool) (candidates : List (Binding × List Binding)) :
    keepMatched candidates ((candidates.flatMap (·.2)).map keep) =
      candidates.flatMap fun c =>
        if (c.2.filter keep).isEmpty then [c.1] else c.2.filter keep := by
  induction candidates with
  | nil => rfl
  | cons c rest ih =>
    obtain ⟨l, rows⟩ := c
    have hmatched : ((rows.zip (rows.map keep ++ (rest.flatMap (·.2)).map keep)).filter
        (·.2)).map (·.1) = rows.filter keep := by
      rw [zip_map_append, List.filter_map, List.map_map]
      exact List.map_id _
    have hdrop : (rows.map keep ++ (rest.flatMap (·.2)).map keep).drop rows.length =
        (rest.flatMap (·.2)).map keep := List.drop_left' (List.length_map keep)
    simp only [List.flatMap_cons, List.map_append, keepMatched, hmatched, hdrop, ih]

theorem ofRows_keepMatched {holds : Mapping → Bool} {keep : Binding → Bool}
    (hl : DistinctVars left) (hr : DistinctVars right)
    (hkeep : ∀ b ∈ join left right, keep b = holds b.mapping) :
    Bag.ofRows (keepMatched (left.map fun l => (l, matching l right))
        (((left.map fun l => (l, matching l right)).flatMap (·.2)).map keep)) =
      (Bag.ofRows left).leftJoin holds (Bag.ofRows right) := by
  rw [keepMatched_flags, List.flatMap_map]
  refine Bag.ofRows_flatMap fun l h => ?_
  have hfound : Bag.ofRows ((matching l right).filter keep) =
      (Bag.matching l.mapping (Bag.ofRows right)).filter fun ν => holds ν = true := by
    rw [← ofRows_matching (hl l h) hr]
    refine Bag.ofRows_filter fun b hb => ?_
    rw [hkeep b (List.mem_flatMap.mpr ⟨l, h, hb⟩)]
  have hempty : ((matching l right).filter keep).isEmpty = true ↔
      (Bag.matching l.mapping (Bag.ofRows right)).filter (fun ν => holds ν = true) = 0 := by
    rw [← hfound, Bag.ofRows, Multiset.coe_eq_zero, List.map_eq_nil_iff, List.isEmpty_iff]
  simp only [Bag.optionally, ← hempty]
  split
  · rfl
  · exact hfound

theorem distinctVars_keepMatched {flags : List Bool} (hl : DistinctVars left) :
    DistinctVars (keepMatched (left.map fun l => (l, matching l right)) flags) := by
  intro b hb
  obtain ⟨c, hc, hb⟩ := mem_keepMatched hb
  obtain ⟨l, h, rfl⟩ := List.mem_map.mp hc
  rcases hb with rfl | hb
  · exact hl b h
  · exact distinctVars_matching (hl l h) b hb

end Join

end SparqlBind

end
