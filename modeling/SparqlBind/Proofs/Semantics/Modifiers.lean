import SparqlBind.Proofs.Semantics.NamedRows
import SparqlBind.Proofs.Semantics.Presentation

/-!
# Modifiers on lists of rows

`ORDER BY`, `LIMIT` with `OFFSET`, and `GROUP BY` look at all rows of a list at once. What they make
of it is a relation, since rows that neither precede the other and the groups may come in any order.
On rows of several graphs a modifier can be applied to all of them together or graph by graph; it is
shown when the first is as good as the second.
-/

noncomputable section

open scoped Classical

namespace SparqlBind

inductive Modifier
  | orderBy (keys : List OrderKey)
  | slice (start : Nat) (length : Option Nat)
  | group (keys : List Variable) (aggregates : List Aggregate)

namespace Modifier

def apply : Modifier → Pattern → Pattern
  | orderBy keys, p => .orderBy p keys
  | slice start length, p => .slice p start length
  | group keys aggregates, p => .group p keys aggregates

theorem apply_ne_values (m : Modifier) {p : Pattern} {xs : List Variable}
    {rows : List (List (Option GroundTerm))} : m.apply p ≠ .values xs rows := by
  cases m <;> nofun

/-- The modifiers on top of a pattern; the first is the innermost. -/
def stack (ms : List Modifier) (p : Pattern) : Pattern := ms.foldl (fun q m => m.apply q) p

/-- Rows that differ in `g` go to different groups. -/
def keeping (g : Variable) : Modifier → Modifier
  | orderBy keys => orderBy keys
  | slice start length => slice start length
  | group keys aggregates => group (addVariable keys g) aggregates

end Modifier

/-! ## The operations on lists -/

namespace Rows

def window (start : Nat) : Option Nat → List Mapping → List Mapping
  | some n, rows => (rows.drop start).take n
  | none, rows => rows.drop start

/-- The values of the keys, each once. -/
def groupKeys (keys : List Variable) (rows : List Mapping) : List Mapping :=
  if keys = [] then [Mapping.empty] else (rows.map (·.restrict keys)).dedup

def members (keys : List Variable) (κ : Mapping) (rows : List Mapping) : List Mapping :=
  rows.filter fun μ => μ.restrict keys = κ

variable {start : Nat} {length : Option Nat} {rows : List Mapping} {keys : List Variable}
variable {κ μ : Mapping}

theorem map_window (f : Mapping → Mapping) :
    (window start length rows).map f = window start length (rows.map f) := by
  cases length with
  | none => exact List.map_drop
  | some n => rw [window, window, List.map_take, List.map_drop]

theorem window_sublist (start : Nat) (length : Option Nat) (rows : List Mapping) :
    (window start length rows).Sublist rows := by
  cases length with
  | none => exact List.drop_sublist start rows
  | some n => exact (List.take_sublist n _).trans (List.drop_sublist start rows)

theorem window_nil : window start length [] = [] :=
  List.sublist_nil.mp (window_sublist start length [])

theorem nodup_groupKeys : (groupKeys keys rows).Nodup := by
  unfold groupKeys
  split
  · exact List.nodup_singleton _
  · exact List.nodup_dedup _

theorem restrict_nil (μ : Mapping) : μ.restrict [] = Mapping.empty :=
  funext fun _ => if_neg List.not_mem_nil

/-- A group stands for a row, but for the group of all rows when there are none. -/
theorem mem_groupKeys (h : keys = [] → rows ≠ []) :
    κ ∈ groupKeys keys rows ↔ ∃ μ ∈ rows, μ.restrict keys = κ := by
  unfold groupKeys
  split
  · rename_i hkeys
    subst hkeys
    obtain ⟨μ, hμ⟩ := List.exists_mem_of_ne_nil rows (h rfl)
    rw [List.mem_singleton]
    simp only [restrict_nil]
    exact ⟨fun hκ => ⟨μ, hμ, hκ.symm⟩, fun ⟨_, _, hκ⟩ => hκ.symm⟩
  · rw [List.mem_dedup, List.mem_map]

theorem groupKeys_ne_nil (h : rows ≠ [] ∨ keys = []) : groupKeys keys rows ≠ [] := by
  unfold groupKeys
  split
  · exact List.cons_ne_nil _ _
  · rename_i hkeys
    obtain ⟨μ, hμ⟩ := List.exists_mem_of_ne_nil rows (h.resolve_right hkeys)
    exact List.ne_nil_of_mem (List.mem_dedup.mpr (List.mem_map_of_mem hμ))

end Rows

/-- What the modifiers make of lists of rows: the order of the keys and the values of the
aggregates. An aggregate may depend on the order of its rows. -/
structure ListSemantics where
  precedes : List OrderKey → Mapping → Mapping → Bool
  summary? : Aggregate → List Mapping → Option Term
  precedes_total : ∀ keys μ ν, precedes keys μ ν || precedes keys ν μ
  precedes_trans : ∀ keys μ ν ρ, precedes keys μ ν → precedes keys ν ρ → precedes keys μ ρ

namespace ListSemantics

variable (sem : ListSemantics)

/-- The row of a group with the given keys. -/
def summarize (aggregates : List Aggregate) (rows : List Mapping) (κ : Mapping) : Mapping :=
  κ.bindAll (sem.summary? · rows) aggregates

/-- The results that a modifier may have. -/
def Runs : Modifier → List Mapping → List Mapping → Prop
  | .orderBy keys, rows, result =>
    result.Perm rows ∧ result.Pairwise fun μ ν => sem.precedes keys μ ν = true
  | .slice start length, rows, result => result = Rows.window start length rows
  | .group keys aggregates, rows, result =>
    result.Perm ((Rows.groupKeys keys rows).map fun κ =>
      sem.summarize aggregates (Rows.members keys κ rows) κ)

/-- The results that several modifiers may have, one after the other. -/
def RunsAll : List Modifier → List Mapping → List Mapping → Prop
  | [], rows, result => result = rows
  | m :: ms, rows, result => ∃ between, sem.Runs m rows between ∧ RunsAll ms between result

variable {sem} {aggregates : List Aggregate} {rows result : List Mapping} {m : Modifier}
variable {κ μ : Mapping} {g : Variable}

theorem exists_runs (sem : ListSemantics) (m : Modifier) (rows : List Mapping) :
    ∃ result, sem.Runs m rows result := by
  cases m with
  | orderBy keys =>
    refine ⟨rows.mergeSort (sem.precedes keys), List.mergeSort_perm _ _, ?_⟩
    exact List.pairwise_mergeSort (sem.precedes_trans keys) (sem.precedes_total keys) rows
  | slice start length => exact ⟨_, rfl⟩
  | group keys aggregates => exact ⟨_, List.Perm.refl _⟩

/-! ## Rows shown with IRIs for their blank nodes -/

/-- The modifiers see IRIs for the blank nodes of the rows, and what they compute is read back. -/
def shown (sem : ListSemantics) : ListSemantics where
  precedes keys μ ν := sem.precedes keys μ.presented ν.presented
  summary? a rows := (sem.summary? a (rows.map Mapping.presented)).map Skolem.decode
  precedes_total keys μ ν := sem.precedes_total keys μ.presented ν.presented
  precedes_trans keys μ ν ρ := sem.precedes_trans keys μ.presented ν.presented ρ.presented

theorem decoded_summarize (hκ : κ.Unreserved) :
    (sem.summarize aggregates (rows.map Mapping.presented) κ.presented).decoded =
      sem.shown.summarize aggregates rows κ := by
  refine Mapping.decoded_bindAll.trans ?_
  rw [hκ.decoded_presented]
  rfl

theorem groupKeys_presented {keys : List Variable} (h : ∀ μ ∈ rows, μ.Unreserved) :
    (Rows.groupKeys keys (rows.map Mapping.presented)).Perm
      ((Rows.groupKeys keys rows).map Mapping.presented) := by
  unfold Rows.groupKeys
  split
  · exact List.Perm.refl _
  -- rows that differ are shown differently, so a key is dropped as a duplicate on both sides or none
  · have hinj : ∀ κ ∈ (rows.map (·.restrict keys)).dedup,
        ∀ κ' ∈ (rows.map (·.restrict keys)).dedup, κ.presented = κ'.presented → κ = κ' := by
      intro κ hκ κ' hκ' heq
      obtain ⟨μ, hμ, rfl⟩ := List.mem_map.mp (List.mem_dedup.mp hκ)
      obtain ⟨ν, hν, rfl⟩ := List.mem_map.mp (List.mem_dedup.mp hκ')
      exact Mapping.presented_inj ((h μ hμ).restrict keys) ((h ν hν).restrict keys) heq
    have hmap : (rows.map Mapping.presented).map (·.restrict keys) =
        (rows.map (·.restrict keys)).map Mapping.presented := by
      rw [List.map_map, List.map_map]
      exact List.map_congr_left fun μ _ => (Mapping.mapTerms_restrict _).symm
    rw [hmap]
    refine (List.perm_ext_iff_of_nodup (List.nodup_dedup _)
      ((List.nodup_dedup _).map_on hinj)).mpr fun κ => ?_
    simp only [List.mem_dedup, List.mem_map]

theorem members_presented {keys : List Variable} (h : ∀ μ ∈ rows, μ.Unreserved)
    (hκ : κ.Unreserved) :
    Rows.members keys κ.presented (rows.map Mapping.presented) =
      (Rows.members keys κ rows).map Mapping.presented := by
  rw [Rows.members, List.filter_map]
  refine congrArg _ (List.filter_congr fun μ hμ => ?_)
  have hrestrict : μ.presented.restrict keys = (μ.restrict keys).presented :=
    (Mapping.mapTerms_restrict _).symm
  have hiff : (μ.restrict keys).presented = κ.presented ↔ μ.restrict keys = κ :=
    ⟨Mapping.presented_inj ((h μ hμ).restrict keys) hκ, congrArg _⟩
  simp only [Function.comp_apply, hrestrict, hiff]

theorem unreserved_of_mem_groupKeys {keys : List Variable} (h : ∀ μ ∈ rows, μ.Unreserved)
    (hκ : κ ∈ Rows.groupKeys keys rows) : κ.Unreserved := by
  unfold Rows.groupKeys at hκ
  split at hκ
  · exact List.mem_singleton.mp hκ ▸ Mapping.unreserved_empty
  · obtain ⟨μ, hμ, rfl⟩ := List.mem_map.mp (List.mem_dedup.mp hκ)
    exact (h μ hμ).restrict keys

/-- What a modifier makes of shown rows is read back as what it makes of the rows. -/
theorem Runs.decoded (hrows : ∀ μ ∈ rows, μ.Unreserved)
    (h : sem.Runs m (rows.map Mapping.presented) result) :
    sem.shown.Runs m rows (result.map Mapping.decoded) := by
  have hback : (rows.map Mapping.presented).map Mapping.decoded = rows := by
    rw [List.map_map]
    exact (List.map_congr_left fun μ hμ => (hrows μ hμ).decoded_presented).trans (List.map_id rows)
  cases m with
  | orderBy keys =>
    obtain ⟨hperm, hsorted⟩ := h
    have hperm' : (result.map Mapping.decoded).Perm rows := hback ▸ hperm.map Mapping.decoded
    refine ⟨hperm', List.pairwise_map.mpr (hsorted.imp_of_mem fun {μ ν} hμ hν hprecedes => ?_)⟩
    have hshown : ∀ ρ ∈ result, ρ.decoded.presented = ρ := by
      intro ρ hρ
      obtain ⟨σ, hσ, rfl⟩ := List.mem_map.mp (hperm.mem_iff.mp hρ)
      rw [(hrows σ hσ).decoded_presented]
    -- the rows come from the shown list, so showing them again once they are read back changes nothing
    change sem.precedes keys μ.decoded.presented ν.decoded.presented = true
    rw [hshown μ hμ, hshown ν hν]
    exact hprecedes
  | slice start length =>
    have hresult : result = Rows.window start length (rows.map Mapping.presented) := h
    rw [hresult, Rows.map_window, hback]
    rfl
  | group keys aggregates =>
    refine (h.map Mapping.decoded).trans ?_
    refine (((groupKeys_presented hrows).map _).map Mapping.decoded).trans (.of_eq ?_)
    rw [List.map_map, List.map_map]
    refine List.map_congr_left fun κ hκ => ?_
    have hκ : κ.Unreserved := unreserved_of_mem_groupKeys hrows hκ
    simp only [Function.comp_apply]
    rw [members_presented hrows hκ, decoded_summarize hκ]

end ListSemantics

end SparqlBind

end
