import SparqlBind.Proofs.Semantics.Bag

/-!
# Laws of joins

Compatible mappings can be merged in any order and with any bracketing, since three mappings that are
compatible one after the other are so in pairs. A join is a sum over the pairs of rows, and its laws
are those of the pairs.
-/

noncomputable section

open scoped Classical

namespace SparqlBind

namespace Mapping

variable {μ ν ρ : Mapping}

theorem Compatible.symm (h : μ.Compatible ν) : ν.Compatible μ :=
  fun x t u ht hu => (h x u t hu ht).symm

theorem compatible_comm : μ.Compatible ν ↔ ν.Compatible μ := ⟨Compatible.symm, Compatible.symm⟩

theorem merge_assoc (μ ν ρ : Mapping) : (μ.merge ν).merge ρ = μ.merge (ν.merge ρ) :=
  funext fun _ => Option.or_assoc

theorem merge_apply_of_right (h : μ.Compatible ν) {x : Variable} {t : Term} (ht : ν x = some t) :
    μ.merge ν x = some t := by
  unfold merge
  cases hμ : μ x with
  | none => exact ht
  | some u => rw [Option.some_or, h x u t hμ ht]

/-- A mapping is compatible with a merge just when it is compatible with both of its parts. -/
theorem compatible_merge_iff (h : μ.Compatible ν) :
    (μ.merge ν).Compatible ρ ↔ μ.Compatible ρ ∧ ν.Compatible ρ := by
  constructor
  · intro hm
    refine ⟨fun x t u ht hu => hm x t u ?_ hu, fun x t u ht hu => hm x t u ?_ hu⟩
    · rw [merge, ht, Option.some_or]
    · exact merge_apply_of_right h ht
  · rintro ⟨hμ, hν⟩ x t u ht hu
    rcases Option.or_eq_some_iff.mp ht with ht | ⟨_, ht⟩
    · exact hμ x t u ht hu
    · exact hν x t u ht hu

/-- The row that two mappings make, if they are compatible. -/
def pairing (μ ν : Mapping) : Bag := if μ.Compatible ν then {μ.merge ν} else 0

theorem pairing_of_compatible (h : μ.Compatible ν) : μ.pairing ν = {μ.merge ν} := if_pos h

theorem pairing_of_not_compatible (h : ¬ μ.Compatible ν) : μ.pairing ν = 0 := if_neg h

theorem pairing_comm (μ ν : Mapping) : μ.pairing ν = ν.pairing μ := by
  by_cases h : μ.Compatible ν
  · rw [pairing_of_compatible h, pairing_of_compatible h.symm, merge_comm h]
  · rw [pairing_of_not_compatible h, pairing_of_not_compatible fun h' => h h'.symm]

theorem pairing_merge (hμν : μ.Compatible ν) (hνρ : ν.Compatible ρ) :
    (μ.merge ν).pairing ρ = μ.pairing (ν.merge ρ) := by
  have hleft : (μ.merge ν).Compatible ρ ↔ μ.Compatible ρ := by
    rw [compatible_merge_iff hμν, and_iff_left hνρ]
  have hright : μ.Compatible (ν.merge ρ) ↔ μ.Compatible ρ := by
    rw [compatible_comm, compatible_merge_iff hνρ, and_iff_right hμν.symm, compatible_comm]
  by_cases h : μ.Compatible ρ
  · rw [pairing_of_compatible (hleft.mpr h), pairing_of_compatible (hright.mpr h), merge_assoc]
  · rw [pairing_of_not_compatible (h ∘ hleft.mp), pairing_of_not_compatible (h ∘ hright.mp)]

/-- Three mappings make the same row whichever two are taken first. -/
theorem pairing_assoc (μ ν ρ : Mapping) :
    (μ.pairing ν).bind (·.pairing ρ) = (ν.pairing ρ).bind μ.pairing := by
  by_cases hμν : μ.Compatible ν
  · by_cases hνρ : ν.Compatible ρ
    · rw [pairing_of_compatible hμν, pairing_of_compatible hνρ, Multiset.singleton_bind,
        Multiset.singleton_bind, pairing_merge hμν hνρ]
    · have hnone : ¬ (μ.merge ν).Compatible ρ := fun h =>
        hνρ ((compatible_merge_iff hμν).mp h).2
      rw [pairing_of_compatible hμν, Multiset.singleton_bind, pairing_of_not_compatible hnone,
        pairing_of_not_compatible hνρ, Multiset.zero_bind]
  · rw [pairing_of_not_compatible hμν, Multiset.zero_bind]
    by_cases hνρ : ν.Compatible ρ
    · have hnone : ¬ μ.Compatible (ν.merge ρ) := fun h =>
        hμν ((compatible_merge_iff hνρ).mp h.symm).1.symm
      rw [pairing_of_compatible hνρ, Multiset.singleton_bind, pairing_of_not_compatible hnone]
    · rw [pairing_of_not_compatible hνρ, Multiset.zero_bind]

end Mapping

namespace Bag

variable {A B C : Bag}

theorem matching_eq_bind (μ : Mapping) (B : Bag) : matching μ B = B.bind μ.pairing := by
  unfold matching
  induction B using Multiset.induction with
  | empty => rfl
  | cons ν B ih =>
    rw [Multiset.cons_bind, ← ih]
    by_cases h : μ.Compatible ν
    · rw [Multiset.filter_cons_of_pos _ h, Multiset.map_cons, Mapping.pairing_of_compatible h,
        Multiset.singleton_add]
    · rw [Multiset.filter_cons_of_neg _ h, Mapping.pairing_of_not_compatible h, zero_add]

theorem join_eq_bind (A B : Bag) : A.join B = A.bind fun μ => B.bind μ.pairing :=
  Multiset.bind_congr fun μ _ => matching_eq_bind μ B

theorem join_comm (A B : Bag) : A.join B = B.join A := by
  rw [join_eq_bind, join_eq_bind, Multiset.bind_bind]
  exact Multiset.bind_congr fun ν _ => Multiset.bind_congr fun μ _ => μ.pairing_comm ν

theorem join_assoc (A B C : Bag) : (A.join B).join C = A.join (B.join C) := by
  rw [join_eq_bind (A.join B), join_eq_bind A, join_eq_bind B, join_eq_bind A, Multiset.bind_assoc]
  refine Multiset.bind_congr fun μ _ => ?_
  rw [Multiset.bind_assoc, Multiset.bind_assoc]
  refine Multiset.bind_congr fun ν _ => ?_
  rw [Multiset.bind_bind, Multiset.bind_assoc]
  exact Multiset.bind_congr fun ρ _ => μ.pairing_assoc ν ρ

end Bag

end SparqlBind

end
