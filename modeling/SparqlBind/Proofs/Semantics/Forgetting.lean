import SparqlBind.Proofs.Semantics.Presentation

/-!
# Rows without one of their variables

The operators of the algebra commute with forgetting a variable of which they make no use: no two rows
that are put together both bind it, and no expression depends on it.
-/

noncomputable section

open scoped Classical

namespace SparqlBind

namespace Mapping

def forget (x : Variable) (μ : Mapping) : Mapping := fun y => if y = x then none else μ y

variable {μ ν : Mapping} {x y : Variable} {t : Term}

theorem forget_apply : μ.forget x y = if y = x then none else μ y := rfl

theorem forget_of_eq_none (h : μ x = none) : μ.forget x = μ := by
  funext y
  rw [forget_apply]
  split
  · subst y
    exact h.symm
  · rfl

/-- A mapping is what is left of it, or that with a value of the variable. -/
theorem eq_forget_or_set (x : Variable) (μ : Mapping) :
    μ = μ.forget x ∨ ∃ t, μ = (μ.forget x).set x t := by
  cases h : μ x with
  | none => exact .inl (forget_of_eq_none h).symm
  | some t =>
    refine .inr ⟨t, funext fun y => ?_⟩
    rw [set_apply, forget_apply]
    split
    · subst y
      exact h
    · rfl

theorem forget_set : (μ.set x t).forget x = μ.forget x := by
  funext y
  rw [forget_apply, forget_apply, set_apply]
  split <;> rfl

theorem forget_extend (h : y ≠ x) (o : Option Term) :
    (μ.extend y o).forget x = (μ.forget x).extend y o := by
  funext z
  rw [forget_apply, extend_apply, extend_apply, forget_apply, forget_apply]
  split_ifs with hzx hzy
  · exact absurd (hzy.symm.trans hzx) h
  · rfl
  · rfl
  · rfl

theorem forget_merge : (μ.merge ν).forget x = (μ.forget x).merge (ν.forget x) := by
  funext y
  unfold merge
  rw [forget_apply, forget_apply, forget_apply]
  split <;> rfl

theorem mapTerms_forget (f : Term → Term) : (μ.forget x).mapTerms f = (μ.mapTerms f).forget x := by
  funext y
  unfold mapTerms forget
  split <;> rfl

theorem presented_forget : (μ.forget x).presented = μ.presented.forget x := mapTerms_forget _

section Apart
variable (h : μ x = none ∨ ν x = none)
include h

theorem compatible_forget : (μ.forget x).Compatible (ν.forget x) ↔ μ.Compatible ν := by
  refine forall_congr' fun y => ?_
  rw [forget_apply, forget_apply]
  split
  · subst y
    rcases h with h | h <;> simp [h]
  · rfl

theorem shares_forget : (μ.forget x).Shares (ν.forget x) ↔ μ.Shares ν := by
  refine exists_congr fun y => ?_
  rw [forget_apply, forget_apply]
  split
  · subst y
    rcases h with h | h <;> simp [h]
  · rfl

end Apart

end Mapping

namespace Bag

def forget (x : Variable) (A : Bag) : Bag := A.map (Mapping.forget x)

/-- The variable is bound by the rows of one side at most. -/
def Apart (x : Variable) (A B : Bag) : Prop := ∀ μ ∈ A, ∀ ν ∈ B, μ x = none ∨ ν x = none

variable {x y : Variable} {A B : Bag} {holds : Mapping → Bool} {f : Mapping → Option Term}

theorem forget_of_eq_none (h : ∀ μ ∈ A, μ x = none) : A.forget x = A :=
  (Multiset.map_congr rfl fun μ hμ => Mapping.forget_of_eq_none (h μ hμ)).trans (Multiset.map_id A)

theorem forget_matching {μ : Mapping} (h : ∀ ν ∈ B, μ x = none ∨ ν x = none) :
    (matching μ B).forget x = matching (μ.forget x) (B.forget x) := by
  have hfilter : (B.filter fun ν => (μ.forget x).Compatible (ν.forget x)) =
      B.filter fun ν => μ.Compatible ν :=
    Multiset.filter_congr fun ν hν => Mapping.compatible_forget (h ν hν)
  unfold matching forget
  rw [Multiset.filter_map, Multiset.map_map, Multiset.map_map]
  simp only [Function.comp_def, hfilter, Mapping.forget_merge]

theorem forget_join (h : Apart x A B) : (A.join B).forget x = (A.forget x).join (B.forget x) := by
  unfold join forget
  rw [Multiset.map_bind, Multiset.bind_map]
  exact Multiset.bind_congr fun μ hμ => forget_matching (h μ hμ)

theorem forget_select (h : ∀ μ ∈ A, holds (μ.forget x) = holds μ) :
    (A.select holds).forget x = (A.forget x).select holds := by
  unfold select forget
  rw [Multiset.filter_map]
  refine congrArg _ (Multiset.filter_congr fun μ hμ => ?_)
  rw [Function.comp_apply, h μ hμ]

theorem forget_leftJoin (h : Apart x A B) (hholds : ∀ μ, holds (μ.forget x) = holds μ) :
    (A.leftJoin holds B).forget x = (A.forget x).leftJoin holds (B.forget x) := by
  have hoptionally : ∀ μ ∈ A, (optionally holds B μ).forget x =
      optionally holds (B.forget x) (μ.forget x) := by
    intro μ hμ
    have hfound : forget x ((matching μ B).filter fun ν => holds ν = true) =
        (matching (μ.forget x) (B.forget x)).filter fun ν => holds ν = true := by
      rw [← forget_matching (h μ hμ)]
      exact forget_select fun ν _ => hholds ν
    unfold optionally
    dsimp only
    rw [← hfound]
    have hempty : ∀ F : Bag, F.forget x = 0 ↔ F = 0 := fun F => Multiset.map_eq_zero
    simp only [hempty]
    split
    · exact Multiset.map_singleton _ μ
    · rfl
  unfold leftJoin
  rw [forget, Multiset.map_bind, forget, Multiset.bind_map]
  exact Multiset.bind_congr hoptionally

theorem forget_minus (h : Apart x A B) : (A.minus B).forget x = (A.forget x).minus (B.forget x) := by
  unfold minus forget
  rw [Multiset.filter_map]
  refine congrArg _ (Multiset.filter_congr fun μ hμ => not_congr ?_)
  simp only [Multiset.mem_map, exists_exists_and_eq_and]
  refine exists_congr fun ν => and_congr_right fun hν => ?_
  rw [Mapping.compatible_forget (h μ hμ ν hν), Mapping.shares_forget (h μ hμ ν hν)]

theorem forget_add (A B : Bag) : (A + B).forget x = A.forget x + B.forget x := Multiset.map_add _ A B

theorem forget_extend (hy : y ≠ x) (hf : ∀ μ ∈ A, f (μ.forget x) = f μ) :
    (A.extend y f).forget x = (A.forget x).extend y f := by
  unfold extend forget
  rw [Multiset.map_map, Multiset.map_map]
  refine Multiset.map_congr rfl fun μ hμ => ?_
  rw [Function.comp_apply, Function.comp_apply, Mapping.forget_extend hy, hf μ hμ]

theorem forget_extend? (hy : y ≠ x) (hf : ∀ μ ∈ A, f (μ.forget x) = f μ) :
    (A.extend? y f).map (forget x) = (A.forget x).extend? y f := by
  have hall : (∀ μ ∈ A.forget x, f μ ≠ none) ↔ ∀ μ ∈ A, f μ ≠ none := by
    simp only [forget, Multiset.mem_map, forall_exists_index, and_imp,
      forall_apply_eq_imp_iff₂]
    exact forall₂_congr fun μ hμ => by rw [hf μ hμ]
  unfold extend?
  simp only [hall]
  split
  · rw [Option.map_some, forget_extend hy hf]
  · rfl

theorem forget_binding? (hy : y ≠ x) :
    (A.binding? y).map (forget x) = (A.forget x).binding? y := by
  have hall : (∀ μ ∈ A.forget x, μ y ≠ none) ↔ ∀ μ ∈ A, μ y ≠ none := by
    simp only [forget, Multiset.mem_map, forall_exists_index, and_imp,
      forall_apply_eq_imp_iff₂, Mapping.forget_apply, if_neg hy]
  unfold binding?
  simp only [hall]
  split <;> rfl

theorem forget_decoded : A.decoded.forget x = (A.forget x).decoded := by
  unfold decoded forget
  rw [Multiset.map_map, Multiset.map_map]
  exact Multiset.map_congr rfl fun μ _ => (Mapping.mapTerms_forget _).symm

theorem forget_presented : A.presented.forget x = (A.forget x).presented := by
  unfold presented forget
  rw [Multiset.map_map, Multiset.map_map]
  exact Multiset.map_congr rfl fun μ _ => (Mapping.mapTerms_forget _).symm

/-- The target of a `BIND` is forgotten. -/
theorem forget_extend_self (h : ∀ μ ∈ A, μ x = none) : (A.extend x f).forget x = A := by
  unfold extend forget
  rw [Multiset.map_map]
  refine (Multiset.map_congr rfl fun μ hμ => ?_).trans (Multiset.map_id A)
  rw [Function.comp_apply]
  cases f μ with
  | none => exact Mapping.forget_of_eq_none (h μ hμ)
  | some t => exact Mapping.forget_set.trans (Mapping.forget_of_eq_none (h μ hμ))

end Bag

/-- The expressions that a `BIND` needs the values of. -/
def BindExpression.exprs : BindExpression → List Expr
  | functionCall _ arguments => arguments
  | builtIn e => [e]

namespace Semantics

variable {sem : Semantics} {x : Variable} {e : Expr}

theorem Ignores.value_forget (h : sem.Ignores x e) (μ : Mapping) :
    sem.value e (μ.forget x) = sem.value e μ := by
  rcases Mapping.eq_forget_or_set x μ with hμ | ⟨t, hμ⟩
  · rw [← hμ]
  · rw [hμ, h, Mapping.forget_set]
    exact congrArg _ (Mapping.forget_of_eq_none (by simp [Mapping.forget_apply]))

theorem Ignores.holds_forget (h : sem.Ignores x e) (μ : Mapping) :
    sem.holds e (μ.forget x) = sem.holds e μ := by
  rw [holds, h.value_forget, holds]

theorem condition_forget {c : Option Expr} (h : ∀ e ∈ c, sem.Ignores x e) (μ : Mapping) :
    sem.condition c (μ.forget x) = sem.condition c μ := by
  cases c with
  | none => rfl
  | some e => exact (h e rfl).holds_forget μ

/-- A `BIND` that ignores the variable can be done without it. -/
theorem forget_bind? {functions : ScalarFunctions} {y : Variable} {A : Bag} {b : BindExpression}
    (hy : y ≠ x) (h : ∀ a ∈ b.exprs, sem.Ignores x a) :
    ((sem.bind? functions y A b).bind fun B => some (B.forget x)) =
      sem.bind? functions y (A.forget x) b := by
  cases b with
  | functionCall i arguments =>
    simp only [bind?]
    cases functions.lookup i.text with
    | none => rfl
    | some f =>
      rw [Option.bind_some, Option.bind_some]
      refine (Option.map_eq_bind ..).symm.trans (Bag.forget_extend? hy fun μ _ => ?_)
      have harguments : sem.arguments? arguments (μ.forget x) = sem.arguments? arguments μ :=
        arguments?_congr fun a ha => (h a ha).value_forget μ
      rw [harguments]
  | builtIn e =>
    have he : ∀ μ ∈ A, sem.value e (μ.forget x) = sem.value e μ := fun μ _ =>
      (h e (List.mem_singleton_self e)).value_forget μ
    rw [bind?_builtIn, bind?_builtIn]
    split
    · rw [Option.bind_some, Bag.forget_extend hy he]
    · exact (Option.map_eq_bind ..).symm.trans (Bag.forget_extend? hy he)

end Semantics

end SparqlBind

end
