import Mathlib.Data.Multiset.Bind
import Mathlib.Data.Multiset.Dedup
import SparqlBind.Proofs.Semantics.Mapping

/-!
# Bags of solution mappings

The operators of the query algebra on finite multisets of solution mappings. A row of an optional
part stands for itself when the other side has nothing for it, and a group without keys is there
even when it has no rows. Nothing here says what a triple pattern or an expression means.
-/

noncomputable section

open scoped Classical

namespace SparqlBind

abbrev Bag := Multiset Mapping

namespace Bag

/-- What the compatible rows of `B` make of `μ`. -/
def matching (μ : Mapping) (B : Bag) : Bag := (B.filter fun ν => μ.Compatible ν).map μ.merge

def join (A B : Bag) : Bag := A.bind fun μ => matching μ B

/-- What an optional part makes of `μ`. -/
def optionally (holds : Mapping → Bool) (B : Bag) (μ : Mapping) : Bag :=
  let found := (matching μ B).filter fun ν => holds ν = true
  if found = 0 then {μ} else found

def leftJoin (holds : Mapping → Bool) (A B : Bag) : Bag := A.bind (optionally holds B)

def minus (A B : Bag) : Bag := A.filter fun μ => ¬ ∃ ν ∈ B, μ.Compatible ν ∧ μ.Shares ν

def select (holds : Mapping → Bool) (A : Bag) : Bag := A.filter fun μ => holds μ = true

/-- An error leaves the variable unbound. -/
def extend (x : Variable) (f : Mapping → Option Term) (A : Bag) : Bag :=
  A.map fun μ => μ.extend x (f μ)

/-- An error on one row is an error of the whole. -/
def extend? (x : Variable) (f : Mapping → Option Term) (A : Bag) : Option Bag :=
  if ∀ μ ∈ A, f μ ≠ none then some (extend x f A) else none

def project (xs : List Variable) (A : Bag) : Bag := A.map (·.restrict xs)

def distinct (A : Bag) : Bag := A.dedup

/-- The values of the keys, each once. -/
def groupKeys (keys : List Variable) (A : Bag) : Bag :=
  if keys = [] then {Mapping.empty} else (project keys A).dedup

def members (keys : List Variable) (κ : Mapping) (A : Bag) : Bag :=
  A.filter fun μ => μ.restrict keys = κ

def group (keys : List Variable) (summarize : Bag → Mapping → Mapping) (A : Bag) : Bag :=
  (groupKeys keys A).map fun κ => summarize (members keys κ A) κ

variable {A B C : Bag} {μ ν : Mapping} {holds : Mapping → Bool} {x : Variable}
variable {f g : Mapping → Option Term} {xs keys : List Variable}

theorem mem_matching : ν ∈ matching μ B ↔ ∃ ρ ∈ B, μ.Compatible ρ ∧ ν = μ.merge ρ := by
  simp only [matching, Multiset.mem_map, Multiset.mem_filter, and_assoc, eq_comm]

theorem map_empty_merge (A : Bag) : A.map Mapping.empty.merge = A := Multiset.map_id A

theorem matching_eq_map (h : ∀ ν ∈ B, μ.Compatible ν) : matching μ B = B.map μ.merge := by
  rw [matching, Multiset.filter_eq_self.mpr h]

theorem mem_join : ν ∈ join A B ↔ ∃ μ ∈ A, ∃ ρ ∈ B, μ.Compatible ρ ∧ ν = μ.merge ρ := by
  simp only [join, Multiset.mem_bind, mem_matching]

theorem mem_optionally (h : ν ∈ optionally holds B μ) :
    ν = μ ∨ ∃ ρ ∈ B, μ.Compatible ρ ∧ ν = μ.merge ρ := by
  unfold optionally at h
  dsimp only at h
  split at h
  · exact .inl (Multiset.mem_singleton.mp h)
  · exact .inr (mem_matching.mp (Multiset.mem_filter.mp h).1)

theorem mem_leftJoin (h : ν ∈ leftJoin holds A B) :
    ν ∈ A ∨ ∃ μ ∈ A, ∃ ρ ∈ B, μ.Compatible ρ ∧ ν = μ.merge ρ := by
  obtain ⟨μ, hμ, hν⟩ := Multiset.mem_bind.mp h
  rcases mem_optionally hν with rfl | hν
  · exact .inl hμ
  · exact .inr ⟨μ, hμ, hν⟩

/-- The condition of an optional part is asked of pairs of compatible rows. -/
theorem leftJoin_congr {first second : Mapping → Bool}
    (h : ∀ μ ∈ A, ∀ ν ∈ B, μ.Compatible ν → first (μ.merge ν) = second (μ.merge ν)) :
    leftJoin first A B = leftJoin second A B := by
  refine Multiset.bind_congr fun μ hμ => ?_
  have hfound : ((matching μ B).filter fun ρ => first ρ = true) =
      (matching μ B).filter fun ρ => second ρ = true := by
    refine Multiset.filter_congr fun ρ hρ => ?_
    obtain ⟨ν, hν, hc, rfl⟩ := mem_matching.mp hρ
    rw [h μ hμ ν hν hc]
  simp only [optionally, hfound]

theorem extend_congr (h : ∀ μ ∈ A, f μ = g μ) : extend x f A = extend x g A :=
  Multiset.map_congr rfl fun μ hμ => by rw [h μ hμ]

theorem extend?_congr (h : ∀ μ ∈ A, f μ = g μ) : extend? x f A = extend? x g A := by
  have hall : (∀ μ ∈ A, f μ ≠ none) ↔ ∀ μ ∈ A, g μ ≠ none :=
    forall₂_congr fun μ hμ => by rw [h μ hμ]
  simp only [extend?, hall, extend_congr h]

/-- Two conditions keep the same rows exactly when they agree on all rows. -/
theorem filter_eq_filter_iff {p q : Mapping → Prop} [DecidablePred p] [DecidablePred q] :
    A.filter p = A.filter q ↔ ∀ μ ∈ A, (p μ ↔ q μ) := by
  constructor
  · intro h μ hμ
    have hp : μ ∈ A.filter p ↔ p μ := by rw [Multiset.mem_filter, and_iff_right hμ]
    have hq : μ ∈ A.filter q ↔ q μ := by rw [Multiset.mem_filter, and_iff_right hμ]
    rw [← hp, h, hq]
  · exact Multiset.filter_congr

theorem project_congr {ys : List Variable} (h : ∀ x, x ∈ xs ↔ x ∈ ys) (A : Bag) :
    A.project xs = A.project ys :=
  Multiset.map_congr rfl fun μ _ => funext fun x => by simp only [Mapping.restrict, h]

theorem extend_eq_none_iff {o : Option Term} (hx : μ x = none) : μ.extend x o x = none ↔ o = none := by
  rw [Mapping.extend_apply, if_pos rfl, hx, Option.or_none]

/-- A `BIND` with an unbound target binds it in every row that has a value. -/
theorem forall_extend_bound (hx : ∀ μ ∈ A, μ x = none) :
    (∀ ν ∈ extend x f A, ν x ≠ none) ↔ ∀ μ ∈ A, f μ ≠ none := by
  simp only [extend, Multiset.mem_map, forall_exists_index, and_imp, forall_apply_eq_imp_iff₂]
  exact forall₂_congr fun μ hμ => not_congr (extend_eq_none_iff (hx μ hμ))

/-- The rows, if all of them bind the variable. -/
def binding? (x : Variable) (A : Bag) : Option Bag :=
  if ∀ μ ∈ A, μ x ≠ none then some A else none

theorem extend?_eq_binding? (hx : ∀ μ ∈ A, μ x = none) : extend? x f A = (extend x f A).binding? x := by
  simp only [extend?, binding?, forall_extend_bound hx]

theorem extend?_eq_some (h : ∀ μ ∈ A, f μ ≠ none) : extend? x f A = some (extend x f A) := if_pos h

theorem extend?_eq_none {μ : Mapping} (hμ : μ ∈ A) (h : f μ = none) : extend? x f A = none :=
  if_neg fun hall => hall μ hμ h

/-- The rows are extended one after the other. -/
theorem extend?_cons (μ : Mapping) (A : Bag) :
    extend? x f (μ ::ₘ A) =
      (f μ).bind fun t => (extend? x f A).bind fun B => some (μ.set x t ::ₘ B) := by
  cases h : f μ with
  | none => exact extend?_eq_none (Multiset.mem_cons_self μ A) h
  | some t =>
    have hrow : extend x f (μ ::ₘ A) = μ.set x t ::ₘ extend x f A := by
      rw [extend, Multiset.map_cons, h]
      rfl
    simp only [extend?, Multiset.forall_mem_cons, h, ne_eq, Option.some_ne_none, not_false_eq_true,
      true_and, hrow, Option.bind_some]
    split <;> rfl

theorem extend?_eq_some_iff :
    extend? x f A = some B ↔ (∀ μ ∈ A, f μ ≠ none) ∧ B = extend x f A := by
  unfold extend?
  split
  · rename_i h
    rw [Option.some.injEq, eq_comm]
    exact ⟨fun hB => ⟨h, hB⟩, And.right⟩
  · rename_i h
    exact ⟨fun hB => (Option.some_ne_none B hB.symm).elim, fun hB => (h hB.1).elim⟩

theorem extend?_singleton {f : Mapping → Option Term} {μ : Mapping} {t : Term} (h : f μ = some t) :
    extend? x f {μ} = some {μ.set x t} := by
  refine extend?_eq_some_iff.mpr ⟨fun ν hν => ?_, ?_⟩
  · rw [Multiset.mem_singleton.mp hν, h]
    exact Option.some_ne_none t
  · rw [extend, Multiset.map_singleton, h, Mapping.extend]

theorem select_singleton {holds : Mapping → Bool} {μ : Mapping} (h : holds μ = true) :
    select holds {μ} = {μ} :=
  Multiset.filter_eq_self.mpr fun _ hν => Multiset.mem_singleton.mp hν ▸ h

/-- The only row of an optional part is not added where the condition is false. -/
theorem leftJoin_singleton {holds : Mapping → Bool} {μ ν : Mapping}
    (h : holds (μ.merge ν) = false) : leftJoin holds {μ} {ν} = {μ} := by
  have hfound : (matching μ {ν}).filter (fun ρ => holds ρ = true) = 0 := by
    refine Multiset.filter_eq_nil.mpr fun ρ hρ => ?_
    obtain ⟨ν', hν', rfl⟩ := Multiset.mem_map.mp hρ
    obtain rfl := Multiset.mem_singleton.mp (Multiset.mem_filter.mp hν').1
    simp [h]
  rw [leftJoin, Multiset.singleton_bind, optionally, hfound, if_pos rfl]

end Bag

/-! ## Scopes -/

namespace Bag

variable {A B : Bag} {p q : Variable → Prop} {holds : Mapping → Bool} {x : Variable}

def Within (p : Variable → Prop) (A : Bag) : Prop := ∀ μ ∈ A, μ.Within p

theorem Within.mono (h : A.Within p) (hpq : ∀ x, p x → q x) : A.Within q :=
  fun μ hμ => (h μ hμ).mono hpq

theorem Within.join (hA : A.Within p) (hB : B.Within p) : (A.join B).Within p := by
  intro ν hν
  obtain ⟨μ, hμ, ρ, hρ, _, rfl⟩ := mem_join.mp hν
  exact (hA μ hμ).merge (hB ρ hρ)

theorem Within.leftJoin (hA : A.Within p) (hB : B.Within p) : (A.leftJoin holds B).Within p := by
  intro ν hν
  rcases mem_leftJoin hν with hν | ⟨μ, hμ, ρ, hρ, _, rfl⟩
  · exact hA ν hν
  · exact (hA μ hμ).merge (hB ρ hρ)

theorem Within.minus (hA : A.Within p) (B : Bag) : (A.minus B).Within p :=
  fun μ hμ => hA μ (Multiset.mem_filter.mp hμ).1

theorem Within.add (hA : A.Within p) (hB : B.Within p) : (A + B).Within p :=
  fun μ hμ => (Multiset.mem_add.mp hμ).elim (hA μ) (hB μ)

theorem Within.select (hA : A.Within p) : (A.select holds).Within p :=
  fun μ hμ => hA μ (Multiset.mem_filter.mp hμ).1

theorem Within.extend (hA : A.Within p) (hx : p x) (f : Mapping → Option Term) :
    (A.extend x f).Within p := by
  intro ν hν
  obtain ⟨μ, hμ, rfl⟩ := Multiset.mem_map.mp hν
  exact (hA μ hμ).extend hx _

theorem within_project (xs : List Variable) (A : Bag) : (A.project xs).Within (· ∈ xs) := by
  intro ν hν
  obtain ⟨μ, _, rfl⟩ := Multiset.mem_map.mp hν
  exact Mapping.within_restrict xs

theorem Within.distinct (hA : A.Within p) : A.distinct.Within p :=
  fun μ hμ => hA μ (Multiset.mem_dedup.mp hμ)

theorem within_groupKeys (keys : List Variable) (A : Bag) :
    (groupKeys keys A).Within (· ∈ keys) := by
  intro κ hκ
  unfold groupKeys at hκ
  split at hκ
  · rw [Multiset.mem_singleton.mp hκ]
    exact Mapping.within_empty
  · exact within_project keys A κ (Multiset.mem_dedup.mp hκ)

theorem within_group {keys : List Variable} {summarize : Bag → Mapping → Mapping}
    (h : ∀ A κ, κ.Within (· ∈ keys) → (summarize A κ).Within p) (A : Bag) :
    (A.group keys summarize).Within p := by
  intro ν hν
  obtain ⟨κ, hκ, rfl⟩ := Multiset.mem_map.mp hν
  exact h _ κ (within_groupKeys keys A κ hκ)

end Bag

end SparqlBind

end
