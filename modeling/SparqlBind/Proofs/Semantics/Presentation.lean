import SparqlBind.Proofs.Semantics.Reference

/-!
# Blank nodes presented as IRIs

An operator that is applied to evaluated rows sees them with IRIs for their blank nodes, and its rows
are decoded afterwards. Rows without reserved IRIs come back as they were; what the operator does in
between is the same when no expression and no aggregate tells the difference on these rows.
-/

noncomputable section

open scoped Classical

namespace SparqlBind

namespace Mapping

variable {μ : Mapping} {x : Variable} {xs : List Variable}

theorem decoded_extend (o : Option Term) :
    (μ.extend x o).decoded = μ.decoded.extend x (o.map Skolem.decode) := by
  funext y
  unfold decoded mapTerms
  rw [extend_apply, extend_apply]
  by_cases h : y = x
  · cases o <;> simp [h]
  · simp [h]

theorem decoded_bindAll {value : Aggregate → Option Term} {aggregates : List Aggregate} :
    (μ.bindAll value aggregates).decoded =
      μ.decoded.bindAll (fun a => (value a).map Skolem.decode) aggregates := by
  induction aggregates generalizing μ with
  | nil => rfl
  | cons a rest ih =>
    rw [bindAll_cons, bindAll_cons, ih, decoded_extend]

theorem mapTerms_restrict (f : Term → Term) : (μ.restrict xs).mapTerms f = (μ.mapTerms f).restrict xs := by
  funext x
  unfold mapTerms restrict
  split <;> rfl

theorem Unreserved.restrict (h : μ.Unreserved) (xs : List Variable) : (μ.restrict xs).Unreserved := by
  intro x t ht
  unfold Mapping.restrict at ht
  split at ht
  · exact h x t ht
  · cases ht

theorem unreserved_empty : empty.Unreserved := fun _ _ ht => by cases ht

theorem Unreserved.set (h : μ.Unreserved) {t : Term} (ht : t.isReserved = false) :
    (μ.set x t).Unreserved := by
  intro y u hy
  rw [set_apply] at hy
  split at hy
  · exact Option.some.inj hy ▸ ht
  · exact h y u hy

theorem Unreserved.merge {ν : Mapping} (hμ : μ.Unreserved) (hν : ν.Unreserved) :
    (μ.merge ν).Unreserved := by
  intro x t ht
  rcases Option.or_eq_some_iff.mp ht with ht | ⟨_, ht⟩
  · exact hμ x t ht
  · exact hν x t ht

end Mapping

namespace Bag

variable {A : Bag} {x : Variable} {xs keys : List Variable}

def Unreserved (A : Bag) : Prop := ∀ μ ∈ A, μ.Unreserved

def presented (A : Bag) : Bag := A.map Mapping.presented

def decoded (A : Bag) : Bag := A.map Mapping.decoded

theorem decoded_presented (h : A.Unreserved) : A.presented.decoded = A := by
  rw [decoded, presented, Multiset.map_map]
  exact (Multiset.map_congr rfl fun μ hμ => (h μ hμ).decoded_presented).trans (Multiset.map_id A)

theorem decoded_eq (h : A.Unreserved) : A.decoded = A :=
  (Multiset.map_congr rfl fun μ hμ => (h μ hμ).decoded_eq).trans (Multiset.map_id A)

theorem Unreserved.project (h : A.Unreserved) (xs : List Variable) : (A.project xs).Unreserved := by
  intro ν hν
  obtain ⟨μ, hμ, rfl⟩ := Multiset.mem_map.mp hν
  exact (h μ hμ).restrict xs

theorem Unreserved.groupKeys (h : A.Unreserved) (keys : List Variable) :
    (groupKeys keys A).Unreserved := by
  intro κ hκ
  unfold Bag.groupKeys at hκ
  split at hκ
  · rw [Multiset.mem_singleton.mp hκ]
    exact Mapping.unreserved_empty
  · exact h.project keys κ (Multiset.mem_dedup.mp hκ)

/-! ## Operators on presented rows -/

theorem select_presented_eq {holds : Mapping → Bool} (h : A.Unreserved) :
    (A.presented.select holds).decoded = A.select fun μ => holds μ.presented := by
  rw [select, presented, Multiset.filter_map]
  exact decoded_presented fun μ hμ => h μ (Multiset.mem_filter.mp hμ).1

theorem select_presented {holds : Mapping → Bool} (h : A.Unreserved)
    (hholds : ∀ μ ∈ A, holds μ.presented = holds μ) :
    (A.presented.select holds).decoded = A.select holds :=
  (select_presented_eq h).trans (Multiset.filter_congr fun μ hμ => by simp only [hholds μ hμ])

theorem extend_presented_eq {f : Mapping → Option Term} (h : A.Unreserved) :
    (A.presented.extend x f).decoded = A.extend x fun μ => (f μ.presented).map Skolem.decode := by
  simp only [extend, presented, decoded, Multiset.map_map]
  refine Multiset.map_congr rfl fun μ hμ => ?_
  simp only [Function.comp_apply]
  rw [Mapping.decoded_extend, (h μ hμ).decoded_presented]

theorem project_presented_eq : A.presented.project xs = (A.project xs).presented := by
  simp only [project, presented, Multiset.map_map]
  exact Multiset.map_congr rfl fun μ _ => (Mapping.mapTerms_restrict _).symm

theorem project_presented (h : A.Unreserved) :
    (A.presented.project xs).decoded = A.project xs := by
  rw [project_presented_eq, decoded_presented (h.project xs)]

theorem dedup_presented (h : A.Unreserved) : A.presented.dedup = A.dedup.map Mapping.presented := by
  have hnodup : (A.dedup.map Mapping.presented).Nodup :=
    (Multiset.nodup_dedup A).map_on fun μ hμ ν hν =>
      Mapping.presented_inj (h μ (Multiset.mem_dedup.mp hμ)) (h ν (Multiset.mem_dedup.mp hν))
  refine ((Multiset.nodup_dedup _).ext hnodup).mpr fun ν => ?_
  simp only [presented, Multiset.mem_dedup, Multiset.mem_map]

theorem distinct_presented (h : A.Unreserved) : A.presented.distinct.decoded = A.distinct := by
  rw [distinct, dedup_presented h]
  exact decoded_presented fun μ hμ => h μ (Multiset.mem_dedup.mp hμ)

theorem groupKeys_presented (h : A.Unreserved) :
    groupKeys keys A.presented = (groupKeys keys A).presented := by
  unfold groupKeys
  split
  · exact (Multiset.map_singleton Mapping.presented Mapping.empty).symm
  · rw [project_presented_eq, dedup_presented (h.project keys)]
    rfl

theorem members_presented {κ : Mapping} (h : A.Unreserved) (hκ : κ.Unreserved) :
    members keys κ.presented A.presented = (members keys κ A).presented := by
  rw [members, presented, Multiset.filter_map]
  refine congrArg _ (Multiset.filter_congr fun μ hμ => ?_)
  have hrestrict : μ.presented.restrict keys = (μ.restrict keys).presented :=
    (Mapping.mapTerms_restrict _).symm
  simp only [Function.comp_apply, hrestrict]
  exact ⟨Mapping.presented_inj ((h μ hμ).restrict keys) hκ, congrArg _⟩

theorem group_presented {summarize : Bag → Mapping → Mapping} (h : A.Unreserved)
    (hs : ∀ κ ∈ groupKeys keys A,
      (summarize (members keys κ A).presented κ.presented).decoded =
        summarize (members keys κ A) κ) :
    (A.presented.group keys summarize).decoded = A.group keys summarize := by
  have hkeys : groupKeys keys A.presented = (groupKeys keys A).map Mapping.presented :=
    groupKeys_presented h
  rw [group, hkeys, decoded, Multiset.map_map, Multiset.map_map]
  refine Multiset.map_congr rfl fun κ hκ => ?_
  simp only [Function.comp_apply]
  rw [members_presented h (h.groupKeys keys κ hκ), hs κ hκ]

end Bag

namespace Semantics

variable (sem : Semantics) (functions : ScalarFunctions)

/-- A solution of a part in the reference evaluation. -/
def RowOf (s : Setting) (p : Pattern) (μ : Mapping) : Prop :=
  ∃ A, sem.reference functions s p = some A ∧ μ ∈ A

/-- Variables and constants among the arguments of a call are not given to the evaluator. -/
def isDirect : Expr → Bool
  | .var _ => true
  | .constant _ => true
  | _ => false

/-- The expressions of a `BIND` that are given to the evaluator. -/
def evaluated : BindExpression → List Expr
  | .functionCall _ arguments => arguments.filter fun a => !isDirect a
  | .builtIn e => [e]

/-- The operator at the root does not see that the rows below it have IRIs for their blank nodes. -/
def Insensitive (s : Setting) : Pattern → Prop
  | .filter e p => ∀ μ, sem.RowOf functions s p μ → sem.holds e μ.presented = sem.holds e μ
  | .leftJoin l r e => ∀ μ ν, sem.RowOf functions s l μ → sem.RowOf functions s r ν →
    μ.Compatible ν → sem.condition e (μ.merge ν).presented = sem.condition e (μ.merge ν)
  | .extend p _ e => ∀ μ, sem.RowOf functions s p μ → ∀ a ∈ evaluated (BindExpression.ofExpr e),
    (sem.value a μ.presented).map Skolem.decode = sem.value a μ
  | .group p keys aggregates => ∀ A, sem.reference functions s p = some A →
    ∀ κ ∈ Bag.groupKeys keys A, ∀ a ∈ aggregates,
      (sem.summary? (Bag.members keys κ A).presented a).map Skolem.decode =
        sem.summary? (Bag.members keys κ A) a
  | _ => True

/-- Presenting blank nodes as IRIs does not show in the evaluation of a pattern: what stands directly
below an operator with a call has no reserved IRI, and the operator is insensitive. -/
structure Presentable (s : Setting) (p : Pattern) : Prop where
  unreserved : ∀ q, p.Part q → q.extensionCalls ≠ [] → ∀ r ∈ q.children, ∀ μ,
    sem.RowOf functions s r μ → μ.Unreserved
  insensitive : ∀ q, p.Part q → q.extensionCalls ≠ [] → sem.Insensitive functions s q

variable {sem functions} {s : Setting} {p q : Pattern}

theorem rowOf_iff {A : Bag} {μ : Mapping} (h : sem.reference functions s p = some A) :
    sem.RowOf functions s p μ ↔ μ ∈ A := by
  constructor
  · rintro ⟨B, hB, hμ⟩
    exact Option.some.inj (hB.symm.trans h) ▸ hμ
  · exact fun hμ => ⟨A, h, hμ⟩

theorem rowOf_singleton {μ ν : Mapping} (h : sem.reference functions s p = some {ν}) :
    sem.RowOf functions s p μ ↔ μ = ν := (rowOf_iff h).trans Multiset.mem_singleton

theorem Presentable.of_child (h : sem.Presentable functions s p) (hq : q ∈ p.children) :
    sem.Presentable functions s q where
  unreserved r hr := h.unreserved r (.of_child hq hr)
  insensitive r hr := h.insensitive r (.of_child hq hr)

theorem Presentable.operand (h : sem.Presentable functions s p) (hcalls : p.extensionCalls ≠ [])
    (hq : q ∈ p.children) {A : Bag} (hA : sem.reference functions s q = some A) : A.Unreserved :=
  fun μ hμ => h.unreserved p (.refl p) hcalls q hq μ ⟨A, hA, hμ⟩

theorem Presentable.root (h : sem.Presentable functions s p) (hcalls : p.extensionCalls ≠ []) :
    sem.Insensitive functions s p := h.insensitive p (.refl p) hcalls

theorem summarize_presented {aggregates : List Aggregate} {A : Bag} {κ : Mapping}
    (hκ : κ.Unreserved) (h : ∀ a ∈ aggregates,
      (sem.summary? A.presented a).map Skolem.decode = sem.summary? A a) :
    (sem.summarize aggregates A.presented κ.presented).decoded =
      sem.summarize aggregates A κ := by
  refine Mapping.decoded_bindAll.trans ?_
  rw [hκ.decoded_presented]
  exact Mapping.bindAll_congr h

end Semantics

end SparqlBind

end
