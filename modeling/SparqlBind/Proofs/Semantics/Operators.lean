import SparqlBind.Proofs.Semantics.Modifiers
import SparqlBind.Proofs.Semantics.Standard

/-!
# Operators with one child

The operators that make a list of rows from the rows of one pattern. Their scope depends on the scope
of the child only, and the rows of a stack over a table are given by a list semantics. What a row
holds comes from the child, but for the values of expressions and aggregates.
-/

noncomputable section

open scoped Classical

namespace SparqlBind

inductive UnaryOperator
  | filter (condition : Expr)
  | orderBy (keys : List OrderKey)
  | project (xs : List Variable)
  | distinct
  | slice (start : Nat) (length : Option Nat)
  | group (keys : List Variable) (aggregates : List Aggregate)
  | extend (target : Variable) (e : Expr)

namespace UnaryOperator

def apply : UnaryOperator → Pattern → Pattern
  | filter e, p => .filter e p
  | orderBy keys, p => .orderBy p keys
  | project xs, p => .project p xs
  | distinct, p => .distinct p
  | slice start length, p => .slice p start length
  | group keys aggregates, p => .group p keys aggregates
  | extend x e, p => .extend p x e

/-- The operators on top of a pattern; the first is the innermost. -/
def stack (ops : List UnaryOperator) (p : Pattern) : Pattern := ops.foldl (fun q op => op.apply q) p

end UnaryOperator

/-! ## Scopes -/

theorem unionVariables_addVariable (xs ys : List Variable) (x : Variable) :
    unionVariables xs (addVariable ys x) = addVariable (unionVariables xs ys) x := by
  by_cases hx : x ∈ ys
  · have hmem : x ∈ unionVariables xs ys := mem_unionVariables.mpr (.inr hx)
    rw [addVariable, if_pos hx, addVariable, if_pos hmem]
  · rw [addVariable, if_neg hx]
    exact List.foldl_append

theorem unionVariables_unionVariables (xs ys zs : List Variable) :
    unionVariables xs (unionVariables ys zs) = unionVariables (unionVariables xs ys) zs := by
  induction zs using List.reverseRecOn with
  | nil => rfl
  | append_singleton zs z ih =>
    have hlast (l : List Variable) :
        unionVariables l (zs ++ [z]) = addVariable (unionVariables l zs) z := List.foldl_append
    rw [hlast, hlast, unionVariables_addVariable, ih]

/-- The scope of an operator is computed from the scope of its child. -/
theorem UnaryOperator.inScope_congr (op : UnaryOperator) {p q : Pattern}
    (h : p.inScope = q.inScope) : (op.apply p).inScope = (op.apply q).inScope := by
  cases op with
  | extend x e =>
    have hscope (r : Pattern) :
        (UnaryOperator.extend x e |>.apply r).inScope = unionVariables [x] r.inScope :=
      (unionVariables_unionVariables [x] [] r.mentions).symm
    rw [hscope, hscope, h]
  | filter | orderBy | distinct | slice => exact h
  | project | group => rfl

/-! ## Rows -/

variable {sem : Semantics} {lists : ListSemantics}

/-- What an operator makes of the rows of its child. Where an order is free it is that of the child. -/
def UnaryOperator.run (sem : Semantics) (lists : ListSemantics) :
    UnaryOperator → List Mapping → List Mapping
  | filter e, rows => rows.filter (sem.holds e)
  | orderBy keys, rows => rows.mergeSort (lists.precedes keys)
  | project xs, rows => rows.map (·.restrict xs)
  | distinct, rows => rows.eraseDups
  | slice start length, rows => Rows.window start length rows
  | group keys aggregates, rows => (Rows.groupKeys keys rows).map fun κ =>
      lists.summarize aggregates (Rows.members keys κ rows) κ
  | extend x e, rows => rows.map fun μ => μ.extend x (sem.value e μ)

/-- The rows of operators over a table of values. -/
def listRows (sem : Semantics) (lists : ListSemantics) : Pattern → List Mapping
  | .values xs cells => cells.map (Mapping.ofCells xs)
  | .filter e p => (UnaryOperator.filter e).run sem lists (listRows sem lists p)
  | .orderBy p keys => (UnaryOperator.orderBy keys).run sem lists (listRows sem lists p)
  | .project p xs => (UnaryOperator.project xs).run sem lists (listRows sem lists p)
  | .distinct p => UnaryOperator.distinct.run sem lists (listRows sem lists p)
  | .slice p start length =>
    (UnaryOperator.slice start length).run sem lists (listRows sem lists p)
  | .group p keys aggregates =>
    (UnaryOperator.group keys aggregates).run sem lists (listRows sem lists p)
  | .extend p x e => (UnaryOperator.extend x e).run sem lists (listRows sem lists p)
  | _ => []

theorem listRows_apply (op : UnaryOperator) (p : Pattern) :
    listRows sem lists (op.apply p) = op.run sem lists (listRows sem lists p) := by
  cases op <;> rfl

/-- The values that an operator computes. -/
def UnaryOperator.Computes (sem : Semantics) (lists : ListSemantics) : UnaryOperator → Term → Prop
  | extend _ e, t => ∃ μ, sem.value e μ = some t
  | group _ aggregates, t => ∃ a ∈ aggregates, ∃ rows, lists.summary? a rows = some t
  | _, _ => False

theorem Mapping.eq_or_of_extend {μ : Mapping} {x y : Variable} {o : Option Term} {t : Term}
    (h : μ.extend y o x = some t) : o = some t ∨ μ x = some t := by
  rw [extend_apply] at h
  by_cases hxy : x = y
  · subst hxy
    rw [if_pos rfl] at h
    exact (Option.or_eq_some_iff.mp h).imp id And.right
  · rw [if_neg hxy] at h
    exact .inr h

theorem Mapping.eq_or_of_bindAll {value : Aggregate → Option Term} {aggregates : List Aggregate}
    {μ : Mapping} {x : Variable} {t : Term} (h : μ.bindAll value aggregates x = some t) :
    μ x = some t ∨ ∃ a ∈ aggregates, value a = some t := by
  induction aggregates generalizing μ with
  | nil => exact .inl h
  | cons a rest ih =>
    rcases ih h with h | ⟨b, hb, hvalue⟩
    · rcases eq_or_of_extend h with hvalue | h
      · exact .inr ⟨a, List.mem_cons_self, hvalue⟩
      · exact .inl h
    · exact .inr ⟨b, List.mem_cons_of_mem _ hb, hvalue⟩

/-- A term of the result is one of the child, unless it was computed. -/
theorem UnaryOperator.computes_or_mem {op : UnaryOperator} {rows : List Mapping} {μ : Mapping}
    {x : Variable} {t : Term} (hμ : μ ∈ op.run sem lists rows) (hx : μ x = some t) :
    op.Computes sem lists t ∨ ∃ ν ∈ rows, ∃ y, ν y = some t := by
  have hrestrict {ν : Mapping} {xs : List Variable} (h : ν.restrict xs x = some t) :
      ν x = some t := by
    unfold Mapping.restrict at h
    split at h
    · exact h
    · cases h
  cases op with
  | filter e => exact .inr ⟨μ, List.mem_of_mem_filter hμ, x, hx⟩
  | orderBy keys => exact .inr ⟨μ, (List.mergeSort_perm _ _).mem_iff.mp hμ, x, hx⟩
  | distinct => exact .inr ⟨μ, List.mem_eraseDups.mp hμ, x, hx⟩
  | slice start length => exact .inr ⟨μ, (Rows.window_sublist _ _ _).subset hμ, x, hx⟩
  | project xs =>
    obtain ⟨ν, hν, rfl⟩ := List.mem_map.mp hμ
    exact .inr ⟨ν, hν, x, hrestrict hx⟩
  | extend y e =>
    obtain ⟨ν, hν, rfl⟩ := List.mem_map.mp hμ
    rcases Mapping.eq_or_of_extend hx with hvalue | hx
    · exact .inl ⟨ν, hvalue⟩
    · exact .inr ⟨ν, hν, x, hx⟩
  | group keys aggregates =>
    obtain ⟨κ, hκ, rfl⟩ := List.mem_map.mp hμ
    rcases Mapping.eq_or_of_bindAll hx with hκx | ⟨a, ha, hvalue⟩
    · unfold Rows.groupKeys at hκ
      split at hκ
      · rw [List.mem_singleton.mp hκ] at hκx
        cases hκx
      · obtain ⟨ν, hν, rfl⟩ := List.mem_map.mp (List.mem_dedup.mp hκ)
        exact .inr ⟨ν, hν, x, hrestrict hκx⟩
    · exact .inl ⟨a, ha, _, hvalue⟩

theorem UnaryOperator.run_within {op : UnaryOperator} {p : Pattern} {rows : List Mapping}
    (h : ∀ μ ∈ rows, μ.Within (· ∈ p.mentions)) :
    ∀ μ ∈ op.run sem lists rows, μ.Within (· ∈ (op.apply p).mentions) := by
  intro μ hμ
  cases op with
  | filter e => exact h μ (List.mem_of_mem_filter hμ)
  | orderBy keys => exact h μ ((List.mergeSort_perm _ _).mem_iff.mp hμ)
  | distinct => exact h μ (List.mem_eraseDups.mp hμ)
  | slice start length => exact h μ ((Rows.window_sublist _ _ _).subset hμ)
  | project xs =>
    obtain ⟨ν, _, rfl⟩ := List.mem_map.mp hμ
    exact Mapping.within_restrict xs
  | extend y e =>
    obtain ⟨ν, hν, rfl⟩ := List.mem_map.mp hμ
    exact ((h ν hν).mono fun _ => List.mem_cons_of_mem _).extend List.mem_cons_self _
  | group keys aggregates =>
    obtain ⟨κ, hκ, rfl⟩ := List.mem_map.mp hμ
    have hwithin : κ.Within (· ∈ keys) := by
      unfold Rows.groupKeys at hκ
      split at hκ
      · exact List.mem_singleton.mp hκ ▸ Mapping.within_empty
      · obtain ⟨ν, _, rfl⟩ := List.mem_map.mp (List.mem_dedup.mp hκ)
        exact Mapping.within_restrict keys
    exact (hwithin.mono fun _ => List.mem_append_left _).bindAll fun _ ha =>
      List.mem_append_right _ (List.mem_map_of_mem ha)

theorem listRows_within (ops : List UnaryOperator) (xs : List Variable)
    (cells : List (List (Option GroundTerm))) :
    ∀ μ ∈ listRows sem lists (UnaryOperator.stack ops (.values xs cells)),
      μ.Within (· ∈ (UnaryOperator.stack ops (.values xs cells)).mentions) := by
  induction ops using List.reverseRecOn with
  | nil =>
    intro μ hμ
    obtain ⟨row, _, rfl⟩ := List.mem_map.mp hμ
    exact Mapping.within_ofCells xs row
  | append_singleton ops op ih =>
    rw [UnaryOperator.stack, List.foldl_append]
    change ∀ μ ∈ listRows sem lists (op.apply (UnaryOperator.stack ops _)), _
    rw [listRows_apply]
    exact UnaryOperator.run_within ih

end SparqlBind

end
