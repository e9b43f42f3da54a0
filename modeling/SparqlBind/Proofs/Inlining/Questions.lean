import SparqlBind.Proofs.Inlining.Memory

/-!
# What an engine is asked about evaluated rows

Evaluated rows are written as a table, in which blank nodes are IRIs, and an operator on top of it is
left to the engine. So are the condition of an optional part, with the rows numbered, and the value
of an expression on one row. The answers are given here in terms of the rows, for an engine that
evaluates the expression on tables as the semantics has it.
-/

noncomputable section

open scoped Classical

namespace SparqlBind

theorem Table.Covers.rows_toPattern_eq {t : Table} (h : t.Covers) (sem : Semantics)
    (g : Option Term) : sem.rows g t.toPattern = (Bag.ofRows t.rows).presented := by
  have hrows : sem.rows g t.toPattern =
      ((t.rows.map (Table.row t.vars)).map (Mapping.ofCells t.vars) : List Mapping) := rfl
  rw [hrows, h.map_ofCells, Bag.presented, Bag.ofRows, Multiset.map_coe, List.map_map]
  rfl

namespace EvaluationContext

variable {context : EvaluationContext} {sem : Semantics} (hd : context.deadline = none)
include hd

/-- An operator on top of a table. -/
theorem rows_operator {t : Table} (ht : t.Covers) {p : Pattern} {F : Bag → Bag}
    (hanswers : context.Answers p (sem.rows none p))
    (hp : sem.rows none p = F (sem.rows none t.toPattern)) :
    ∃ rows : List Binding, context.rows p = pure rows ∧
      Table.Represents ⟨p.inScope, rows⟩ (F (Bag.ofRows t.rows).presented).decoded := by
  obtain ⟨rows, hrows, hrep⟩ := hanswers.rows hd (sem.rows_within p none)
  rw [hp, ht.rows_toPattern_eq] at hrep
  exact ⟨rows, hrows, hrep⟩

/-! ## Values on one row -/

theorem evaluateExpression_eq {e : Expr} {b : Binding} (he : context.Evaluates sem e)
    (hb : b.vars.Nodup) (hfree : b.get? valueVariable = none) :
    context.evaluateExpression e b = pure ((sem.value e b.mapping.presented).map Skolem.decode) := by
  have hcovers : Table.Covers ⟨b.vars, [b]⟩ := by
    refine ⟨hb, fun c hc x hx => ?_⟩
    rw [List.mem_singleton.mp hc] at hx
    exact Binding.contains_iff_mem_vars.mp hx
  have hanswers : context.Answers (expressionPattern e b) (sem.rows none (expressionPattern e b)) :=
    he _ (.project _ (.extend _ _))
  obtain ⟨rows, hrows, hbag, _⟩ := hanswers.solutions hd
  have hvalue : Bag.ofRows rows =
      {((b.mapping.presented.extend valueVariable (sem.value e b.mapping.presented)).restrict
        [valueVariable]).decoded} := by
    have htable : sem.rows none (Table.toPattern ⟨b.vars, [b]⟩) = {b.mapping.presented} :=
      hcovers.rows_toPattern_eq sem none
    rw [hbag, expressionPattern, Semantics.rows, Semantics.rows, htable]
    rfl
  have hlength : rows.length = 1 := by
    have hcard := congrArg Multiset.card hvalue
    rwa [Bag.ofRows, Multiset.coe_card, List.length_map, Multiset.card_singleton] at hcard
  obtain ⟨c, rfl⟩ := List.length_eq_one_iff.mp hlength
  have hc : c.mapping = ((b.mapping.presented.extend valueVariable
      (sem.value e b.mapping.presented)).restrict [valueVariable]).decoded :=
    Multiset.singleton_inj.mp hvalue
  have hget : c.get? valueVariable = (sem.value e b.mapping.presented).map Skolem.decode := by
    have hnone : b.mapping.presented valueVariable = none := by
      simp [Mapping.presented, Mapping.mapTerms, Binding.mapping, hfree]
    have happly := congrFun hc valueVariable
    rw [Mapping.decoded, Mapping.mapTerms, Mapping.restrict,
      if_pos (List.mem_singleton.mpr rfl), Mapping.extend_apply, if_pos rfl, hnone,
      Option.or_none] at happly
    exact happly
  unfold evaluateExpression
  rw [hrows, pure_bind]
  exact congrArg pure hget

end EvaluationContext

namespace Join

/-! ## Conditions on numbered rows -/

def rowTerm (i : Nat) : Term := .literal (.plain (toString i))

theorem mem_numbered {b : Binding} {first : Nat} {rows : List Binding} :
    b ∈ numbered first rows ↔
      ∃ (i : Nat) (h : i < rows.length), b = rows[i].set rowVariable (rowTerm (first + i)) := by
  induction rows generalizing first with
  | nil => simp [numbered]
  | cons c rest ih =>
    rw [numbered, List.mem_cons, ih]
    constructor
    · rintro (rfl | ⟨i, h, rfl⟩)
      · exact ⟨0, Nat.succ_pos _, rfl⟩
      · refine ⟨i + 1, Nat.succ_lt_succ h, ?_⟩
        rw [List.getElem_cons_succ, Nat.add_right_comm, Nat.add_assoc]
    · rintro ⟨i, h, rfl⟩
      cases i with
      | zero => exact .inl rfl
      | succ i =>
        refine .inr ⟨i, Nat.lt_of_succ_lt_succ h, ?_⟩
        rw [List.getElem_cons_succ, Nat.add_right_comm, Nat.add_assoc]

theorem covers_numbered (rows : List Binding) : Table.Covers ⟨columns rows, numbered 0 rows⟩ where
  nodup := nodup_unionVariables _ (List.nodup_singleton _)
  bound b hb x hx := by
    obtain ⟨i, h, rfl⟩ := mem_numbered.mp hb
    rw [Binding.contains_iff_mem_vars, Binding.vars_set, mem_addVariable] at hx
    unfold columns
    rw [mem_unionVariables, List.mem_singleton, List.mem_flatMap]
    rcases hx with hx | rfl
    · exact .inr ⟨rows[i], List.getElem_mem h, hx⟩
    · exact .inl rfl

/-- The number that a term stands for. -/
def numberOf? : Option Term → Option Nat
  | some (.literal l) => decimal? l.value.toList
  | _ => none

theorem decimal?_of_isDigit {digits : List Char} (hne : digits ≠ [])
    (hdigits : ∀ c ∈ digits, c.isDigit = true) :
    decimal? digits = some (digits.foldl (fun n d => 10 * n + (d.toNat - 48)) 0) := by
  have hsign : ∀ rest, digits ≠ '+' :: rest := by
    rintro rest rfl
    exact absurd (hdigits '+' List.mem_cons_self) (by decide)
  unfold decimal?
  split
  · exact absurd rfl (hsign _)
  · rw [if_pos]
    simpa [hne] using hdigits

theorem numberOf?_rowTerm (i : Nat) : numberOf? (some (rowTerm i)) = some i := by
  have hdigits : (toString i).toList = Nat.toDigits 10 i := Nat.toList_repr
  have hfold : (Nat.toDigits 10 i).foldl (fun n d => 10 * n + (d.toNat - 48)) 0 = i :=
    Nat.ofDigitChars_ten_toDigits
  simp only [numberOf?, rowTerm, Literal.value, hdigits]
  rw [decimal?_of_isDigit Nat.toDigits_ne_nil fun c hc =>
    Nat.isDigit_of_mem_toDigits (by decide) (by decide) hc, hfold]

theorem rowNumber?_eq (b : Binding) : rowNumber? b = numberOf? (b.mapping rowVariable) := rfl

section Satisfied
variable {context : EvaluationContext} {sem : Semantics} {holds : Mapping → Bool}
variable (hignores : ∀ μ t, holds (μ.set rowVariable t) = holds μ)
include hignores

theorem holds_numbered (b : Binding) (t : Term) :
    holds (b.set rowVariable t).mapping.presented = holds b.mapping.presented := by
  rw [Binding.mapping_set, Mapping.presented, Mapping.mapTerms_set, hignores, Mapping.presented]

/-- The numbers that come back are those of the rows on which the condition is true. -/
theorem mem_kept_iff {rows kept : List Binding}
    (hkept : Bag.ofRows kept = (((Bag.ofRows (numbered 0 rows)).presented.select
      holds).project [rowVariable]).decoded) {i : Nat} (hi : i < rows.length) :
    i ∈ kept.filterMap rowNumber? ↔ holds rows[i].mapping.presented = true := by
  have hnumber : ∀ j (h : j < rows.length),
      ((rows[j].set rowVariable (rowTerm (0 + j))).mapping.presented.restrict
        [rowVariable]).decoded rowVariable = some (rowTerm j) := by
    intro j h
    rw [Mapping.decoded, Mapping.mapTerms, Mapping.restrict,
      if_pos (List.mem_singleton.mpr rfl), Mapping.presented, Mapping.mapTerms,
      Binding.mapping_set, Mapping.set_apply, if_pos rfl, Nat.zero_add]
    rfl
  rw [List.mem_filterMap]
  constructor
  · rintro ⟨b, hb, hbi⟩
    have hmem : b.mapping ∈ Bag.ofRows kept := Bag.mem_ofRows.mpr ⟨b, hb, rfl⟩
    rw [hkept] at hmem
    obtain ⟨_, hprojected, hbν⟩ := Multiset.mem_map.mp hmem
    obtain ⟨_, hselected, rfl⟩ := Multiset.mem_map.mp hprojected
    obtain ⟨hpresented, hholds⟩ := Multiset.mem_filter.mp hselected
    obtain ⟨_, hnumbered, rfl⟩ := Multiset.mem_map.mp hpresented
    obtain ⟨c, hc, rfl⟩ := Bag.mem_ofRows.mp hnumbered
    obtain ⟨j, hj, rfl⟩ := mem_numbered.mp hc
    rw [rowNumber?_eq, ← hbν, hnumber j hj, numberOf?_rowTerm] at hbi
    obtain rfl := Option.some.inj hbi
    rwa [holds_numbered hignores] at hholds
  · intro hholds
    have hrow : rows[i].set rowVariable (rowTerm (0 + i)) ∈ numbered 0 rows :=
      mem_numbered.mpr ⟨i, hi, rfl⟩
    have hmem : ((rows[i].set rowVariable (rowTerm (0 + i))).mapping.presented.restrict
        [rowVariable]).decoded ∈ Bag.ofRows kept := by
      rw [hkept]
      refine Multiset.mem_map_of_mem _ (Multiset.mem_map_of_mem _ (Multiset.mem_filter.mpr ⟨?_, ?_⟩))
      · exact Multiset.mem_map_of_mem _ (Bag.mem_ofRows.mpr ⟨_, hrow, rfl⟩)
      · rwa [holds_numbered hignores]
    obtain ⟨b, hb, hbν⟩ := Bag.mem_ofRows.mp hmem
    refine ⟨b, hb, ?_⟩
    rw [rowNumber?_eq, hbν, hnumber i hi, numberOf?_rowTerm]

/-- The flags say on which rows the condition is true, whatever order the numbers come back in. -/
theorem satisfied_of_answers {e : Expr} {rows : List Binding}
    (hanswers : context.Answers (conditionPattern e rows)
      (((Bag.ofRows (numbered 0 rows)).presented.select holds).project [rowVariable])) :
    satisfied context e rows = (do
      context.checkDeadline
      pure (rows.map fun b => holds b.mapping.presented)) := by
  obtain ⟨kept, hrows, hkept⟩ := hanswers.rows_eq
  unfold satisfied
  rw [hrows, bind_assoc]
  refine congrArg (_ >>= ·) (funext fun _ => ?_)
  rw [pure_bind]
  refine congrArg pure (List.ext_getElem ?_ fun i hi hi' => ?_)
  · rw [List.length_map, List.length_map, List.length_range]
  · rw [List.length_map, List.length_range] at hi
    rw [List.getElem_map, List.getElem_map, List.getElem_range, Bool.eq_iff_iff,
      List.contains_iff_mem]
    exact mem_kept_iff hignores hkept hi

omit hignores in
theorem satisfied_eq (hd : context.deadline = none) {e : Expr} {rows : List Binding}
    (he : context.Evaluates sem e) (hignores : sem.Ignores rowVariable e) :
    satisfied context e rows =
      pure (rows.map fun b => sem.holds e b.mapping.presented) := by
  have hholds : ∀ μ t, sem.holds e (μ.set rowVariable t) = sem.holds e μ := fun μ t => by
    rw [Semantics.holds, hignores, Semantics.holds]
  have hanswers : context.Answers (conditionPattern e rows)
      (sem.rows none (conditionPattern e rows)) := he _ (.project _ (.filter _))
  have hasked : sem.rows none (conditionPattern e rows) =
      ((sem.rows none (Table.toPattern ⟨columns rows, numbered 0 rows⟩)).select
        (sem.holds e)).project [rowVariable] := rfl
  rw [hasked, (covers_numbered rows).rows_toPattern_eq] at hanswers
  rw [satisfied_of_answers hholds hanswers, EvaluationContext.settled_checkDeadline hd, pure_bind]

end Satisfied

end Join

end SparqlBind

end
