import SparqlBind.Proofs.Semantics.Disclosure
import SparqlBind.Proofs.Semantics.Existence

/-!
# Expressions that tell IRIs from blank nodes

An expression without a call that reveals a blank node of the row has on the row of a table the value
that a table holds for its value on the row itself. An `EXISTS` has to have the same answer.
-/

noncomputable section

open scoped Classical

namespace SparqlBind

mutual

/-- Whatever the expression evaluates on the row, no call reveals that an argument is a blank node,
and no reserved IRI is written or made. An `EXISTS` has to be answered before. -/
def Expr.Discreet (s : Surroundings) (row : Binding) : Expr → Prop
  | .constant t => t.toTerm.isReserved = false
  | .var _ => True
  | .binary _ a b => a.Discreet s row ∧ b.Discreet s row
  | .unary _ a => a.Discreet s row
  | .oneOf a candidates => a.Discreet s row ∧ Expr.AllDiscreet s row candidates
  | .existence _ => False
  | .bound _ => True
  | .cond c a b => c.Discreet s row ∧
      ((c.value? s none row).bind Value.truth? = some true → a.Discreet s row) ∧
      ((c.value? s none row).bind Value.truth? = some false → b.Discreet s row)
  | .coalesce arguments => Expr.AllDiscreet s row arguments
  | .call f arguments => Expr.AllDiscreet s row arguments ∧
      (f.reveals = true → ∀ label, some (.blank label) ∉ Expr.values s arguments none row) ∧
      Value.AllUnreserved ((Expr.call f arguments).value? s none row)

def Expr.AllDiscreet (s : Surroundings) (row : Binding) : List Expr → Prop
  | [] => True
  | e :: rest => e.Discreet s row ∧ Expr.AllDiscreet s row rest

end

section Rows
variable {s : Surroundings} {row shown : Binding}

mutual

theorem Expr.Discreet.unreserved {e : Expr} (he : e.Discreet s row) (hrow : row.mapping.Unreserved) :
    Value.AllUnreserved (e.value? s none row) := by
  intro v hv
  cases e with
  | constant t =>
    obtain rfl := Option.some.inj hv
    exact (Term.isReserved_canonical _).trans he
  | var x =>
    obtain ⟨t, ht, rfl⟩ := Option.map_eq_some_iff.mp hv
    exact (Term.isReserved_canonical t).trans (hrow x t ht)
  | binary op a b => exact Value.not_isReserved_of_isLiteral (op.literalOnly_value? _ _ v hv)
  | unary op a =>
    obtain ⟨w, _, hv⟩ := Option.bind_eq_some_iff.mp hv
    exact Value.not_isReserved_of_isLiteral (op.literalOnly_value? w v hv)
  | oneOf a candidates => exact Value.not_isReserved_of_isLiteral (literalOnly_oneOf? _ _ v hv)
  | existence p => exact he.elim
  | bound x => exact Option.some.inj hv ▸ rfl
  | cond c a b =>
    rw [Option.mem_def, Expr.value?] at hv
    split at hv
    · exact (he.2.1 ‹_›).unreserved hrow v hv
    · exact (he.2.2 ‹_›).unreserved hrow v hv
    · cases hv
  | coalesce arguments =>
    rw [Option.mem_def, Expr.value?, Option.join_eq_some_iff] at hv
    exact Expr.AllDiscreet.unreserved he hrow _ (List.mem_of_find?_eq_some hv) v rfl
  | call f arguments => exact he.2.2 v hv

theorem Expr.AllDiscreet.unreserved {es : List Expr} (hes : Expr.AllDiscreet s row es)
    (hrow : row.mapping.Unreserved) :
    ∀ o ∈ Expr.values s es none row, Value.AllUnreserved o := by
  cases es with
  | nil => exact fun o ho => absurd ho List.not_mem_nil
  | cons e rest =>
    intro o ho
    rcases List.mem_cons.mp ho with rfl | ho
    · exact hes.1.unreserved hrow
    · exact Expr.AllDiscreet.unreserved hes.2 hrow o ho

end

mutual

/-- On the row of a table the value is the one that a table holds for the value on the row. -/
theorem Expr.Discreet.value?_presented {e : Expr} (he : e.Discreet s row)
    (hknown : e.isPlain (Semantics.standard s).known = true) (hrow : row.mapping.Unreserved)
    (hshown : shown.mapping = row.mapping.presented) :
    e.value? s none shown = (e.value? s none row).map Value.presented := by
  have hget : ∀ x, shown.get? x = (row.get? x).map fun t => (Skolem.encode t).toTerm :=
    congrFun hshown
  cases e with
  | constant t =>
    have hencode : (Skolem.encode t.toTerm).toTerm = t.toTerm := by cases t <;> rfl
    rw [Expr.value?, Expr.value?, Option.map_some, Value.presented_ofTerm, hencode]
  | var x =>
    rw [Expr.value?, Expr.value?, hget, Option.map_map, Option.map_map]
    simp only [Function.comp_def, Value.presented_ofTerm]
  | binary op a b =>
    obtain ⟨ha, hb⟩ := Bool.and_eq_true_iff.mp hknown
    rw [Expr.value?, Expr.value?, he.1.value?_presented ha hrow hshown,
      he.2.value?_presented hb hrow hshown,
      op.value?_presented (he.1.unreserved hrow) (he.2.unreserved hrow),
      Value.LiteralOnly.map_presented (op.literalOnly_value? _ _)]
  | unary op a =>
    have ha : a.isPlain (Semantics.standard s).known = true := hknown
    have hdiscreet : a.Discreet s row := he
    rw [Expr.value?, Expr.value?, hdiscreet.value?_presented ha hrow hshown, Option.bind_map]
    simp only [Function.comp_def, op.value?_presented]
    refine (Value.LiteralOnly.map_presented ?_).symm
    exact Value.literalOnly_bind.mpr fun v _ => op.literalOnly_value? v
  | oneOf a candidates =>
    obtain ⟨ha, hcandidates⟩ := Bool.and_eq_true_iff.mp hknown
    rw [Expr.value?, Expr.value?, he.1.value?_presented ha hrow hshown,
      he.2.values_presented hcandidates hrow hshown,
      oneOf?_presented (he.1.unreserved hrow) (he.2.unreserved hrow),
      Value.LiteralOnly.map_presented (literalOnly_oneOf? _ _)]
  | existence p => exact he.elim
  | bound x =>
    have hbound : shown.contains x = row.contains x := by
      unfold Binding.contains
      rw [hget, Option.isSome_map]
    rw [Expr.value?, Expr.value?, hbound]
    rfl
  | cond c a b =>
    obtain ⟨hca, hb⟩ := Bool.and_eq_true_iff.mp hknown
    obtain ⟨hc, ha⟩ := Bool.and_eq_true_iff.mp hca
    have htruth : (c.value? s none shown).bind Value.truth? =
        (c.value? s none row).bind Value.truth? := by
      rw [he.1.value?_presented hc hrow hshown, Option.bind_map]
      simp only [Function.comp_def, Value.truth?_presented]
    rw [Expr.value?, Expr.value?, htruth]
    split
    · exact (he.2.1 ‹_›).value?_presented ha hrow hshown
    · exact (he.2.2 ‹_›).value?_presented hb hrow hshown
    · rfl
  | coalesce arguments =>
    have hfind : ∀ vs : List (Option Value),
        ((vs.map (Option.map Value.presented)).find? Option.isSome).join =
          (vs.find? Option.isSome).join.map Value.presented := by
      intro vs
      induction vs with
      | nil => rfl
      | cons v rest ih =>
        rw [List.map_cons]
        cases v with
        | none => exact ih
        | some v => rfl
    rw [Expr.value?, Expr.value?, Expr.AllDiscreet.values_presented he hknown hrow hshown, hfind]
  | call f arguments =>
    obtain ⟨hf, harguments⟩ := Bool.and_eq_true_iff.mp hknown
    rw [Expr.value?, Expr.value?, he.1.values_presented harguments hrow hshown]
    exact Function.value?_presented hf { s.functions with chance := s.functions.chance.forRow row }
      (s.functions.chance.forRow shown) he.2.1

theorem Expr.AllDiscreet.values_presented {es : List Expr} (hes : Expr.AllDiscreet s row es)
    (hknown : Expr.arePlain (Semantics.standard s).known es = true)
    (hrow : row.mapping.Unreserved) (hshown : shown.mapping = row.mapping.presented) :
    Expr.values s es none shown =
      (Expr.values s es none row).map (Option.map Value.presented) := by
  cases es with
  | nil => rfl
  | cons e rest =>
    obtain ⟨he, hrest⟩ := Bool.and_eq_true_iff.mp hknown
    rw [Expr.values, Expr.values, List.map_cons, hes.1.value?_presented he hrow hshown,
      hes.2.values_presented hrest hrow hshown]

end

end Rows

/-! ## The standard semantics -/

namespace Mapping

variable {μ : Mapping} {xs : List Variable}

theorem mapping_toBinding (μ : Mapping) (xs : List Variable) :
    (μ.toBinding xs).mapping = μ.restrict xs := by
  funext x
  rw [toBinding, Binding.mapping, Binding.get?_ofList, ← List.filterMap_reverse,
    Binding.lookup_filterMap]
  simp only [List.mem_reverse, restrict]

theorem mapping_toBinding_presented : (μ.presented.toBinding xs).mapping =
    (μ.toBinding xs).mapping.presented := by
  rw [mapping_toBinding, mapping_toBinding]
  exact (mapTerms_restrict _).symm

end Mapping

namespace Semantics

variable {s : Surroundings} {e : Expr} {μ : Mapping}

/-- The expression is discreet on the row and has known functions only. -/
structure IsDiscreet (s : Surroundings) (e : Expr) (μ : Mapping) : Prop where
  known : e.isPlain (standard s).known = true
  discreet : e.Discreet s (μ.toBinding e.vars)

theorem IsDiscreet.standardValue_presented (h : IsDiscreet s e μ) (hμ : μ.Unreserved) :
    standardValue s e μ.presented =
      (standardValue s e μ).map fun t => (Skolem.encode t).toTerm := by
  have hrow : (μ.toBinding e.vars).mapping.Unreserved := by
    rw [Mapping.mapping_toBinding]
    exact hμ.restrict _
  have hvalue := h.discreet.value?_presented h.known hrow Mapping.mapping_toBinding_presented
  have hterms : ((e.value? s none (μ.presented.toBinding e.vars)).map Value.toTerm) =
      ((e.value? s none (μ.toBinding e.vars)).map Value.toTerm).map fun t =>
        (Skolem.encode t).toTerm := by
    rw [hvalue, Option.map_map, Option.map_map]
    simp only [Function.comp_def, Value.toTerm_presented]
  cases e with
  | var x => rfl
  | constant t => cases t <;> rfl
  | _ => exact hterms

theorem IsDiscreet.standardValue_unreserved (h : IsDiscreet s e μ) (hμ : μ.Unreserved) :
    ∀ t ∈ standardValue s e μ, t.isReserved = false := by
  have hrow : (μ.toBinding e.vars).mapping.Unreserved := by
    rw [Mapping.mapping_toBinding]
    exact hμ.restrict _
  have hvalue := h.discreet.unreserved hrow
  have hterms : ∀ t ∈ (e.value? s none (μ.toBinding e.vars)).map Value.toTerm,
      t.isReserved = false := by
    intro t ht
    obtain ⟨v, hv, rfl⟩ := Option.map_eq_some_iff.mp ht
    exact hvalue v hv
  cases e with
  | var x => exact hμ x
  | constant t =>
    rintro _ ⟨⟩
    exact h.discreet
  | _ => exact hterms

/-- A discreet expression has, read back, the value it has on the row itself. -/
theorem IsDiscreet.value_presented (h : IsDiscreet s e μ) (hμ : μ.Unreserved) :
    ((standard s).value e μ.presented).map Skolem.decode = (standard s).value e μ := by
  have hunreserved := h.standardValue_unreserved hμ
  change (standardValue s e μ.presented).map Skolem.decode = standardValue s e μ
  rw [h.standardValue_presented hμ, Option.map_map]
  cases hv : standardValue s e μ with
  | none => rfl
  | some t => exact congrArg some (Skolem.decode_encode (hunreserved t hv))

theorem IsDiscreet.holds_presented (h : IsDiscreet s e μ) (hμ : μ.Unreserved) :
    (standard s).holds e μ.presented = (standard s).holds e μ := by
  change (standardValue s e μ.presented).any _ = (standardValue s e μ).any _
  rw [h.standardValue_presented hμ, Option.any_map]
  refine congrArg (Option.any · _) (funext fun t => ?_)
  change ((Value.ofTerm (Skolem.encode t).toTerm).truth? == some true) =
    ((Value.ofTerm t).truth? == some true)
  rw [← Value.presented_ofTerm, Value.truth?_presented]

end Semantics

/-! ## Answers to `EXISTS` -/

mutual

/-- The patterns of the `EXISTS` of an expression. -/
def Expr.questions : Expr → List Pattern
  | .constant _ => []
  | .var _ => []
  | .binary _ a b => a.questions ++ b.questions
  | .unary _ a => a.questions
  | .oneOf a candidates => a.questions ++ Expr.allQuestions candidates
  | .existence q => [q]
  | .bound _ => []
  | .cond c a b => c.questions ++ a.questions ++ b.questions
  | .coalesce arguments => Expr.allQuestions arguments
  | .call _ arguments => Expr.allQuestions arguments

def Expr.allQuestions : List Expr → List Pattern
  | [] => []
  | e :: rest => e.questions ++ Expr.allQuestions rest

end

mutual

theorem Expr.answered_congr {first second : Pattern → Bool} :
    ∀ e : Expr, (∀ q ∈ e.questions, first q = second q) → e.answered first = e.answered second
  | .constant _, _ => rfl
  | .var _, _ => rfl
  | .bound _, _ => rfl
  | .existence q, h => by rw [Expr.answered, Expr.answered, h q (List.mem_singleton_self q)]
  | .binary op a b, h => by
    obtain ⟨ha, hb⟩ := List.forall_mem_append.mp h
    rw [Expr.answered, Expr.answered, a.answered_congr ha, b.answered_congr hb]
  | .unary op a, h => by
    have ha : ∀ q ∈ a.questions, first q = second q := h
    rw [Expr.answered, Expr.answered, a.answered_congr ha]
  | .oneOf a candidates, h => by
    obtain ⟨ha, hcandidates⟩ := List.forall_mem_append.mp h
    rw [Expr.answered, Expr.answered, a.answered_congr ha,
      Expr.allAnswered_congr candidates hcandidates]
  | .cond c a b, h => by
    obtain ⟨hca, hb⟩ := List.forall_mem_append.mp h
    obtain ⟨hc, ha⟩ := List.forall_mem_append.mp hca
    rw [Expr.answered, Expr.answered, c.answered_congr hc, a.answered_congr ha,
      b.answered_congr hb]
  | .coalesce arguments, h => by
    have harguments : ∀ q ∈ Expr.allQuestions arguments, first q = second q := h
    rw [Expr.answered, Expr.answered, Expr.allAnswered_congr arguments harguments]
  | .call f arguments, h => by
    have harguments : ∀ q ∈ Expr.allQuestions arguments, first q = second q := h
    rw [Expr.answered, Expr.answered, Expr.allAnswered_congr arguments harguments]

theorem Expr.allAnswered_congr {first second : Pattern → Bool} :
    ∀ es : List Expr, (∀ q ∈ Expr.allQuestions es, first q = second q) →
      Expr.allAnswered first es = Expr.allAnswered second es
  | [], _ => rfl
  | e :: rest, h => by
    obtain ⟨he, hrest⟩ := List.forall_mem_append.mp h
    rw [Expr.allAnswered, Expr.allAnswered, e.answered_congr he,
      Expr.allAnswered_congr rest hrest]

end

namespace GraphSemantics

variable {sem : GraphSemantics} {s : Surroundings} {e : Expr} {q : Pattern} {μ : Mapping}

/-- What an `EXISTS` looks for is the same when no variable of its pattern is a blank node. -/
theorem Seeks.asks_presented {rows : Option Term → Bag} (h : sem.Seeks q rows)
    (hrows : ∀ graph, (rows graph).Within (· ∈ q.mentions))
    (hμ : ∀ x ∈ q.mentions, ∀ label, μ x ≠ some (.blank label)) (graph : Option Term) :
    sem.asks graph q μ.presented = sem.asks graph q μ := by
  have hsame : ∀ x ∈ q.mentions, μ.presented x = μ x := by
    intro x hx
    unfold Mapping.presented Mapping.mapTerms
    cases hterm : μ x with
    | none => rfl
    | some t =>
      cases t with
      | blank label => exact absurd hterm (hμ x hx label)
      | _ => rfl
  rw [Bool.eq_iff_iff, h graph, h graph]
  refine exists_congr fun ν => and_congr_right fun hν => forall_congr' fun x => ?_
  cases hx : ν x with
  | none => simp
  | some u => rw [hsame x (hrows graph ν hν x (by simp [hx]))]

/-- The expression is discreet on the row once its `EXISTS` are answered, which have the same
answers for the row of a table. -/
structure IsDiscreet (sem : GraphSemantics) (s : Surroundings) (e : Expr) (μ : Mapping) :
    Prop where
  alike : ∀ q ∈ e.questions, sem.asks none q μ.presented = sem.asks none q μ
  answered : Semantics.IsDiscreet s (e.answered fun q => sem.asks none q μ) μ

namespace IsDiscreet

variable (hstandard : sem.toSemantics = .standard s) (h : sem.IsDiscreet s e μ)
variable (hμ : μ.Unreserved)
include hstandard h hμ

theorem value_presented :
    (sem.initial.value e μ.presented).map Skolem.decode = sem.initial.value e μ := by
  change (sem.toSemantics.value (e.answered fun q => sem.asks none q μ.presented) μ.presented).map
    Skolem.decode = sem.toSemantics.value (e.answered fun q => sem.asks none q μ) μ
  rw [e.answered_congr h.alike, hstandard]
  exact h.answered.value_presented hμ

theorem holds_presented : sem.initial.holds e μ.presented = sem.initial.holds e μ := by
  change sem.toSemantics.holds (e.answered fun q => sem.asks none q μ.presented) μ.presented =
    sem.toSemantics.holds (e.answered fun q => sem.asks none q μ) μ
  rw [e.answered_congr h.alike, hstandard]
  exact h.answered.holds_presented hμ

end IsDiscreet

end GraphSemantics

end SparqlBind

end
