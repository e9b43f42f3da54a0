import SparqlBind.Proofs.Inlining.Questions
import SparqlBind.Proofs.Inlining.ScalarRows
import SparqlBind.Proofs.Renaming.Query
import SparqlBind.Proofs.Semantics.Standard

/-!
# Optional parts row by row

The candidates of all rows are given to the engine in one table, and the numbers that come back are
shared out again. What remains of this is a search for each row alone: it is continued by the rows
that are compatible with it and on which the condition is true, or it stands for itself.
-/

noncomputable section

open scoped Classical

namespace SparqlBind

/-- The engine keeps the rows of a table on which a condition is true, in any order, and whether it
is true on a row depends on the variables that the condition mentions. Columns are given back as they
are if their terms are written as the engine writes them. -/
structure EvaluationContext.Filters (context : EvaluationContext) (e : Expr)
    (holds : Mapping → Bool) : Prop where
  answers (t : Table) (xs : List Variable) : t.Covers →
    (∀ b ∈ t.rows, ∀ x ∈ xs, ∀ v ∈ b.get? x, v.canonical = v) →
    context.Answers (.project (.filter e t.toPattern) xs)
      (((Bag.ofRows t.rows).presented.select holds).project xs)
  congr (μ ν : Mapping) : (∀ x ∈ e.names, μ x = ν x) → holds μ = holds ν

namespace Join

variable {context : EvaluationContext} {left right : List Binding} {e : Expr}
variable {holds : Mapping → Bool}

/-- The rows that continue a row, in their order, or the row alone if there are none. -/
def optional (keep : Binding → Bool) (right : List Binding) (l : Binding) : List Binding :=
  let found := (right.filter fun r => l.compatible r && keep (l.merge r)).map l.merge
  if found.isEmpty then [l] else found

theorem filter_matching (keep : Binding → Bool) (right : List Binding) (l : Binding) :
    (matching l right).filter keep =
      (right.filter fun r => l.compatible r && keep (l.merge r)).map l.merge := by
  unfold matching
  rw [List.filter_map, List.filter_filter]
  exact congrArg (List.map l.merge) (List.filter_congr fun r _ => Bool.and_comm _ _)

theorem keepMatched_eq_optional (keep : Binding → Bool) (left right : List Binding) :
    keepMatched (left.map fun l => (l, matching l right))
        (((left.map fun l => (l, matching l right)).flatMap (·.2)).map keep) =
      left.flatMap (optional keep right) := by
  rw [keepMatched_flags, List.flatMap_map]
  simp only [filter_matching]
  rfl

theorem canonical_numbered {rows : List Binding} : ∀ b ∈ numbered 0 rows, ∀ x ∈ [rowVariable],
    ∀ v ∈ b.get? x, v.canonical = v := by
  intro b hb x hx v hv
  obtain ⟨i, hi, rfl⟩ := mem_numbered.mp hb
  obtain rfl := List.mem_singleton.mp hx
  rw [Binding.get?_set, if_pos rfl] at hv
  obtain rfl := Option.some.inj hv
  rfl

theorem satisfied_of_filters (h : context.Filters e holds) (hrow : rowVariable ∉ e.names)
    (rows : List Binding) : satisfied context e rows = (do
      context.checkDeadline
      pure (rows.map fun b => holds b.mapping.presented)) := by
  have hignores : ∀ μ t, holds (μ.set rowVariable t) = holds μ := by
    intro μ t
    apply h.congr
    intro x hx
    have hne : x ≠ rowVariable := fun heq => hrow (heq ▸ hx)
    rw [Mapping.set_apply, if_neg hne]
  exact satisfied_of_answers hignores
    (h.answers ⟨columns rows, numbered 0 rows⟩ [rowVariable] (covers_numbered rows) canonical_numbered)

theorem checkDeadline_congr {first second : EvaluationContext}
    (h : first.deadline = second.deadline) : first.checkDeadline = second.checkDeadline := by
  unfold EvaluationContext.checkDeadline
  rw [h]

/-- An optional part continues every row for itself, whatever order the engine answers in. -/
theorem leftJoin_eq_optional (h : context.Filters e holds) (hrow : rowVariable ∉ e.names)
    (left right : List Binding) :
    leftJoin context left right none = pure (left.flatMap (optional (fun _ => true) right)) ∧
    leftJoin context left right (some e) = (do
      context.checkDeadline
      pure (left.flatMap (optional (fun b => holds b.mapping.presented) right))) ∧
    ∀ other : EvaluationContext, other.deadline = context.deadline → other.Filters e holds →
      leftJoin other left right (some e) = leftJoin context left right (some e) := by
  have hcondition : ∀ c : EvaluationContext, c.Filters e holds →
      leftJoin c left right (some e) = (do
        c.checkDeadline
        pure (left.flatMap (optional (fun b => holds b.mapping.presented) right))) := by
    intro c hc
    change (do let flags ← satisfied c e _; pure (keepMatched _ flags)) = _
    rw [satisfied_of_filters hc hrow, bind_assoc]
    simp only [pure_bind, keepMatched_eq_optional]
  refine ⟨?_, hcondition context h, ?_⟩
  · rw [← keepMatched_eq_optional]
    rfl
  · intro other hdeadline hother
    rw [hcondition other hother, hcondition context h, checkDeadline_congr hdeadline]

end Join

/-! ## A sample -/

/-- An engine that follows a semantics filters the rows of tables by it. -/
theorem EvaluationContext.filters_of_evaluates {context : EvaluationContext} {sem : Semantics}
    {e : Expr} (h : context.Evaluates sem e)
    (hcongr : ∀ μ ν : Mapping, (∀ x ∈ e.names, μ x = ν x) → sem.holds e μ = sem.holds e ν) :
    context.Filters e (sem.holds e) where
  answers t xs ht _ := by
    rw [← ht.rows_toPattern_eq sem none]
    exact h _ (.project xs (.filter t))
  congr := hcongr

namespace Sample

/-- `?o = "v"`. -/
def isV : Expr := .binary .equal (.var object) (.literal (.plain "v"))

def holdsV : Mapping → Bool := (semantics []).holds isV

theorem filters_isV : (answering []).Filters isV holdsV := by
  apply EvaluationContext.filters_of_evaluates
  · exact (Semantics.follows_engine rfl).evaluates rfl
  · intro μ ν h
    exact congrArg (Option.any (semantics []).effective)
      ((semantics []).value_congr isV μ ν rfl h)

/-- A row that binds none of the variables of the store. -/
def lone : Binding := ⟨[(target, .literal (.plain "x"))]⟩

end Sample

open Sample in
/-- A row that stands twice is continued twice, by both of two equal rows and not by the row between
them; a row with another name stands for itself. -/
theorem Join.leftJoin_isV :
    leftJoin (answering []) [lone, bound "w", lone] [bound "v", bound "w", bound "v"] (some isV) =
      (do
        (answering []).checkDeadline
        pure [lone.merge (bound "v"), lone.merge (bound "v"), bound "w",
          lone.merge (bound "v"), lone.merge (bound "v")]) := by
  have hrow : rowVariable ∉ isV.names := by decide
  have hrows := (Join.leftJoin_eq_optional filters_isV hrow [lone, bound "w", lone]
    [bound "v", bound "w", bound "v"]).2.1
  rw [hrows]
  rfl

namespace Sample

/-- `isIRI(?s)`. -/
def isIri : Expr := .call (.builtIn .isIri) [.var subject]

end Sample

open Sample in
/-- A row with a blank node is kept by a condition that is false on it: the condition is asked of the
IRI in its place. A deadline that has passed gives a timeout although there is a row to continue with. -/
theorem Join.leftJoin_differs :
    (isIri.value? ⟨.ofStore ⟨[]⟩ none, default⟩ none (lone.merge blankName) =
        some (.boolean false) ∧
      (leftJoin (stored []) [lone] [blankName] (some isIri)).run.run (everySecond 3) =
        .ok [lone.merge blankName]) ∧
    isV.value? ⟨.ofStore ⟨[]⟩ none, default⟩ none (lone.merge (bound "v")) =
        some (.boolean true) ∧
      (leftJoin ((stored []).withDeadline (some threeSeconds)) [lone] [bound "v"]
        (some isV)).run.run (everySecond 3) = .error (.timeout ⟨3, 0⟩) :=
  ⟨⟨rfl, rfl⟩, rfl, rfl⟩

end SparqlBind

end
