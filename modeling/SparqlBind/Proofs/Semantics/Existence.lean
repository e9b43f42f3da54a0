import SparqlBind.Proofs.Inlining.Columns
import SparqlBind.Proofs.Semantics.Standard

/-!
# `EXISTS` and the active graph

What an `EXISTS` says of a row depends on the graph in which it looks for its pattern. An expression
has its value once its `EXISTS` are answered, so a choice of a graph for each row makes a semantics.
Of an engine it is assumed that it evaluates an expression on a table with the default graph active,
which is the graph a query starts in.
-/

noncomputable section

open scoped Classical

namespace SparqlBind

mutual

/-- The expression with the answers in the place of its `EXISTS`. -/
def Expr.answered (answer : Pattern → Bool) : Expr → Expr
  | .constant t => .constant t
  | .var x => .var x
  | .binary op a b => .binary op (a.answered answer) (b.answered answer)
  | .unary op a => .unary op (a.answered answer)
  | .oneOf a candidates => .oneOf (a.answered answer) (Expr.allAnswered answer candidates)
  | .existence q => .ofBool (answer q)
  | .bound x => .bound x
  | .cond c a b => .cond (c.answered answer) (a.answered answer) (b.answered answer)
  | .coalesce arguments => .coalesce (Expr.allAnswered answer arguments)
  | .call f arguments => .call f (Expr.allAnswered answer arguments)

def Expr.allAnswered (answer : Pattern → Bool) : List Expr → List Expr
  | [] => []
  | e :: rest => e.answered answer :: Expr.allAnswered answer rest

end

mutual

theorem Expr.answered_of_isPlain {known : Function → Bool} (answer : Pattern → Bool) :
    ∀ e : Expr, e.isPlain known = true → e.answered answer = e
  | .constant _, _ => rfl
  | .var _, _ => rfl
  | .bound _, _ => rfl
  | .binary op a b, h => by
    obtain ⟨ha, hb⟩ := Bool.and_eq_true_iff.mp h
    rw [Expr.answered, a.answered_of_isPlain answer ha, b.answered_of_isPlain answer hb]
  | .unary op a, h => by
    have ha : a.isPlain known = true := h
    rw [Expr.answered, a.answered_of_isPlain answer ha]
  | .oneOf a candidates, h => by
    obtain ⟨ha, hcandidates⟩ := Bool.and_eq_true_iff.mp h
    rw [Expr.answered, a.answered_of_isPlain answer ha,
      Expr.allAnswered_of_arePlain answer candidates hcandidates]
  | .cond c a b, h => by
    obtain ⟨hca, hb⟩ := Bool.and_eq_true_iff.mp h
    obtain ⟨hc, ha⟩ := Bool.and_eq_true_iff.mp hca
    rw [Expr.answered, c.answered_of_isPlain answer hc, a.answered_of_isPlain answer ha,
      b.answered_of_isPlain answer hb]
  | .coalesce arguments, h => by
    have harguments : Expr.arePlain known arguments = true := h
    rw [Expr.answered, Expr.allAnswered_of_arePlain answer arguments harguments]
  | .call f arguments, h => by
    obtain ⟨_, harguments⟩ := Bool.and_eq_true_iff.mp h
    rw [Expr.answered, Expr.allAnswered_of_arePlain answer arguments harguments]

theorem Expr.allAnswered_of_arePlain {known : Function → Bool} (answer : Pattern → Bool) :
    ∀ es : List Expr, Expr.arePlain known es = true → Expr.allAnswered answer es = es
  | [], _ => rfl
  | e :: rest, h => by
    obtain ⟨he, hrest⟩ := Bool.and_eq_true_iff.mp h
    rw [Expr.allAnswered, e.answered_of_isPlain answer he,
      Expr.allAnswered_of_arePlain answer rest hrest]

end

/-- All functions are known; there may be an `EXISTS`. -/
def Expr.isKnown (known : Function → Bool) (e : Expr) : Bool :=
  (e.answered fun _ => true).isPlain known

/-- A semantics in which it depends on the active graph whether an `EXISTS` is true on a row. -/
structure GraphSemantics extends Semantics where
  asks : Option Term → Pattern → Mapping → Bool
  effective_ofBool : ∀ b : Bool, effective (.literal (.ofBool b)) = b

namespace GraphSemantics

variable (sem : GraphSemantics)

/-- The semantics in which the graph that is given for a row is active on it. -/
def active (graph : Mapping → Option Term) : Semantics :=
  { sem.toSemantics with
    value := fun e μ => sem.value (e.answered fun q => sem.asks (graph μ) q μ) μ
    value_var := sem.value_var
    value_constant := sem.value_constant
    value_congr := by
      intro e μ ν he h
      -- a plain expression has no `EXISTS` to answer, so the graph does not matter
      rw [Expr.answered_of_isPlain _ e he, Expr.answered_of_isPlain _ e he]
      exact sem.value_congr e μ ν he h
    value_unbound := sem.value_unbound }

/-- A query starts in the default graph. -/
def initial : Semantics := sem.active fun _ => none

theorem holds_existence (graph : Mapping → Option Term) (q : Pattern) (μ : Mapping) :
    (sem.active graph).holds (.existence q) μ = sem.asks (graph μ) q μ := by
  have hvalue : (sem.active graph).value (.existence q) μ =
      some (.literal (.ofBool (sem.asks (graph μ) q μ))) := sem.value_constant _ μ
  rw [Semantics.holds, hvalue]
  exact sem.effective_ofBool _

/-- `EXISTS` asks whether the pattern, with the given rows in each graph, has a row in the active
one that is compatible. -/
def Seeks (q : Pattern) (rows : Option Term → Bag) : Prop :=
  ∀ graph μ, sem.asks graph q μ = true ↔ ∃ ν ∈ rows graph, μ.Compatible ν

variable {sem}

theorem Seeks.holds_iff {q : Pattern} {rows : Option Term → Bag} (h : sem.Seeks q rows)
    (graph : Mapping → Option Term) (μ : Mapping) :
    (sem.active graph).holds (.existence q) μ = true ↔ ∃ ν ∈ rows (graph μ), μ.Compatible ν := by
  rw [holds_existence]
  exact h (graph μ) μ

end GraphSemantics

/-- The engine evaluates expressions on tables with the default graph active. The terms of the table
come back as they are written, which `Engine.standard` sees to for canonical literals only. -/
def EvaluationContext.StartsIn (context : EvaluationContext) (sem : GraphSemantics) : Prop :=
  ∀ e : Expr, e.isKnown sem.known = true → context.Evaluates sem.initial e

namespace Mapping

/-- The graph that a row of a part comes from, when the part stands in the named graph. -/
def graphIn (μ : Mapping) : Option NamePattern → Option Term
  | none => none
  | some (.iri i) => some (.iri i)
  | some (.var g) => μ g

/-- No blank nodes and no IRIs that stand for blank nodes. -/
def Ground (μ : Mapping) : Prop :=
  ∀ x t, μ x = some t → (Skolem.encode t).toTerm = t ∧ t.isReserved = false

variable {μ ν : Mapping}

theorem Ground.unreserved (h : μ.Ground) : μ.Unreserved := fun x t ht => (h x t ht).2

theorem Ground.presented_eq (h : μ.Ground) : μ.presented = μ := by
  funext x
  unfold presented mapTerms
  cases hx : μ x with
  | none => rfl
  | some t => exact congrArg some (h x t hx).1

theorem Ground.merge (hμ : μ.Ground) (hν : ν.Ground) : (μ.merge ν).Ground := by
  intro x t ht
  rcases Option.or_eq_some_iff.mp ht with ht | ⟨_, ht⟩
  · exact hμ x t ht
  · exact hν x t ht

end Mapping

/-! ## Engines that start in the default graph -/

namespace Pattern

/-- Operators with an expression on a table. -/
def isOverTable : Pattern → Bool
  | values .. => true
  | filter _ p => p.isOverTable
  | extend p _ _ => p.isOverTable
  | project p _ => p.isOverTable
  | _ => false

theorem Asks.isOverTable {e : Expr} {p : Pattern} (h : p.Asks e) : p.isOverTable = true := by
  induction h with
  | filter t => rfl
  | extend t x => rfl
  | project xs _ ih => exact ih

end Pattern

/-- The engine, except that operators on a table are answered as the semantics has it. -/
def Semantics.onTables (sem : Semantics) (engine : Engine) : Engine where
  answer store q :=
    match q.form, q.pattern.isOverTable with
    | .select, true =>
      .ok (.solutions q.pattern.inScope ((sem.rows none q.pattern).toList.map fun μ =>
        .ok (.ofMapping q.pattern.inScope μ)))
    | _, _ => engine.answer store q

theorem GraphSemantics.startsIn_onTables {sem : GraphSemantics} {engine : Engine}
    {context : EvaluationContext} (h : context.engine = (sem.initial.onTables engine).tabular) :
    context.StartsIn sem := by
  intro e _ p hp
  refine ⟨p.inScope, (sem.initial.rows none p).toList.map (Solution.ofMapping p.inScope), ?_,
    sem.initial.map_mapping_ofMapping none p⟩
  have hanswer : (sem.initial.onTables engine).answer context.store (context.query .select p) =
      .ok (.solutions p.inScope ((sem.initial.rows none p).toList.map fun μ =>
        .ok (.ofMapping p.inScope μ))) := by
    unfold Semantics.onTables
    dsimp only [EvaluationContext.query]
    rw [hp.isOverTable]
  have hvalues : ¬ ∃ xs rows, p = .values xs rows := by
    rintro ⟨xs, rows, rfl⟩
    cases hp
  have hwithin : ∀ μ ∈ (sem.initial.rows none p).toList, μ.Within (· ∈ p.mentions) :=
    fun μ hμ => sem.initial.rows_within p none μ (Multiset.mem_toList.mp hμ)
  rw [h, Engine.answer_tabular fun hq => hvalues hq.2, hanswer, List.map_map]
  exact congrArg Except.ok (EngineAnswer.restricted_solutions hwithin)

namespace Sample

/-- The standard semantics of a store, in which `EXISTS` looks for compatible rows. -/
def graphSemantics (quads : List Quad) : GraphSemantics :=
  { semantics quads with
    asks := fun graph q μ => decide (∃ ν ∈ (semantics quads).rows graph q, μ.Compatible ν)
    effective_ofBool := fun b => by cases b <;> rfl }

theorem seeks_graphSemantics (quads : List Quad) (q : Pattern) :
    (graphSemantics quads).Seeks q fun graph => (semantics quads).rows graph q :=
  fun _ _ => decide_eq_true_iff

end Sample

end SparqlBind

end
