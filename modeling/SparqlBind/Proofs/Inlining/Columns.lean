import SparqlBind.Proofs.Inlining.Invariants
import SparqlBind.Proofs.Inlining.Tables
import SparqlBind.Proofs.Scalars

/-!
# The columns of an inlined pattern

Whatever the extension functions return, the table that a pattern is inlined to covers its rows, so
that writing it as a pattern and reading that pattern back loses no binding. Of the engine it is
assumed that it binds variables in scope only and that it reads tables of values as they are.
-/

namespace SparqlBind

/-- An engine whose rows bind variables in scope only, and that gives the rows of a table back as
they are written. `Engine.standard` binds the blank nodes of triple patterns as well, and it writes
every literal in its canonical form; a table of canonical literals it does give back, see
`Table.Covers.rows_toPattern_canonical`. -/
structure Engine.Tabular (engine : Engine) : Prop where
  inScope : ∀ {store : Store} {q : Query} {xs : List Variable}
    {items : List (Except EngineError Solution)} {s : Solution},
    engine.answer store q = .ok (.solutions xs items) → .ok s ∈ items →
      ∀ x, s.mapping x ≠ none → x ∈ q.pattern.mentions
  verbatim : ∀ {store : Store} {q : Query} {xs : List Variable}
    {rows : List (List (Option GroundTerm))},
    q.form = .select → q.pattern = .values xs rows → xs.Nodup →
    (∀ cells ∈ rows, cells.length = xs.length) →
    ∃ (columns : List Variable) (solutions : List Solution),
      engine.answer store q = .ok (.solutions columns (solutions.map .ok)) ∧
      solutions.map Solution.mapping = rows.map (Mapping.ofCells xs)

/-- Only the variables in scope are left in the rows. -/
def EngineAnswer.restricted (p : Pattern) : EngineAnswer → EngineAnswer
  | solutions xs items =>
    solutions xs (items.map fun item => item.map fun s => .ofMapping p.inScope s.mapping)
  | boolean value => boolean value
  | graph triples => graph triples

/-- The engine, except that tables are read here and rows are cut down to the variables in scope. -/
def Engine.tabular (engine : Engine) : Engine where
  answer store q :=
    match q.form, q.pattern with
    | .select, .values xs rows =>
      .ok (.solutions xs (rows.map fun cells => .ok (.ofMapping xs (Mapping.ofCells xs cells))))
    | _, p => (engine.answer store q).map (.restricted p)

theorem EngineAnswer.mem_mentions_of_restricted {p : Pattern} {answer : Except EngineError EngineAnswer}
    {xs : List Variable} {items : List (Except EngineError Solution)} {s : Solution} {x : Variable}
    (h : answer.map (restricted p) = .ok (.solutions xs items)) (hs : .ok s ∈ items)
    (hx : s.mapping x ≠ none) : x ∈ p.mentions := by
  rcases answer with e | (⟨ys, rows⟩ | value | triples)
  · cases h
  · obtain rfl := (EngineAnswer.solutions.inj (Except.ok.inj h)).2
    obtain ⟨item, _, hitem⟩ := List.mem_map.mp hs
    cases item with
    | error e => cases hitem
    | ok row =>
      obtain rfl := Except.ok.inj hitem
      exact Pattern.mem_inScope.mp (Solution.mem_of_mapping_ofMapping hx)
  · cases h
  · cases h

/-- What is not a table is answered by the engine itself. -/
theorem Engine.answer_tabular {engine : Engine} {store : Store} {q : Query}
    (h : ¬ (q.form = .select ∧ ∃ xs rows, q.pattern = .values xs rows)) :
    engine.tabular.answer store q = (engine.answer store q).map (.restricted q.pattern) := by
  unfold tabular
  dsimp only
  split
  · rename_i hform hpattern
    exact absurd ⟨hform, _, _, hpattern⟩ h
  · rfl

/-- Rows that are in scope already are left as they are. -/
theorem EngineAnswer.restricted_solutions {p : Pattern} {rows : List Mapping}
    (h : ∀ μ ∈ rows, μ.Within (· ∈ p.mentions)) :
    (solutions p.inScope (rows.map fun μ => .ok (.ofMapping p.inScope μ))).restricted p =
      solutions p.inScope (rows.map fun μ => .ok (.ofMapping p.inScope μ)) := by
  refine congrArg _ (List.map_map.trans (List.map_congr_left fun μ hμ => ?_))
  have hwithin : μ.Within (· ∈ p.inScope) := (h μ hμ).mono fun _ => Pattern.mem_inScope.mpr
  simp only [Function.comp_apply, Except.map, Solution.mapping_ofMapping p.nodup_inScope hwithin]

theorem Engine.tabular_tabular (engine : Engine) : engine.tabular.Tabular where
  inScope {store q xs items s} h hs x hx := by
    rcases q with ⟨form, p, dataset, base⟩
    by_cases hvalues : form = .select ∧ ∃ ys rows, p = .values ys rows
    · obtain ⟨rfl, ys, rows, rfl⟩ := hvalues
      obtain ⟨rfl, rfl⟩ := EngineAnswer.solutions.inj (Except.ok.inj h)
      obtain ⟨cells, _, hcells⟩ := List.mem_map.mp hs
      obtain rfl := Except.ok.inj hcells
      exact Solution.mem_of_mapping_ofMapping hx
    · rw [answer_tabular hvalues] at h
      exact EngineAnswer.mem_mentions_of_restricted h hs hx
  verbatim {store q xs rows} hform hp hxs _ := by
    refine ⟨xs, rows.map fun cells => .ofMapping xs (Mapping.ofCells xs cells), ?_, ?_⟩
    · unfold tabular
      dsimp only
      rw [hform, hp, List.map_map]
      rfl
    · rw [List.map_map]
      exact List.map_congr_left fun cells _ =>
        Solution.mapping_ofMapping hxs (Mapping.within_ofCells xs cells)

namespace EvaluationContext

variable {context : EvaluationContext}

theorem mem_mentions_of_yields_rows (hengine : context.engine.Tabular) {p : Pattern}
    {rows : List Binding} (h : Evaluation.Yields (context.rows p) rows) :
    ∀ b ∈ rows, ∀ x, b.contains x = true → x ∈ p.mentions := by
  intro b hb x hx
  obtain ⟨xs, items, hanswer, hitems⟩ := answer_of_yields_rows h
  obtain ⟨s, hs, rfl⟩ := hitems b hb
  refine hengine.inScope hanswer hs x ?_
  rw [Binding.contains_iff_mem_vars] at hx
  exact Binding.get?_ne_none_iff.mpr ((Binding.vars_mapTerms _ _).mp hx)

/-- The table of a pattern that was evaluated, with the variables in scope for columns. -/
theorem covers_of_yields_rows (hengine : context.engine.Tabular) {p : Pattern}
    {rows : List Binding} (h : Evaluation.Yields (context.rows p) rows) :
    Table.Covers ⟨p.inScope, rows⟩ where
  nodup := p.nodup_inScope
  bound b hb x hx := Pattern.mem_inScope.mpr (mem_mentions_of_yields_rows hengine h b hb x hx)

end EvaluationContext

namespace Join

theorem contains_merge {l r : Binding} {x : Variable} (h : (l.merge r).contains x = true) :
    l.contains x = true ∨ r.contains x = true := by
  simpa only [Binding.contains_iff_mem_vars, Binding.vars_merge, mem_unionVariables] using h

theorem mem_matching {l b : Binding} {right : List Binding} (h : b ∈ matching l right) :
    ∃ r ∈ right, b = l.merge r := by
  obtain ⟨r, hr, rfl⟩ := List.mem_map.mp h
  exact ⟨r, (List.mem_filter.mp hr).1, rfl⟩

theorem mem_join {b : Binding} {left right : List Binding} (h : b ∈ join left right) :
    ∃ l ∈ left, ∃ r ∈ right, b = l.merge r := by
  obtain ⟨l, hl, hb⟩ := List.mem_flatMap.mp h
  exact ⟨l, hl, mem_matching hb⟩

/-- A kept row is one of the candidates or stands for itself. -/
theorem mem_keepMatched {b : Binding} {candidates : List (Binding × List Binding)}
    {flags : List Bool} (h : b ∈ keepMatched candidates flags) :
    ∃ c ∈ candidates, b = c.1 ∨ b ∈ c.2 := by
  induction candidates generalizing flags with
  | nil => simp [keepMatched] at h
  | cons c rest ih =>
    obtain ⟨l, rows⟩ := c
    simp only [keepMatched, List.mem_append] at h
    rcases h with h | h
    · refine ⟨(l, rows), List.mem_cons_self, ?_⟩
      split at h
      · exact .inl (List.mem_singleton.mp h)
      · obtain ⟨⟨b', flag⟩, hz, rfl⟩ := List.mem_map.mp h
        exact .inr (List.of_mem_zip (List.mem_filter.mp hz).1).1
    · obtain ⟨c, hc, hb⟩ := ih h
      exact ⟨c, List.mem_cons_of_mem _ hc, hb⟩

/-- The flags of the candidate rows of an optional part. -/
def flags (context : EvaluationContext) (rows : List Binding) : Option Expr → Evaluation (List Bool)
  | some e => satisfied context e rows
  | none => pure (rows.map fun _ => true)

theorem leftJoin_eq (context : EvaluationContext) (left right : List Binding)
    (condition : Option Expr) :
    leftJoin context left right condition = (do
      let candidates := left.map fun l => (l, matching l right)
      pure (keepMatched candidates (← flags context (candidates.flatMap (·.2)) condition))) := by
  cases condition with
  | none => rfl
  | some e => rfl

theorem mem_leftJoin {context : EvaluationContext} {left right rows : List Binding}
    {condition : Option Expr}
    (h : Evaluation.Yields (leftJoin context left right condition) rows) :
    ∀ b ∈ rows, b ∈ left ∨ ∃ l ∈ left, ∃ r ∈ right, b = l.merge r := by
  intro b hb
  rw [leftJoin_eq] at h
  obtain ⟨_, _, hrows⟩ := Evaluation.yields_bind_iff.mp h
  rw [← Evaluation.yields_pure_iff.mp hrows] at hb
  obtain ⟨c, hc, hb⟩ := mem_keepMatched hb
  obtain ⟨l, hl, rfl⟩ := List.mem_map.mp hc
  rcases hb with rfl | hb
  · exact .inl hl
  · exact .inr ⟨l, hl, mem_matching hb⟩

end Join

namespace Table

variable {s t : Table}

/-- Rows put together from rows of two tables fit the columns of both. -/
theorem Covers.both (hs : s.Covers) (ht : t.Covers) {rows : List Binding}
    (h : ∀ b ∈ rows, b ∈ s.rows ∨ b ∈ t.rows ∨ ∃ l ∈ s.rows, ∃ r ∈ t.rows, b = l.merge r) :
    Covers ⟨unionVariables s.vars t.vars, rows⟩ where
  nodup := nodup_unionVariables _ hs.nodup
  bound b hb x hx := by
    rw [mem_unionVariables]
    rcases h b hb with hl | hr | ⟨l, hl, r, hr, rfl⟩
    · exact .inl (hs.bound b hl x hx)
    · exact .inr (ht.bound b hr x hx)
    · exact (Join.contains_merge hx).imp (hs.bound l hl x) (ht.bound r hr x)

theorem Covers.join (hs : s.Covers) (ht : t.Covers) :
    Covers ⟨unionVariables s.vars t.vars, Join.join s.rows t.rows⟩ :=
  hs.both ht fun _ hb => .inr (.inr (Join.mem_join hb))

theorem Covers.leftJoin {context : EvaluationContext} {e : Option Expr} {rows : List Binding}
    (hs : s.Covers) (ht : t.Covers)
    (h : Evaluation.Yields (Join.leftJoin context s.rows t.rows e) rows) :
    Covers ⟨unionVariables s.vars t.vars, rows⟩ :=
  hs.both ht fun b hb => (Join.mem_leftJoin h b hb).imp id .inr

theorem Covers.union (hs : s.Covers) (ht : t.Covers) :
    Covers ⟨unionVariables s.vars t.vars, s.rows ++ t.rows⟩ :=
  hs.both ht fun _ hb => (List.mem_append.mp hb).imp id .inl

theorem Covers.minus (hs : s.Covers) (rows : List Binding) :
    Covers ⟨s.vars, Join.minus s.rows rows⟩ where
  nodup := hs.nodup
  bound b hb := hs.bound b (List.mem_filter.mp hb).1

/-- The columns of a call are gathered from the rows, so nothing is asked of the function. -/
theorem Covers.call (ht : t.Covers) (x : Variable) (rows : List Binding) :
    Covers ⟨unionVariables (addVariable t.vars x) (rows.flatMap Binding.vars), rows⟩ := by
  refine ⟨nodup_unionVariables _ (nodup_addVariable ht.nodup), ?_⟩
  intro b hb y hy
  rw [mem_unionVariables, List.mem_flatMap]
  exact .inr ⟨b, hb, Binding.contains_iff_mem_vars.mp hy⟩

/-- What the engine has for the rows of a table is read with blank nodes again. -/
theorem rows_toPattern_of_answer {context : EvaluationContext} {columns : List Variable}
    {solutions : List Solution} {written : Binding → Mapping}
    (hanswer : context.engine.answer context.store (context.query .select t.toPattern) =
      .ok (.solutions columns (solutions.map .ok)))
    (hread : solutions.map Solution.mapping = t.rows.map fun b => (written b).presented)
    (hfree : ∀ b ∈ t.rows, (written b).Unreserved) :
    ∃ rows, context.rows t.toPattern = (do context.checkDeadline; pure rows) ∧
      rows.map Binding.mapping = t.rows.map written := by
  refine ⟨_, EvaluationContext.rows_of_answer hanswer, ?_⟩
  calc (solutions.map EvaluationContext.bindingOfSolution).map Binding.mapping
      = (solutions.map Solution.mapping).map Mapping.decoded :=
        EvaluationContext.map_mapping_bindingOfSolution solutions
    _ = (t.rows.map fun b => (written b).presented).map Mapping.decoded := by rw [hread]
    _ = t.rows.map written := by
        rw [List.map_map]
        exact List.map_congr_left fun b hb => (hfree b hb).decoded_presented

/-- Written as a pattern and read back, a table keeps its rows and their order. -/
theorem Covers.rows_toPattern {context : EvaluationContext} (hengine : context.engine.Tabular)
    (h : t.Covers) (hfree : ∀ b ∈ t.rows, b.mapping.Unreserved) :
    ∃ rows, context.rows t.toPattern = (do context.checkDeadline; pure rows) ∧
      rows.map Binding.mapping = t.rows.map Binding.mapping := by
  have hlength : ∀ cells ∈ t.rows.map (row t.vars), cells.length = t.vars.length := by
    intro cells hcells
    obtain ⟨b, _, rfl⟩ := List.mem_map.mp hcells
    exact List.length_map _
  obtain ⟨columns, solutions, hanswer, hread⟩ := hengine.verbatim
    (q := context.query .select t.toPattern) rfl rfl h.nodup hlength
  exact rows_toPattern_of_answer hanswer (hread.trans h.map_ofCells) hfree

end Table

namespace ExtensionEvaluator

variable {ev : ExtensionEvaluator} {context : EvaluationContext}
variable (hengine : context.engine.Tabular)
include hengine

theorem invariant_covers : ev.Invariant context Table.Covers where
  read := EvaluationContext.covers_of_yields_rows hengine
  join := Table.Covers.join
  leftJoin := Table.Covers.leftJoin
  minus hs _ := hs.minus _
  union := Table.Covers.union
  call ht _ := ht.call _ _

/-- Reading the table back fails only where a query with a deadline may, and then before any row. -/
theorem inlinePattern_keeps_bindings {graph : Option NamePattern} {p : Pattern} {t : Table}
    (h : Evaluation.Yields (ev.inlinePattern context graph p) (.solutions t)) :
    t.vars.Nodup ∧ (∀ b ∈ t.rows, ∀ x, b.contains x = true → x ∈ t.vars) ∧
    ((∀ b ∈ t.rows, b.mapping.Unreserved) →
      ∃ rows, context.rows t.toPattern = (do context.checkDeadline; pure rows) ∧
        rows.map Binding.mapping = t.rows.map Binding.mapping) := by
  have hcovers : t.Covers := (invariant_covers hengine).inlined h
  exact ⟨hcovers.nodup, hcovers.bound, hcovers.rows_toPattern hengine⟩

end ExtensionEvaluator

namespace Sample

/-- Adds a variable of its own, and gives the row as it was once more. -/
def forked : ExtensionFunction :=
  ⟨fun state b => pure ((state.push (b.set subject (.blank "n"))).push b)⟩

def tabular : EvaluationContext := { stored [] with engine := (Engine.standard default "").tabular }

def forkedNames : Table :=
  ⟨[object, target, subject],
    [.ofList [(object, .literal (.plain "v")), (subject, .blank "n")],
      .ofList [(object, .literal (.plain "v"))]]⟩

end Sample

open Sample in
theorem ExtensionEvaluator.inlinePattern_keeps_bindings_forked :
    (ExtensionEvaluator.mk ⟨[(concat.text, forked)]⟩).inlinePattern tabular none
      (.extend (cell object (text "v")) target (concatText "a")) = pure (.solutions forkedNames) ∧
    forkedNames.vars.Nodup ∧
    ∃ rows, tabular.rows forkedNames.toPattern = (do tabular.checkDeadline; pure rows) ∧
      rows.map Binding.mapping = forkedNames.rows.map Binding.mapping := by
  have hinlined : (ExtensionEvaluator.mk ⟨[(concat.text, forked)]⟩).inlinePattern tabular none
      (.extend (cell object (text "v")) target (concatText "a")) =
        pure (.solutions forkedNames) := rfl
  have h := ExtensionEvaluator.inlinePattern_keeps_bindings (Engine.tabular_tabular _)
    (Evaluation.yields_of_eq_pure hinlined)
  have hfree : ∀ b ∈ forkedNames.rows, ∀ e ∈ b.entries, e.2.isReserved = false := by decide
  exact ⟨hinlined, h.1, h.2.2 fun b hb => Binding.unreserved_mapping (hfree b hb)⟩

end SparqlBind
