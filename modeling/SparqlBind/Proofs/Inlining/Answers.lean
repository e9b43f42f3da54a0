import SparqlBind.Proofs.Inlining.Functions
import SparqlBind.Proofs.Inlining.Meaning
import SparqlBind.Proofs.Semantics.Matching

/-!
# Answers on a table

A query with a call becomes a table, and the standard engine is given that table whatever the form
of the query is. Its rows hold IRIs for blank nodes. A selection gives them back decoded, so what the
other forms make of them can be compared with the solutions of the same query as a selection.
-/

namespace SparqlBind

namespace Skolem

theorem eq_of_label? {i : Iri} {label : String} (h : label? i = some label) :
    i = ⟨namespaceText ++ label⟩ := by
  unfold label? at h
  dsimp only at h
  split at h
  · rename_i hstart
    obtain ⟨rest, hrest⟩ := List.isPrefixOf_iff_prefix.mp hstart
    obtain rfl := Option.some.inj h
    rw [← hrest, List.drop_left]
    have htext : i.text = namespaceText ++ String.ofList rest := by
      rw [← String.toList_inj, String.toList_append, String.toList_ofList, hrest]
    rw [← htext]
  · cases h

/-- A term that is not a blank node comes back when it is read and written again. -/
theorem encode_decode {t : Term} (h : ∀ label, t ≠ .blank label) :
    (encode (decode t)).toTerm = t := by
  cases t with
  | iri i =>
    cases hi : label? i with
    | none => simp [decode, hi, encode, GroundTerm.toTerm]
    | some label =>
      rw [show decode (.iri i) = .blank label by simp [decode, hi], eq_of_label? hi]
      rfl
  | blank label => exact absurd rfl (h label)
  | literal l => rfl

theorem canonical_encode_ne_blank (t : Term) (label : String) :
    (encode t).toTerm.canonical ≠ .blank label := by
  cases t with
  | iri i => simp [encode, GroundTerm.toTerm]
  | blank l => simp [encode, GroundTerm.toTerm]
  | literal l =>
    obtain ⟨m, hm⟩ := Term.exists_canonical_literal l
    simp [encode, GroundTerm.toTerm, hm]

/-- The IRIs that stand for blank nodes are canonical. -/
theorem encode_canonical (t : Term) : (encode t.canonical).toTerm = (encode t).toTerm.canonical := by
  cases t with
  | iri i | blank label => rfl
  | literal l =>
    obtain ⟨m, hm⟩ := Term.exists_canonical_literal l
    simp [encode, GroundTerm.toTerm, hm]

end Skolem

/-! ## The rows of a table -/

theorem Binding.mapping_decodeSolution {columns : List Variable} (hcolumns : columns.Nodup)
    {row : Binding} (h : ∀ x, row.get? x ≠ none → x ∈ columns) :
    (Skolem.decodeSolution (row.toSolution columns)).mapping = row.mapping.decoded := by
  have hmapping : (row.toSolution columns).mapping = row.mapping :=
    Solution.mapping_ofMapping hcolumns h
  rw [Solution.mapping_decodeSolution, hmapping]

/-- A row that an engine has for a query: it binds variables with a column, and to no blank node. -/
structure Binding.Shown (columns : List Variable) (row : Binding) : Prop where
  within : ∀ x, row.get? x ≠ none → x ∈ columns
  ground : ∀ x label, row.get? x ≠ some (.blank label)

namespace Table

/-- A row of a table as the engine reads it. -/
def shownRow (xs : List Variable) (b : Binding) : Binding :=
  Binding.empty.merge (.ofList ((xs.zip (row xs b)).filterMap fun c =>
    c.2.map fun t => (c.1, t.toTerm.canonical)))

theorem get?_shownRow (xs : List Variable) (b : Binding) (x : Variable) :
    (shownRow xs b).get? x =
      if x ∈ xs then (b.get? x).map fun t => (Skolem.encode t).toTerm.canonical else none := by
  have hentries : ((xs.zip (row xs b)).filterMap fun c =>
      c.2.map fun t : GroundTerm => (c.1, t.toTerm.canonical)) =
        xs.filterMap fun y =>
          ((b.get? y).map fun t => (Skolem.encode t).toTerm.canonical).map (y, ·) := by
    rw [row, ← List.map_prod_left_eq_zip, List.filterMap_map]
    simp only [Function.comp_def, Option.map_map]
  rw [shownRow, Binding.get?_merge (Binding.nodup_ofList _), Binding.get?_empty, Option.or_none,
    Binding.get?_ofList, hentries, ← List.filterMap_reverse, Binding.lookup_filterMap]
  simp only [List.mem_reverse]

theorem shown_shownRow (xs : List Variable) (b : Binding) :
    (shownRow xs b).Shown (unionVariables [] xs) where
  within x hx := by
    rw [get?_shownRow] at hx
    split at hx
    · exact mem_unionVariables.mpr (.inr ‹x ∈ xs›)
    · exact absurd rfl hx
  ground x label := by
    rw [get?_shownRow]
    split
    · intro h
      obtain ⟨t, _, ht⟩ := Option.map_eq_some_iff.mp h
      exact Skolem.canonical_encode_ne_blank t label ht
    · simp

def shown (t : Table) : List Binding := t.rows.map (shownRow t.vars)

/-- The columns of an answer. Nothing is known of the columns of a table without rows. -/
def columns (t : Table) : List Variable := if t.rows.isEmpty then [] else unionVariables [] t.vars

variable (t : Table)

theorem shown_of_mem {row : Binding} (h : row ∈ t.shown) : row.Shown t.columns := by
  obtain ⟨b, hb, rfl⟩ := List.mem_map.mp h
  have hcolumns : t.columns = unionVariables [] t.vars := by
    rw [columns, if_neg]
    simpa using List.ne_nil_of_mem hb
  exact hcolumns ▸ shown_shownRow t.vars b

theorem nodup_columns : t.columns.Nodup := by
  unfold columns
  split
  · exact .nil
  · exact nodup_unionVariables _ .nil

theorem simplify_toPattern : t.toPattern.simplify .empty none =
    if t.rows.isEmpty then .empty else t.toPattern := by
  unfold toPattern
  rw [Pattern.simplify, List.isEmpty_map]

theorem rows_toPattern (s : Surroundings) :
    (t.toPattern.simplify .empty none).rows s none .empty = Rows.ofBindings t.shown := by
  rw [simplify_toPattern]
  cases h : t.rows with
  | nil => simp [shown, h, Pattern.empty, Pattern.rows, Rows.ofTable, Rows.ofBindings]
  | cons b rest =>
    simp only [shown, h, List.isEmpty_cons, Bool.false_eq_true, if_false]
    rw [toPattern, Pattern.rows, h, Rows.ofTable, List.filterMap_map]
    refine congrArg Rows.ofBindings ?_
    change (b :: rest).filterMap (fun c => some (shownRow t.vars c)) = _
    rw [List.filterMap_eq_map']

theorem columns_toPattern : unionVariables [] ((t.toPattern.simplify .empty none).columns none) =
    t.columns := by
  rw [simplify_toPattern, columns]
  split <;> rfl

theorem unsupported?_toPattern : (t.toPattern.simplify .empty none).unsupported? = none := by
  rw [simplify_toPattern]
  split <;> rfl

end Table

/-! ## The answers of the standard engine -/

/-- What a query sees of a store. -/
def Query.seenIn (q : Query) (store : Store) : Dataset := .ofStore store q.dataset

/-- What the forms of a query make of rows. -/
def answerForm (d : Dataset) (seed : String) (columns : List Variable) (rows : Rows) :
    QueryForm → Except EngineError EngineAnswer
  | .select => pure (.solutions columns (rows.map (·.map (·.toSolution columns))))
  | .ask =>
    match rows with
    | [] => pure (.boolean false)
    | .ok _ :: _ => pure (.boolean true)
    | .error e :: _ => throw e
  | .construct template => pure (.graph (Construction.triples ⟨seed⟩ template 0 [] rows))
  | .describe => pure (.graph (describe d columns rows))

/-- The rows of the pattern of a query. -/
def Query.rowsIn (q : Query) (store : Store) (now : Timestamp) (seed : String) : Rows :=
  (q.pattern.simplify .empty none).rows ⟨q.seenIn store, ⟨q.base, now, ⟨seed⟩⟩⟩ none .empty

def Query.columns (q : Query) : List Variable :=
  unionVariables [] ((q.pattern.simplify .empty none).columns none)

theorem Engine.answer_standard (now : Timestamp) (seed : String) (store : Store) (q : Query) :
    (Engine.standard now seed).answer store q =
      match (q.pattern.simplify .empty none).unsupported? with
      | some f => .error (.unsupportedFunction f)
      | none => answerForm (q.seenIn store) seed q.columns (q.rowsIn store now seed) q.form := by
  simp only [Engine.standard]
  cases (q.pattern.simplify .empty none).unsupported? with
  | some f => rfl
  | none => cases q.form <;> rfl

theorem answer_toPattern (now : Timestamp) (seed : String) (store : Store) (q : Query) (t : Table) :
    (Engine.standard now seed).answer store { q with pattern := t.toPattern } =
      answerForm (q.seenIn store) seed t.columns (Rows.ofBindings t.shown) q.form := by
  rw [Engine.answer_standard, t.unsupported?_toPattern, Query.columns, t.columns_toPattern,
    Query.rowsIn, t.rows_toPattern]
  rfl

namespace Table

variable {context : EvaluationContext} {now : Timestamp} {seed : String} {t : Table}

theorem mapping_shownRow {b : Binding} (h : ∀ x, b.contains x = true → x ∈ t.vars) :
    (shownRow t.vars b).mapping = (b.mapping.mapTerms Term.canonical).presented := by
  funext x
  rw [Binding.mapping, get?_shownRow, Mapping.presented, Mapping.mapTerms, Mapping.mapTerms,
    Option.map_map]
  split
  · exact Option.map_congr fun v _ => (Skolem.encode_canonical v).symm
  · rename_i hx
    have hnone : b.get? x = none := by
      by_contra hne
      exact hx (h x (Binding.contains_iff_mem_vars.mpr (Binding.get?_ne_none_iff.mp hne)))
    rw [Binding.mapping, hnone]
    rfl

theorem map_mapping_shown (h : t.Covers) :
    (t.shown.map (·.toSolution t.columns)).map Solution.mapping =
      t.rows.map fun b => (b.mapping.mapTerms Term.canonical).presented := by
  rw [List.map_map, shown, List.map_map]
  refine List.map_congr_left fun b hb => ?_
  have hshown := t.shown_of_mem (List.mem_map_of_mem hb)
  calc ((shownRow t.vars b).toSolution t.columns).mapping
      = (shownRow t.vars b).mapping := Solution.mapping_ofMapping t.nodup_columns hshown.within
    _ = (b.mapping.mapTerms Term.canonical).presented := mapping_shownRow (h.bound b hb)

/-- The standard engine gives back every row of a table, in their order, with its literals in their
canonical form. -/
theorem Covers.rows_toPattern_standard (hengine : context.engine = .standard now seed)
    (h : t.Covers) (hfree : ∀ b ∈ t.rows, b.mapping.Unreserved) :
    ∃ rows, context.rows t.toPattern = (do context.checkDeadline; pure rows) ∧
      rows.map Binding.mapping = t.rows.map fun b => b.mapping.mapTerms Term.canonical := by
  have hanswer : context.engine.answer context.store (context.query .select t.toPattern) =
      .ok (.solutions t.columns ((t.shown.map (·.toSolution t.columns)).map .ok)) := by
    rw [hengine]
    refine (answer_toPattern now seed context.store (context.query .select t.toPattern) t).trans ?_
    simp only [EvaluationContext.query, answerForm, Rows.ofBindings, List.map_map]
    rfl
  refine rows_toPattern_of_answer hanswer (map_mapping_shown h) fun b hb => ?_
  exact Mapping.unreserved_mapTerms (hfree b hb) fun v hv => (Term.isReserved_canonical v).trans hv

/-- A table of canonical literals is read back as it was written. -/
theorem Covers.rows_toPattern_canonical (hengine : context.engine = .standard now seed)
    (h : t.Covers) (hfree : ∀ b ∈ t.rows, b.mapping.Unreserved)
    (hcanonical : ∀ b ∈ t.rows, ∀ x, ∀ v ∈ b.get? x, v.canonical = v) :
    ∃ rows, context.rows t.toPattern = (do context.checkDeadline; pure rows) ∧
      rows.map Binding.mapping = t.rows.map Binding.mapping := by
  obtain ⟨rows, hrows, hmappings⟩ := h.rows_toPattern_standard hengine hfree
  refine ⟨rows, hrows, hmappings.trans (List.map_congr_left fun b hb => funext fun x => ?_)⟩
  exact (Option.map_congr fun v hv => hcanonical b hb x v hv).trans Option.map_id'

/-- The engine does not keep `"01"` as the text of an integer. -/
example : (Term.literal (.typed "01" Iri.xsdInteger)).canonical =
    .literal (.typed "1" Iri.xsdInteger) := by decide

end Table

/-! ## What is collected -/

/-- The outcome has every item of an answer without failures, decoded. -/
def EngineAnswer.Collected : EngineAnswer → QueryOutcome → Prop
  | .solutions xs items, outcome =>
    ∃ rows : List Solution,
      items = rows.map .ok ∧ outcome = .solutions xs (rows.map Skolem.decodeSolution)
  | .boolean b, outcome => outcome = .boolean b
  | .graph items, outcome =>
    ∃ triples : List Triple,
      items = triples.map .ok ∧ outcome = .graph (triples.map Skolem.decodeTriple)

namespace ExtensionEvaluator

variable {ev : ExtensionEvaluator} {context : EvaluationContext} {q : Query}
variable {outcome : QueryOutcome}

theorem yields_liftEngine_iff {α : Type} {r : Except EngineError α} {a : α} :
    Evaluation.Yields (EvaluationContext.liftEngine r) a ↔ r = .ok a := by
  cases r with
  | ok b => simp [EvaluationContext.liftEngine, Evaluation.yields_pure_iff]
  | error e => simp [EvaluationContext.liftEngine, Evaluation.not_yields_throw]

/-- Nothing is left out, and a deadline that has not passed before may not have passed later. -/
theorem yields_collectItems_iff {α β : Type} (hd : Evaluation.Yields context.checkDeadline ())
    {decode : α → β} {items : List (Except EngineError α)} {result : List β} :
    Evaluation.Yields (collectItems context decode items) result ↔
      ∃ as : List α, items = as.map .ok ∧ result = as.map decode := by
  induction items generalizing result with
  | nil => simp [collectItems, Evaluation.yields_pure_iff, eq_comm]
  | cons item rest ih =>
    simp only [collectItems, Evaluation.yields_bind_iff, Evaluation.yields_pure_iff,
      yields_liftEngine_iff, ih]
    constructor
    · rintro ⟨_, _, a, rfl, _, ⟨as, rfl, rfl⟩, rfl⟩
      exact ⟨a :: as, rfl, rfl⟩
    · rintro ⟨as, has, rfl⟩
      cases as with
      | nil => cases has
      | cons a as =>
        obtain ⟨rfl, rfl⟩ := List.cons.inj has
        exact ⟨(), hd, a, rfl, _, ⟨as, rfl, rfl⟩, rfl⟩

theorem yields_collectAnswer_iff : Evaluation.Yields (collectAnswer context q) outcome ↔
    Evaluation.Yields context.checkDeadline () ∧
      ∃ answer, context.engine.answer context.store q = .ok answer ∧ answer.Collected outcome := by
  unfold collectAnswer EvaluationContext.evaluateQuery
  simp only [Evaluation.yields_bind_iff, yields_liftEngine_iff]
  constructor
  · rintro ⟨answer, ⟨_, hd, hanswer⟩, h⟩
    refine ⟨hd, answer, hanswer, ?_⟩
    cases answer with
    | boolean b => exact (Evaluation.yields_pure_iff.mp h).symm
    | solutions _ _ | graph _ =>
      obtain ⟨_, hitems, h⟩ := Evaluation.yields_bind_iff.mp h
      obtain ⟨as, has, rfl⟩ := (yields_collectItems_iff hd).mp hitems
      exact ⟨as, has, (Evaluation.yields_pure_iff.mp h).symm⟩
  · rintro ⟨hd, answer, hanswer, h⟩
    refine ⟨answer, ⟨(), hd, hanswer⟩, ?_⟩
    cases answer with
    | boolean b => exact Evaluation.yields_pure_iff.mpr h.symm
    | solutions _ _ | graph _ =>
      obtain ⟨as, has, rfl⟩ := h
      exact Evaluation.yields_bind_iff.mpr
        ⟨_, (yields_collectItems_iff hd).mpr ⟨as, has, rfl⟩, Evaluation.yields_pure_iff.mpr rfl⟩

variable {now : Timestamp} {seed : String}

/-- The rows that the forms of a query are made of: those of a table if the query has a call, and
those of its own pattern if not. A selection gives all of them back. -/
theorem yields_execute (hengine : context.engine = .standard now seed)
    (h : Evaluation.Yields (ev.execute context q) outcome) :
    ∃ (columns : List Variable) (rows : Rows), columns.Nodup ∧
      (∃ answer, answerForm (q.seenIn context.store) seed columns rows q.form = .ok answer ∧
        answer.Collected outcome) ∧
      (∀ bs, rows = Rows.ofBindings bs →
        Evaluation.Yields (ev.execute context { q with form := .select })
          (.solutions columns (bs.map fun b => Skolem.decodeSolution (b.toSolution columns)))) ∧
      (q.pattern.extensionCalls ≠ [] ∧
          (∃ bs, rows = Rows.ofBindings bs ∧ ∀ b ∈ bs, b.Shown columns) ∨
        q.pattern.extensionCalls = [] ∧ columns = q.columns ∧
          rows = q.rowsIn context.store now seed) := by
  rw [execute_eq] at h
  obtain ⟨i, hi, h⟩ := Evaluation.yields_bind_iff.mp h
  obtain ⟨hd, answer, hanswer, hcollected⟩ := yields_collectAnswer_iff.mp h
  -- whatever rows the engine has for the inlined pattern, it has them for every form
  have hselect : ∀ {columns rows}, (∀ form, (Engine.standard now seed).answer context.store
        { q with form := form, pattern := i.toPattern } =
          answerForm (q.seenIn context.store) seed columns rows form) →
      ∀ bs, rows = Rows.ofBindings bs →
        Evaluation.Yields (ev.execute context { q with form := .select })
          (.solutions columns (bs.map fun b => Skolem.decodeSolution (b.toSolution columns))) := by
    rintro columns _ hforms bs rfl
    rw [execute_eq]
    refine Evaluation.yields_bind_iff.mpr ⟨i, hi, yields_collectAnswer_iff.mpr ⟨hd, _,
      (congrArg (fun e => Engine.answer e _ _) hengine).trans (hforms .select), ?_⟩⟩
    refine ⟨bs.map (·.toSolution columns), ?_, ?_⟩
    · simp only [Rows.ofBindings, List.map_map]
      rfl
    · simp only [List.map_map, Function.comp_def]
  have hfaithful := faithful_inlinePattern hi
  change context.engine.answer context.store _ = _ at hanswer
  rw [hengine] at hanswer
  cases i with
  | solutions t =>
    have hforms := fun form => answer_toPattern now seed context.store { q with form := form } t
    refine ⟨t.columns, _, t.nodup_columns, ⟨answer, (hforms q.form).symm.trans hanswer, hcollected⟩,
      hselect hforms, .inl ⟨hfaithful.1, t.shown, rfl, fun b => t.shown_of_mem⟩⟩
  | pattern p =>
    obtain ⟨rfl, hcalls⟩ := hfaithful
    cases hsupported : (q.pattern.simplify .empty none).unsupported? with
    | some f =>
      simp only [Inlined.toPattern, Engine.answer_standard, hsupported] at hanswer
      cases hanswer
    | none =>
      have hforms : ∀ form, (Engine.standard now seed).answer context.store
          { q with form := form } = answerForm (q.seenIn context.store) seed q.columns
            (q.rowsIn context.store now seed) form := by
        intro form
        simp only [Engine.answer_standard, hsupported]
        rfl
      exact ⟨q.columns, _, nodup_unionVariables _ .nil,
        ⟨answer, (hforms q.form).symm.trans hanswer, hcollected⟩, hselect hforms,
        .inr ⟨hcalls, rfl, rfl⟩⟩

end ExtensionEvaluator

end SparqlBind
