import SparqlBind.Proofs.Inlining.Existence
import SparqlBind.Proofs.Inlining.GraphNames
import SparqlBind.Proofs.Semantics.Separation

/-!
# Modifiers under a graph name

Under `GRAPH ?g` the rows of a part are those of all graphs, and a modifier above them is put to the
engine once, with `?g` among the keys of a group. A slice then counts the rows of all graphs, and a
graph without rows has no group. Of the engine it is assumed that its results on tables are possible
results of the modifiers.
-/

noncomputable section

open scoped Classical

namespace SparqlBind

/-- On tables, what the engine gives for a modifier is a result that the modifier may have. Terms are
left as they are written, as in `Engine.Tabular`. -/
def EvaluationContext.Modifies (context : EvaluationContext) (sem : ListSemantics) : Prop :=
  ∀ (m : Modifier) (xs : List Variable) (cells : List (List (Option GroundTerm))), xs.Nodup →
    ∃ (columns : List Variable) (solutions : List Solution),
      context.engine.answer context.store (context.query .select (m.apply (.values xs cells))) =
        .ok (.solutions columns (solutions.map .ok)) ∧
      sem.Runs m (cells.map (Mapping.ofCells xs)) (solutions.map Solution.mapping)

/-- A table that can be written without loss, and whose rows come back as they are. -/
structure Table.Writable (t : Table) : Prop where
  covers : t.Covers
  distinctVars : DistinctVars t.rows
  unreserved : ∀ μ ∈ t.mappings, μ.Unreserved

variable {context : EvaluationContext} {sem : ListSemantics} {graphs : List Term} {g : Variable}

/-- A modifier on top of a table. -/
theorem EvaluationContext.Modifies.rows (hsem : context.Modifies sem)
    (hengine : context.engine.Tabular) (hd : context.deadline = none) {t : Table} (ht : t.Writable)
    (m : Modifier) :
    ∃ rows, context.rows (m.apply t.toPattern) = pure rows ∧
      Table.Writable ⟨(m.apply t.toPattern).inScope, rows⟩ ∧
      sem.shown.Runs m t.mappings (rows.map Binding.mapping) := by
  obtain ⟨columns, solutions, hanswer, hruns⟩ := hsem m t.vars
    (t.rows.map (Table.row t.vars)) ht.covers.nodup
  have hrows := rows_of_answer hanswer
  rw [settled_checkDeadline hd, pure_bind] at hrows
  have hmappings := map_mapping_bindingOfSolution solutions
  refine ⟨_, hrows, ⟨?_, ?_, ?_⟩, ?_⟩
  · exact covers_of_yields_rows hengine (Evaluation.yields_of_eq_pure hrows)
  · intro b hb
    obtain ⟨s, _, rfl⟩ := List.mem_map.mp hb
    exact nodup_bindingOfSolution s
  · intro μ hμ
    rw [Table.mappings, hmappings] at hμ
    obtain ⟨ν, _, rfl⟩ := List.mem_map.mp hμ
    exact ν.unreserved_decoded
  · have hshown : t.rows.map (fun b => b.mapping.presented) =
        t.mappings.map Mapping.presented := by
      rw [Table.mappings, List.map_map]
      rfl
    rw [ht.covers.map_ofCells, hshown] at hruns
    rw [hmappings]
    exact hruns.decoded ht.unreserved

namespace ExtensionEvaluator

variable {ev : ExtensionEvaluator} {p : Pattern} {t : Table}

theorem inlinePattern_modifier
    (hp : ev.inlinePattern context (some (.var g)) p = pure (.solutions t)) (m : Modifier) :
    ev.inlinePattern context (some (.var g)) (m.apply p) =
      (Inlined.solutions t).apply context (m.keeping g).apply := by
  cases m with
  | orderBy keys =>
    rw [Modifier.apply, inlinePattern, hp, pure_bind]
    rfl
  | slice start length =>
    rw [Modifier.apply, inlinePattern, hp, pure_bind]
    rfl
  | group keys aggregates =>
    rw [Modifier.apply, inlinePattern, hp, pure_bind]
    rfl

theorem inlinePattern_stack (hsem : context.Modifies sem) (hengine : context.engine.Tabular)
    (hd : context.deadline = none) (ms : List Modifier)
    (hp : ev.inlinePattern context (some (.var g)) p = pure (.solutions t)) (ht : t.Writable) :
    ∃ u : Table, ev.inlinePattern context (some (.var g)) (Modifier.stack ms p) =
        pure (.solutions u) ∧ u.Writable ∧
      sem.shown.RunsAll (ms.map (·.keeping g)) t.mappings u.mappings := by
  -- from the innermost modifier outwards; each gives rows that can be written again
  induction ms generalizing p t with
  | nil => exact ⟨t, hp, ht, rfl⟩
  | cons m ms ih =>
    obtain ⟨rows, hrows, hwritable, hruns⟩ := hsem.rows hengine hd ht (m.keeping g)
    have hm : ev.inlinePattern context (some (.var g)) (m.apply p) =
        pure (.solutions ⟨((m.keeping g).apply t.toPattern).inScope, rows⟩) := by
      rw [inlinePattern_modifier hp, Inlined.apply, hrows, pure_bind]
    obtain ⟨u, hu, hwritable', hall⟩ := ih hm hwritable
    exact ⟨u, hu, hwritable', _, hruns, hall⟩

/-- The modifiers run once over the rows of all graphs, with `?g` among the keys of a group. That is
graph by graph if every step separates the graphs, and without a slice just when no group of all
rows meets a graph that has none. -/
theorem inlinePattern_graph_modifiers {functions : ScalarFunctions} (hsem : context.Modifies sem)
    (hengine : context.engine.Tabular) (hc : context.HasGraphs graphs)
    (hd : context.deadline = none) {ms : List Modifier} (hg : ∀ m ∈ ms, sem.Ignores g m)
    (hcalls : p.extensionCalls ≠ [])
    (ht : (ExtensionEvaluator.mk (.ofScalars functions)).evaluatePattern context
      (some (.var g)) p = pure t)
    (hnames : t.NamesGraphs graphs g) (hfree : ∀ μ ∈ t.mappings, μ.Unreserved)
    (outer : Option NamePattern) :
    ∃ (r : Table) (result : List Mapping),
      (ExtensionEvaluator.mk (.ofScalars functions)).inlinePattern context outer
        (.graph (.var g) (Modifier.stack ms p)) = pure (.solutions r) ∧
      sem.shown.RunsAll (ms.map (·.keeping g)) t.mappings result ∧
      Bag.ofRows r.rows = (Bag.byGraph graphs g fun i =>
        (result : Multiset Mapping).filter fun μ => μ.CountsIn g i) ∧
      (Rows.Named graphs g t.mappings → sem.shown.Separates graphs g ms t.mappings →
        sem.shown.GraphByGraph graphs g ms t.mappings (Bag.ofRows r.rows)) ∧
      (Rows.Named graphs g t.mappings → (∀ m ∈ ms, m.isSlice = false) →
        (sem.shown.GraphByGraph graphs g ms t.mappings (Bag.ofRows r.rows) ↔
          (∀ m ∈ ms, m.isWhole = false) ∨ ∀ i ∈ graphs, ∃ μ ∈ t.mappings, μ g = some i)) := by
  have hwritable : t.Writable :=
    ⟨(invariant_covers hengine).of_evaluatePattern ht,
      invariant_distinctVars.of_evaluatePattern ht, hfree⟩
  have hshown : ∀ m ∈ ms, sem.shown.Ignores g m := fun m hm => (hg m hm).shown
  obtain ⟨u, hu, hwritable', hall⟩ := inlinePattern_stack hsem hengine hd ms
    (inlinePattern_eq_of_evaluatePattern hcalls ht) hwritable
  -- no modifier changes the name of the graph, so the rows above it name those that `t` names
  have hunames : u.NamesGraphs graphs g := by
    intro b hb i hi
    obtain ⟨μ, hμ, hbμ⟩ := hall.exists_row hshown b.mapping (List.mem_map_of_mem hb)
    obtain ⟨c, hc, rfl⟩ := List.mem_map.mp hμ
    exact hnames c hc i (hbμ.symm.trans hi)
  obtain ⟨r, hr⟩ := Inlined.exists_named hc hd u
  have hrows : Bag.ofRows r.rows = (Bag.ofRows u.rows).join (Bag.graphRows graphs g) :=
    Inlined.rows_named hc hwritable'.distinctVars hunames (Evaluation.yields_of_eq_pure hr)
  have hall' : Rows.Named graphs g t.mappings →
      Bag.ofRows r.rows = (u.mappings : Multiset Mapping) := by
    intro hnamed
    rw [hrows]
    refine Bag.join_graphRows_of_named hc.nodup fun ν hν => ?_
    obtain ⟨μ, hμ, hνμ⟩ := hall.exists_row hshown ν (Multiset.mem_coe.mp hν)
    rw [hνμ]
    exact hnamed μ hμ
  refine ⟨r, u.mappings, ?_, hall, ?_, fun hnamed hsep => ?_, fun hnamed hslice => ?_⟩
  · rw [inlinePattern, hu, pure_bind, hr]
  · rw [hrows, Bag.join_graphRows]
    rfl
  · rw [hall' hnamed]
    exact ListSemantics.graphByGraph_of_separates hc.nodup hshown hnamed hsep hall
  · rw [hall' hnamed]
    exact ListSemantics.graphByGraph_iff hc.nodup hshown hslice hnamed hall

end ExtensionEvaluator

/-! ## Engines with possible results -/

/-- The modifier on top of a table, with its columns and cells. -/
def Pattern.onValues? :
    Pattern → Option (Modifier × List Variable × List (List (Option GroundTerm)))
  | orderBy (values xs cells) keys => some (.orderBy keys, xs, cells)
  | slice (values xs cells) start length => some (.slice start length, xs, cells)
  | group (values xs cells) keys aggregates => some (.group keys aggregates, xs, cells)
  | _ => none

/-- The engine, except that the named graphs are the given ones and that a modifier on a table has
some result that it may have. -/
def ListSemantics.onTables (sem : ListSemantics) (graphs : List Term) (engine : Engine) :
    Engine where
  answer store q :=
    match q.form, q.pattern with
    | .select, .graph (.var g) (.bgp []) => .ok (.names graphs g)
    | .select, p =>
      match p.onValues? with
      | some (m, xs, cells) =>
        .ok (.solutions p.inScope ((sem.exists_runs m (cells.map (Mapping.ofCells xs))).choose.map
          fun μ => .ok (.ofMapping p.inScope μ)))
      | none => engine.answer store q
    | _, _ => engine.answer store q

namespace ListSemantics

theorem Runs.within {m : Modifier} {xs : List Variable} {cells : List (List (Option GroundTerm))}
    {result : List Mapping} (h : sem.Runs m (cells.map (Mapping.ofCells xs)) result) :
    ∀ μ ∈ result, μ.Within (· ∈ (m.apply (.values xs cells)).mentions) := by
  have hcells : ∀ μ ∈ cells.map (Mapping.ofCells xs), μ.Within (· ∈ xs) := by
    intro μ hμ
    obtain ⟨row, _, rfl⟩ := List.mem_map.mp hμ
    exact Mapping.within_ofCells xs row
  intro μ hμ
  cases m with
  | orderBy keys => exact hcells μ (h.1.mem_iff.mp hμ)
  | slice start length =>
    obtain rfl : result = Rows.window start length _ := h
    exact hcells μ ((Rows.window_sublist _ _ _).subset hμ)
  | group keys aggregates =>
    obtain ⟨κ, hκ, rfl⟩ := List.mem_map.mp (h.mem_iff.mp hμ)
    have hwithin : κ.Within (· ∈ keys) := by
      unfold Rows.groupKeys at hκ
      split at hκ
      · exact List.mem_singleton.mp hκ ▸ Mapping.within_empty
      · obtain ⟨ν, _, rfl⟩ := List.mem_map.mp (List.mem_dedup.mp hκ)
        exact Mapping.within_restrict keys
    exact (hwithin.mono fun _ => List.mem_append_left _).bindAll fun _ ha =>
      List.mem_append_right _ (List.mem_map_of_mem ha)

variable {engine : Engine}

theorem modifies_onTables (h : context.engine = (sem.onTables graphs engine).tabular) :
    context.Modifies sem := by
  intro m xs cells _
  let p := m.apply (.values xs cells)
  obtain ⟨result, hresult⟩ : ∃ result,
      result = (sem.exists_runs m (cells.map (Mapping.ofCells xs))).choose := ⟨_, rfl⟩
  have hruns : sem.Runs m (cells.map (Mapping.ofCells xs)) result :=
    hresult ▸ (sem.exists_runs m (cells.map (Mapping.ofCells xs))).choose_spec
  have hanswer : (sem.onTables graphs engine).answer context.store (context.query .select p) =
      .ok (.solutions p.inScope (result.map fun μ => .ok (.ofMapping p.inScope μ))) := by
    rw [hresult]
    cases m <;> rfl
  have hvalues : ¬ ∃ ys rows, p = .values ys rows := by
    rintro ⟨ys, rows, hp⟩
    exact m.apply_ne_values hp
  have hmappings : (result.map (Solution.ofMapping p.inScope)).map Solution.mapping = result := by
    rw [List.map_map]
    refine (List.map_congr_left fun μ hμ => ?_).trans (List.map_id result)
    exact Solution.mapping_ofMapping p.nodup_inScope
      ((hruns.within μ hμ).mono fun _ => Pattern.mem_inScope.mpr)
  refine ⟨p.inScope, result.map (Solution.ofMapping p.inScope), ?_, by rw [hmappings]; exact hruns⟩
  rw [h, Engine.answer_tabular fun hq => hvalues hq.2, hanswer, List.map_map]
  exact congrArg Except.ok (EngineAnswer.restricted_solutions hruns.within)

theorem hasGraphs_onTables (h : context.engine = (sem.onTables graphs engine).tabular)
    (hnodup : graphs.Nodup) (hunreserved : ∀ t ∈ graphs, t.isReserved = false) :
    context.HasGraphs graphs := by
  refine EvaluationContext.hasGraphs_of_names (fun g => ?_) hnodup hunreserved
  have hwithin : ∀ μ ∈ graphs.map (Mapping.empty.set g),
      μ.Within (· ∈ (Pattern.graph (.var g) (.bgp [])).mentions) := by
    intro μ hμ
    obtain ⟨t, _, rfl⟩ := List.mem_map.mp hμ
    exact Mapping.within_empty.extend List.mem_cons_self (some t)
  have hrestricted := EngineAnswer.restricted_solutions hwithin
  rw [List.map_map] at hrestricted
  rw [h, Engine.answer_tabular (by simp [EvaluationContext.query])]
  exact congrArg Except.ok hrestricted

end ListSemantics

namespace Sample

/-- Counts are those of the rows, and no order is asked for. -/
def listSemantics (quads : List Quad) : ListSemantics where
  precedes _ _ _ := true
  summary?
    | .countAll _ distinct, rows =>
      some (.literal (.ofInt (if distinct then rows.dedup else rows).length))
    | .apply _ f distinct e, rows =>
      (semantics quads).aggregate f distinct (rows.map ((semantics quads).value e))
  precedes_total _ _ _ := rfl
  precedes_trans _ _ _ _ _ _ := rfl

/-- The sample context with an engine that counts. -/
def counting (quads : List Quad) (graphs : List Term) : EvaluationContext :=
  { stored quads with
    engine := ((listSemantics quads).onTables graphs (Engine.standard default "")).tabular }

def saidIn (i : Iri) : Binding :=
  ⟨[(graph, .iri i), (subject, .blank "n"), (object, .literal (.plain "v")),
    (target, .literal (.plain "v"))]⟩

def saidTwice : Table := ⟨[graph, subject, object, target], [saidIn first, saidIn second]⟩

def count : Modifier := .group [] [.countAll ⟨"n"⟩ false]

theorem ignores_count (quads : List Quad) : (listSemantics quads).Ignores graph count := by
  refine ⟨List.not_mem_nil, fun a ha => ?_⟩
  obtain rfl := List.mem_singleton.mp ha
  refine ⟨by decide, fun i rows _ => ?_⟩
  simp [listSemantics]

end Sample

open Sample in
theorem ExtensionEvaluator.inlinePattern_graph_modifiers_count :
    evaluator.evaluatePattern (counting twice [.iri first, .iri second]) (some (.var graph))
      (.extend names target say) = pure saidTwice ∧
    ∃ r, evaluator.inlinePattern (counting twice [.iri first, .iri second]) none
        (.graph (.var graph) (Modifier.stack [count] (.extend names target say))) =
        pure (.solutions r) ∧
      (listSemantics twice).shown.GraphByGraph [.iri first, .iri second] graph [count]
        saidTwice.mappings (Bag.ofRows r.rows) := by
  have hsaid : evaluator.evaluatePattern (counting twice [.iri first, .iri second])
      (some (.var graph)) (.extend names target say) = pure saidTwice := rfl
  have hc : (counting twice [.iri first, .iri second]).HasGraphs [.iri first, .iri second] :=
    ListSemantics.hasGraphs_onTables rfl (by decide) (by decide)
  have hfree : ∀ b ∈ saidTwice.rows, ∀ e ∈ b.entries, e.2.isReserved = false := by decide
  have hnamed : Rows.Named [.iri first, .iri second] graph saidTwice.mappings := by
    intro μ hμ
    obtain ⟨b, hb, rfl⟩ := List.mem_map.mp hμ
    have hname : ∀ b ∈ saidTwice.rows, ∃ i ∈ [Term.iri first, Term.iri second],
        b.get? graph = some i := by decide
    exact hname b hb
  have hgraphs : ∀ i ∈ [Term.iri first, Term.iri second],
      ∃ μ ∈ saidTwice.mappings, μ graph = some i := by
    intro i hi
    have hrow : ∀ i ∈ [Term.iri first, Term.iri second], ∃ b ∈ saidTwice.rows,
        b.get? graph = some i := by decide
    obtain ⟨b, hb, hbi⟩ := hrow i hi
    exact ⟨b.mapping, List.mem_map_of_mem hb, hbi⟩
  obtain ⟨r, result, hr, _, _, _, hiff⟩ := inlinePattern_graph_modifiers
    (ListSemantics.modifies_onTables rfl) (Engine.tabular_tabular _) hc rfl
    (List.forall_mem_singleton.mpr (ignores_count twice)) (by decide) hsaid
    (fun b hb i hi => by
      obtain ⟨j, hj, hbj⟩ := hnamed b.mapping (List.mem_map_of_mem hb)
      exact Option.some.inj (hi.symm.trans hbj) ▸ hj)
    (fun μ hμ => by
      obtain ⟨b, hb, rfl⟩ := List.mem_map.mp hμ
      exact Binding.unreserved_mapping (hfree b hb))
    none
  exact ⟨hsaid, r, hr, (hiff hnamed (List.forall_mem_singleton.mpr rfl)).mpr (.inr hgraphs)⟩

open Sample in
/-- A limit gives a row for each graph, but one row for both; a graph in which nothing has a flag
has a count of its own, but none among the graphs. -/
theorem ExtensionEvaluator.inlinePattern_graph_modifiers_apart :
    (∀ i ∈ [first, second], evaluator.inlinePattern (stored twice) none
      (.graph (.iri i) (.slice (.extend names target say) 0 (some 1))) =
      pure (.solutions ⟨[subject, object, target], [⟨[(subject, .blank "n"),
        (object, .literal (.plain "v")), (target, .literal (.plain "v"))]⟩]⟩)) ∧
    evaluator.inlinePattern (stored twice) none
      (.graph (.var graph) (.slice (.extend names target say) 0 (some 1))) =
      pure (.solutions ⟨[graph, subject, object, target], [saidIn first]⟩) ∧
    (∀ i ∈ [first, second], evaluator.inlinePattern (stored twice) none
      (.graph (.iri i) (count.apply (.extend flags target (concatText "a")))) =
      pure (.solutions ⟨[⟨"n"⟩], [⟨[(⟨"n"⟩, .literal (.ofInt 0))]⟩]⟩)) ∧
    evaluator.inlinePattern (stored twice) none
      (.graph (.var graph) (count.apply (.extend flags target (concatText "a")))) =
      pure (.solutions ⟨[graph, ⟨"n"⟩], []⟩) := by
  refine ⟨fun i hi => ?_, rfl, fun i hi => ?_, rfl⟩
  · rcases List.mem_cons.mp hi with rfl | hi
    · rfl
    · obtain rfl := List.mem_singleton.mp hi
      rfl
  · rcases List.mem_cons.mp hi with rfl | hi
    · rfl
    · obtain rfl := List.mem_singleton.mp hi
      rfl

end SparqlBind

end
