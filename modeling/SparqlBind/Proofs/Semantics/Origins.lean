import SparqlBind.Proofs.Semantics.Engine
import SparqlBind.Proofs.Semantics.NamedRows

/-!
# Where the values of a variable come from

Which term a row of a pattern can have for a variable, read off the operators: what a `BIND` or an
aggregate sets can be any term, a triple pattern binds the variable of the graph it stands in to the
name of a graph, and every other operator hands on the terms of its parts. An engine that keeps to
this is assumed; it may put the name of the graph on all rows of a `GRAPH` or on those of the triple
patterns only. Every engine can be cut down to one that does.
-/

namespace SparqlBind

namespace Pattern

/-- Whether a row of the pattern can have `t` for `x` in a dataset with the named graphs. The
pattern stands in the graph `x` if `here` is true. -/
def gives (graphs : List Term) (x : Variable) (t : Term) : Bool → Pattern → Bool
  | here, bgp triples =>
    if here then graphs.contains t else (bgp triples).mentions.contains x
  | here, path s p o => if here then graphs.contains t else (path s p o).mentions.contains x
  | here, join l r => l.gives graphs x t here || r.gives graphs x t here
  | here, leftJoin l r _ => l.gives graphs x t here || r.gives graphs x t here
  | here, lateral l r => here && graphs.contains t || (lateral l r).mentions.contains x
  | here, filter _ p => p.gives graphs x t here
  | here, union l r => l.gives graphs x t here || r.gives graphs x t here
  | _, graph (.iri _) p => p.gives graphs x t false
  | _, graph (.var y) p => x == y && graphs.contains t || p.gives graphs x t (x == y)
  | here, extend p y _ => x == y || p.gives graphs x t here
  | here, minus l _ => l.gives graphs x t here
  | _, values xs rows => rows.any fun cells => Mapping.ofCells xs cells x == some t
  | here, orderBy p _ => p.gives graphs x t here
  | here, project p xs => (xs.contains x || here) && p.gives graphs x t here
  | here, distinct p => p.gives graphs x t here
  | here, reduced p => p.gives graphs x t here
  | here, slice p _ _ => p.gives graphs x t here
  | here, group p keys aggregates =>
    (aggregates.map Aggregate.target).contains x ||
      (keys.contains x || here) && p.gives graphs x t here
  | here, service name p silent =>
    here && graphs.contains t || (service name p silent).mentions.contains x

/-- Nothing in the pattern sets the variable `g`, except that it is the name of the graph around
triple patterns. The pattern stands in the graph `g` if `here` is true. -/
def reserves (g : Variable) : Bool → Pattern → Bool
  | here, bgp triples => here || !(bgp triples).mentions.contains g
  | here, path s p o => here || !(path s p o).mentions.contains g
  | here, join l r => l.reserves g here && r.reserves g here
  | here, leftJoin l r _ => l.reserves g here && r.reserves g here
  | _, lateral l r => !(lateral l r).mentions.contains g
  | here, filter _ p => p.reserves g here
  | here, union l r => l.reserves g here && r.reserves g here
  | _, graph (.iri _) p => p.reserves g false
  | _, graph (.var y) p => p.reserves g (g == y)
  | here, extend p x _ => g != x && p.reserves g here
  | here, minus l _ => l.reserves g here
  | _, values xs _ => !xs.contains g
  | here, orderBy p _ => p.reserves g here
  | here, project p _ => p.reserves g here
  | here, distinct p => p.reserves g here
  | here, reduced p => p.reserves g here
  | here, slice p _ _ => p.reserves g here
  | here, group p _ aggregates =>
    !(aggregates.map Aggregate.target).contains g && p.reserves g here
  | _, service name p silent => !(service name p silent).mentions.contains g

variable {graphs : List Term} {g : Variable} {t : Term} {p : Pattern}

/-- The terms of a triple pattern or a path, with the variables `xs`. -/
theorem mem_of_leaf {xs : List Variable} {here : Bool} (hp : (here || !xs.contains g) = true)
    (ht : (if here then graphs.contains t else xs.contains g) = true) : t ∈ graphs := by
  cases here with
  | true => exact List.contains_iff_mem.mp ht
  | false => simp_all

/-- A part of which nothing is known but its variables. -/
theorem mem_of_unknown {xs : List Variable} {here : Bool} (hp : (!xs.contains g) = true)
    (ht : (here && graphs.contains t || xs.contains g) = true) : t ∈ graphs := by
  rw [Bool.not_eq_true'] at hp
  rw [hp, Bool.or_false, Bool.and_eq_true] at ht
  exact List.contains_iff_mem.mp ht.2

theorem mem_of_gives {here : Bool} (hp : p.reserves g here = true)
    (ht : p.gives graphs g t here = true) : t ∈ graphs := by
  -- `gives` and `reserves` go through the pattern in step, with the same `here` on the way down
  induction p generalizing here with
  | bgp _ | path _ _ _ => exact mem_of_leaf hp ht
  | lateral _ _ _ _ | service _ _ _ _ => exact mem_of_unknown hp ht
  | join l r ihl ihr | leftJoin l r _ ihl ihr | union l r ihl ihr =>
    obtain ⟨hl, hr⟩ := Bool.and_eq_true_iff.mp hp
    exact (Bool.or_eq_true_iff.mp ht).elim (ihl hl) (ihr hr)
  | graph name p ih =>
    cases name with
    | iri i => exact ih hp ht
    | var y =>
      rcases Bool.or_eq_true_iff.mp ht with ht | ht
      · exact List.contains_iff_mem.mp (Bool.and_eq_true_iff.mp ht).2
      · exact ih hp ht
  | extend p x e ih =>
    obtain ⟨hx, hp⟩ := Bool.and_eq_true_iff.mp hp
    rcases Bool.or_eq_true_iff.mp ht with ht | ht
    · exact absurd (beq_iff_eq.mp ht) (bne_iff_ne.mp hx)
    · exact ih hp ht
  | values xs rows =>
    obtain ⟨cells, _, hcells⟩ := List.any_eq_true.mp ht
    have hmem : g ∈ xs := Mapping.within_ofCells xs cells g (by simp [beq_iff_eq.mp hcells])
    simp [reserves, hmem] at hp
  | project p xs ih => exact ih hp (Bool.and_eq_true_iff.mp ht).2
  | group p keys aggregates ih =>
    obtain ⟨htargets, hp⟩ := Bool.and_eq_true_iff.mp hp
    rcases Bool.or_eq_true_iff.mp ht with ht | ht
    · simp [List.contains_iff_mem.mp ht] at htargets
    · exact ih hp (Bool.and_eq_true_iff.mp ht).2
  | minus l r ihl ihr => exact ihl hp ht
  | filter _ _ ih | orderBy _ _ ih | distinct _ ih | reduced _ ih | slice _ _ _ ih => exact ih hp ht

theorem reserves_of_notMem (h : g ∉ p.vars) (here : Bool) : p.reserves g here = true := by
  have child {q r : Pattern} (hr : r ∈ q.children) (hq : g ∉ q.vars) : g ∉ r.vars :=
    mt (vars_of_child hr) hq
  have unmentioned {q : Pattern} (hq : g ∉ q.vars) : (!q.mentions.contains g) = true := by
    simp [mt mem_vars_of_mentions hq]
  induction p generalizing here with
  | bgp _ | path _ _ _ => exact Bool.or_eq_true_iff.mpr (.inr (unmentioned h))
  | values _ _ | lateral _ _ _ _ | service _ _ _ _ => exact unmentioned h
  | join l r ihl ihr | leftJoin l r _ ihl ihr | union l r ihl ihr =>
    have hr : g ∉ r.vars := child (List.mem_cons_of_mem _ List.mem_cons_self) h
    exact Bool.and_eq_true_iff.mpr ⟨ihl (child List.mem_cons_self h) here, ihr hr here⟩
  | minus l r ihl ihr => exact ihl (child List.mem_cons_self h) here
  | graph n p ih =>
    cases n with
    | iri i => exact ih (child List.mem_cons_self h) false
    | var y => exact ih (child List.mem_cons_self h) (g == y)
  | extend p x e ih =>
    have hx : g ≠ x := List.ne_of_not_mem_cons h
    exact Bool.and_eq_true_iff.mpr ⟨bne_iff_ne.mpr hx, ih (child List.mem_cons_self h) here⟩
  | group p keys aggregates ih =>
    have htargets : g ∉ aggregates.map Aggregate.target := fun hg =>
      h (mem_vars_of_mentions (List.mem_append_right _ hg))
    exact Bool.and_eq_true_iff.mpr ⟨by simpa using htargets, ih (child List.mem_cons_self h) here⟩
  | filter _ _ ih | orderBy _ _ ih | project _ _ ih | distinct _ ih | reduced _ ih
  | slice _ _ _ ih => exact ih (child List.mem_cons_self h) here

end Pattern

namespace EvaluationContext

/-- The named graphs of the dataset: an empty pattern under a variable name has one row for each.
None of them is named by an IRI that stands for a blank node. -/
structure HasGraphs (context : EvaluationContext) (graphs : List Term) : Prop where
  nodup : graphs.Nodup
  unreserved : ∀ t ∈ graphs, t.isReserved = false
  names : ∀ g, ∃ (xs : List Variable) (solutions : List Solution),
    context.engine.answer context.store (context.query .select (.graph (.var g) (.bgp []))) =
      .ok (.solutions xs (solutions.map .ok)) ∧
    (solutions.map Solution.mapping : Multiset Mapping) = Bag.graphRows graphs g

/-- The rows of the engine have no terms but those that the pattern gives. -/
structure Traces (context : EvaluationContext) (graphs : List Term) : Prop
    extends context.HasGraphs graphs where
  gives : ∀ {p : Pattern} {xs : List Variable} {items : List (Except EngineError Solution)}
    {s : Solution} {x : Variable} {t : Term},
    context.engine.answer context.store (context.query .select p) = .ok (.solutions xs items) →
      .ok s ∈ items → s.mapping x = some t → p.gives graphs x t false = true

variable {context : EvaluationContext} {graphs : List Term} {g : Variable} {p : Pattern}

theorem HasGraphs.yields_names (h : context.HasGraphs graphs) {rows : List Binding}
    (hrows : Evaluation.Yields (context.rows (.graph (.var g) (.bgp []))) rows) :
    Bag.ofRows rows = Bag.graphRows graphs g ∧ DistinctVars rows := by
  obtain ⟨xs, solutions, hanswer, hnames⟩ := h.names g
  rw [rows_of_answer hanswer] at hrows
  obtain ⟨_, _, hrows⟩ := Evaluation.yields_bind_iff.mp hrows
  obtain rfl := Evaluation.yields_pure_iff.mp hrows
  have hdecoded : ∀ t ∈ graphs, (Mapping.empty.set g t).decoded = Mapping.empty.set g t :=
    fun t ht => (Mapping.unreserved_empty.set (h.unreserved t ht)).decoded_eq
  refine ⟨?_, ?_⟩
  · calc Bag.ofRows (solutions.map bindingOfSolution)
        = (solutions.map Solution.mapping : Multiset Mapping).map Mapping.decoded := by
          rw [Bag.ofRows, Multiset.map_coe, map_mapping_bindingOfSolution]
      _ = Bag.graphRows graphs g := by
          rw [hnames, Bag.graphRows, Multiset.map_coe, List.map_map]
          exact congrArg _ (List.map_congr_left hdecoded)
  · intro b hb
    obtain ⟨s, _, rfl⟩ := List.mem_map.mp hb
    exact nodup_bindingOfSolution s

theorem Traces.gives_of_yields (h : context.Traces graphs) {rows : List Binding}
    (hrows : Evaluation.Yields (context.rows p) rows) {b : Binding} (hb : b ∈ rows) {x : Variable}
    {t : Term} (hx : b.mapping x = some t) :
    ∃ u, p.gives graphs x u false = true ∧ Skolem.decode u = t := by
  obtain ⟨xs, items, hanswer, hitems⟩ := answer_of_yields_rows hrows
  obtain ⟨s, hs, rfl⟩ := hitems b hb
  rw [mapping_bindingOfSolution] at hx
  obtain ⟨u, hu, rfl⟩ := Option.map_eq_some_iff.mp hx
  exact ⟨u, h.gives hanswer hs hu, rfl⟩

end EvaluationContext

/-! ## Engines that keep to it -/

/-- The terms of the row are among those that the pattern gives. -/
def Solution.isGiven (graphs : List Term) (p : Pattern) (s : Solution) : Bool :=
  s.bound.all fun c => p.gives graphs c.1 c.2 false

theorem Solution.gives_of_isGiven {graphs : List Term} {p : Pattern} {s : Solution} {x : Variable}
    {t : Term} (h : s.isGiven graphs p = true) (hx : s.mapping x = some t) :
    p.gives graphs x t false = true := by
  have hlookup : s.bound.reverse.lookup x = some t := by
    rw [← Binding.get?_ofList]
    exact hx
  obtain ⟨before, after, hentries, _⟩ := List.lookup_eq_some_iff.mp hlookup
  have hmem : (x, t) ∈ s.bound := by
    rw [← List.mem_reverse, hentries]
    exact List.mem_append_right _ List.mem_cons_self
  exact List.all_eq_true.mp h (x, t) hmem

/-- Rows with other terms are left out. -/
def EngineAnswer.given (graphs : List Term) (p : Pattern) : EngineAnswer → EngineAnswer
  | solutions xs items => solutions xs (items.filter fun item =>
    match item with
    | .ok s => s.isGiven graphs p
    | .error _ => true)
  | boolean value => boolean value
  | graph triples => graph triples

/-- An answer with a row for each named graph. -/
def EngineAnswer.names (graphs : List Term) (g : Variable) : EngineAnswer :=
  .solutions [g] (graphs.map fun t => .ok (.ofMapping [g] (Mapping.empty.set g t)))

theorem Solution.mapping_graphRow (g : Variable) (t : Term) :
    (Solution.ofMapping [g] (Mapping.empty.set g t)).mapping = Mapping.empty.set g t :=
  mapping_ofMapping (List.nodup_singleton g)
    (Mapping.within_empty.extend (List.mem_singleton.mpr rfl) (some t))

theorem EvaluationContext.hasGraphs_of_names {graphs : List Term} {context : EvaluationContext}
    (hnames : ∀ g, context.engine.answer context.store
      (context.query .select (.graph (.var g) (.bgp []))) = .ok (.names graphs g))
    (hnodup : graphs.Nodup) (hunreserved : ∀ t ∈ graphs, t.isReserved = false) :
    context.HasGraphs graphs where
  nodup := hnodup
  unreserved := hunreserved
  names g := by
    refine ⟨[g], graphs.map fun t => .ofMapping [g] (Mapping.empty.set g t), ?_, ?_⟩
    · rw [hnames g, List.map_map]
      rfl
    · rw [List.map_map]
      exact congrArg _ (List.map_congr_left fun t _ => Solution.mapping_graphRow g t)

/-- The engine, except that the named graphs are the given ones and rows with terms that the pattern
does not give are left out. -/
def Engine.tracing (graphs : List Term) (engine : Engine) : Engine where
  answer store q :=
    match q.form, q.pattern with
    | .select, .graph (.var g) (.bgp []) => .ok (.names graphs g)
    | _, p => (engine.answer store q).map (.given graphs p)

theorem EngineAnswer.gives_of_given {graphs : List Term} {p : Pattern}
    {answer : Except EngineError EngineAnswer} {xs : List Variable}
    {items : List (Except EngineError Solution)} {s : Solution} {x : Variable} {t : Term}
    (h : answer.map (given graphs p) = .ok (.solutions xs items)) (hs : .ok s ∈ items)
    (hx : s.mapping x = some t) : p.gives graphs x t false = true := by
  rcases answer with e | (⟨ys, rows⟩ | value | triples)
  · cases h
  · obtain rfl := (EngineAnswer.solutions.inj (Except.ok.inj h)).2
    exact Solution.gives_of_isGiven (List.mem_filter.mp hs).2 hx
  · cases h
  · cases h

theorem Engine.traces_tracing {graphs : List Term} {engine : Engine} {context : EvaluationContext}
    (hcontext : context.engine = engine.tracing graphs) (hnodup : graphs.Nodup)
    (hunreserved : ∀ t ∈ graphs, t.isReserved = false) : context.Traces graphs where
  toHasGraphs := EvaluationContext.hasGraphs_of_names (fun g => by rw [hcontext]; rfl) hnodup
    hunreserved
  gives {p xs items s x t} h hs hx := by
    rw [hcontext] at h
    by_cases hnames : ∃ g, p = .graph (.var g) (.bgp [])
    · obtain ⟨g, rfl⟩ := hnames
      obtain ⟨rfl, rfl⟩ := EngineAnswer.solutions.inj (Except.ok.inj h)
      obtain ⟨i, hi, hrow⟩ := List.mem_map.mp hs
      obtain rfl := Except.ok.inj hrow
      rw [Solution.mapping_graphRow, Mapping.set_apply] at hx
      split at hx
      · rename_i hxg
        obtain rfl := Option.some.inj hx
        simp [Pattern.gives, hxg, hi]
      · cases hx
    · have hother : (engine.tracing graphs).answer context.store (context.query .select p) =
          (engine.answer context.store (context.query .select p)).map (.given graphs p) := by
        unfold tracing
        dsimp only [EvaluationContext.query]
        split
        · exact absurd ⟨_, rfl⟩ hnames
        · rfl
      exact EngineAnswer.gives_of_given (hother.symm.trans h) hs hx

end SparqlBind
