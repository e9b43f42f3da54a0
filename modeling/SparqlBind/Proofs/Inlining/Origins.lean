import SparqlBind.Proofs.Inlining.Functions
import SparqlBind.Proofs.Semantics.Origins

/-!
# The graph variable in inlined rows

Under `GRAPH ?g` the triple patterns that are left to the engine say which graph a row comes from.
Where nothing else sets the variable this stays true of the rows of the whole: what `?g` is bound to
is the name of a graph. Nothing is assumed of expressions and aggregates.
-/

namespace SparqlBind

variable {context : EvaluationContext} {graphs : List Term} {g : Variable}
variable {name : Option NamePattern} {functions : ScalarFunctions}

/-- Whether a pattern under the name stands in the graph `g`. -/
def Pattern.standsIn (g : Variable) : Option NamePattern → Bool
  | some (.var y) => g == y
  | _ => false

/-- What `g` is bound to in rows of the pattern that are read back is the name of a graph. -/
def Pattern.NamesGraphs (graphs : List Term) (g : Variable) (p : Pattern) : Prop :=
  ∀ t, p.gives graphs g t false = true → Skolem.decode t ∈ graphs

/-- What `g` is bound to in the rows is the name of a graph. -/
def Table.NamesGraphs (graphs : List Term) (g : Variable) (t : Table) : Prop :=
  ∀ b ∈ t.rows, ∀ i, b.mapping g = some i → i ∈ graphs

namespace Pattern

variable {p : Pattern}

theorem NamesGraphs.extend {x : Variable} {e : Expr} (hx : g ≠ x) (h : p.NamesGraphs graphs g) :
    (extend p x e).NamesGraphs graphs g := by
  intro t ht
  refine h t ((Bool.or_eq_true_iff.mp ht).resolve_left ?_)
  simpa using hx

theorem NamesGraphs.project (xs : List Variable) (h : p.NamesGraphs graphs g) :
    (project p xs).NamesGraphs graphs g :=
  fun t ht => h t (Bool.and_eq_true_iff.mp ht).2

theorem NamesGraphs.group (keys : List Variable) {aggregates : List Aggregate}
    (ha : g ∉ aggregates.map Aggregate.target) (h : p.NamesGraphs graphs g) :
    (group p keys aggregates).NamesGraphs graphs g := by
  intro t ht
  rcases Bool.or_eq_true_iff.mp ht with ht | ht
  · exact absurd (List.contains_iff_mem.mp ht) ha
  · exact h t (Bool.and_eq_true_iff.mp ht).2

/-- A part that is left to the engine, in its graph. -/
theorem namesGraphs_inGraph (hgraphs : ∀ t ∈ graphs, t.isReserved = false)
    (hp : p.reserves g (standsIn g name) = true) :
    (Inlined.inGraph name p).NamesGraphs graphs g := by
  intro t ht
  have hmem : t ∈ graphs := by
    rcases name with _ | ⟨i⟩ | ⟨y⟩
    · exact mem_of_gives hp ht
    · exact mem_of_gives hp ht
    · rcases Bool.or_eq_true_iff.mp ht with ht | ht
      · exact List.contains_iff_mem.mp (Bool.and_eq_true_iff.mp ht).2
      · exact mem_of_gives hp ht
  rwa [Skolem.decode_of_not_isReserved (hgraphs t hmem)]

end Pattern

namespace Table

variable {s t : Table}

theorem NamesGraphs.toPattern (hgraphs : ∀ t ∈ graphs, t.isReserved = false)
    (h : t.NamesGraphs graphs g) : t.toPattern.NamesGraphs graphs g := by
  intro u hu
  obtain ⟨cells, hcells, hcell⟩ := List.any_eq_true.mp hu
  obtain ⟨b, hb, rfl⟩ := List.mem_map.mp hcells
  have hrow := beq_iff_eq.mp hcell
  rw [ofCells_row_apply] at hrow
  split at hrow
  · obtain ⟨i, hi, rfl⟩ := Option.map_eq_some_iff.mp hrow
    have hmem : i ∈ graphs := h b hb i hi
    rwa [Skolem.decode_encode (hgraphs i hmem)]
  · cases hrow

/-- A row put together from two rows takes its graph from one of them. -/
theorem NamesGraphs.both (hs : s.NamesGraphs graphs g) (ht : t.NamesGraphs graphs g)
    (hd : DistinctVars t.rows) {rows : List Binding} {xs : List Variable}
    (h : ∀ b ∈ rows, b ∈ s.rows ∨ b ∈ t.rows ∨ ∃ l ∈ s.rows, ∃ r ∈ t.rows, b = l.merge r) :
    NamesGraphs graphs g ⟨xs, rows⟩ := by
  intro b hb i hi
  rcases h b hb with hl | hr | ⟨l, hl, r, hr, rfl⟩
  · exact hs b hl i hi
  · exact ht b hr i hi
  · rw [Binding.mapping_merge (hd r hr)] at hi
    rcases Option.or_eq_some_iff.mp hi with hi | ⟨_, hi⟩
    · exact ht r hr i hi
    · exact hs l hl i hi

end Table

namespace EvaluationContext

theorem Traces.namesGraphs_rows (h : context.Traces graphs) {p : Pattern} {xs : List Variable}
    {rows : List Binding} (hp : p.NamesGraphs graphs g)
    (hrows : Evaluation.Yields (context.rows p) rows) :
    Table.NamesGraphs graphs g ⟨xs, rows⟩ := by
  intro b hb i hi
  obtain ⟨t, ht, rfl⟩ := h.gives_of_yields hrows hb hi
  exact hp t ht

end EvaluationContext

/-! ## Steps -/

namespace Inlined

variable (hc : context.Traces graphs) {i r : Inlined} {p : Pattern} {t : Table}
include hc

theorem namesGraphs_evaluate (hp : p.reserves g (Pattern.standsIn g name) = true)
    (hi : Evaluation.Yields
      ((ExtensionEvaluator.mk (.ofScalars functions)).inlinePattern context name p) i)
    (hnames : i.Satisfies (Table.NamesGraphs graphs g))
    (ht : Evaluation.Yields (i.evaluate context name) t) : t.NamesGraphs graphs g := by
  cases i with
  | solutions u => exact Evaluation.yields_pure_iff.mp ht ▸ hnames
  | pattern q =>
    -- what is left to the engine is the pattern it comes from, so what was known of `p` holds
    obtain ⟨rfl, _⟩ := ExtensionEvaluator.faithful_inlinePattern hi
    obtain ⟨rows, hrows, rfl⟩ := yields_evaluate_pattern_iff.mp ht
    exact hc.namesGraphs_rows (Pattern.namesGraphs_inGraph hc.unreserved hp) hrows

theorem namesGraphs_apply {operator : Pattern → Pattern}
    (hop : ∀ q : Pattern, q.NamesGraphs graphs g → (operator q).NamesGraphs graphs g)
    (hi : i.Satisfies (Table.NamesGraphs graphs g))
    (h : Evaluation.Yields (i.apply context operator) r) :
    r.Satisfies (Table.NamesGraphs graphs g) := by
  rcases yields_apply h with ⟨q, rfl, rfl⟩ | ⟨t, rows, rfl, hrows, rfl⟩
  · trivial
  · exact hc.namesGraphs_rows (hop _ (Table.NamesGraphs.toPattern hc.unreserved hi)) hrows

theorem namesGraphs_combine {operator : Pattern → Pattern → Pattern}
    {tables : Table → Table → Evaluation Table} {q : Pattern} {j : Inlined}
    (hp : p.reserves g (Pattern.standsIn g name) = true)
    (hq : q.reserves g (Pattern.standsIn g name) = true)
    (hi : Evaluation.Yields
      ((ExtensionEvaluator.mk (.ofScalars functions)).inlinePattern context name p) i)
    (hj : Evaluation.Yields
      ((ExtensionEvaluator.mk (.ofScalars functions)).inlinePattern context name q) j)
    (hleft : i.Satisfies (Table.NamesGraphs graphs g))
    (hright : j.Satisfies (Table.NamesGraphs graphs g))
    (htables : ∀ {s t u : Table}, s.NamesGraphs graphs g → t.NamesGraphs graphs g →
      DistinctVars t.rows → Evaluation.Yields (tables s t) u → u.NamesGraphs graphs g)
    (h : Evaluation.Yields (combine context name operator tables i j) r) :
    r.Satisfies (Table.NamesGraphs graphs g) := by
  rcases yields_combine h with ⟨_, _, _, _, rfl⟩ | ⟨_, s, t, u, hs, ht, hu, rfl⟩
  · trivial
  · have hdistinct : DistinctVars t.rows :=
      ExtensionEvaluator.invariant_distinctVars.evaluated hj ht
    exact htables (namesGraphs_evaluate hc hp hi hleft hs) (namesGraphs_evaluate hc hq hj hright ht)
      hdistinct hu

theorem namesGraphs_named {n : NamePattern} (hi : i.Satisfies (Table.NamesGraphs graphs g))
    (h : Evaluation.Yields (i.named context n) r) : r.Satisfies (Table.NamesGraphs graphs g) := by
  rcases yields_named h with ⟨q, rfl, rfl⟩ | ⟨t, rfl, rfl | ⟨u, hu, rfl⟩⟩
  · trivial
  · exact hi
  -- the names are the rows of an empty pattern under `n`, a part like any other
  · have hempty : Evaluation.Yields ((ExtensionEvaluator.mk (.ofScalars [])).inlinePattern context
        (some n) (.bgp [])) (.pattern (.bgp [])) := Evaluation.yields_pure_iff.mpr rfl
    have hreserves : (Pattern.bgp []).reserves g (Pattern.standsIn g (some n)) = true :=
      Pattern.reserves_of_notMem List.not_mem_nil _
    have hnames : u.NamesGraphs graphs g := namesGraphs_evaluate hc hreserves hempty trivial hu
    have hdistinct : DistinctVars u.rows :=
      ExtensionEvaluator.invariant_distinctVars.evaluated hempty hu
    exact Table.NamesGraphs.both hi hnames hdistinct fun _ hb => .inr (.inr (Join.mem_join hb))

theorem namesGraphs_extendBuiltIn {x : Variable} {e : Expr} (hx : g ≠ x)
    (hi : i.Satisfies (Table.NamesGraphs graphs g))
    (h : Evaluation.Yields (i.extendBuiltIn context name x e) r) :
    r.Satisfies (Table.NamesGraphs graphs g) := by
  rcases yields_extendBuiltIn h with ⟨q, rfl, rfl⟩ | ⟨t, rows, rfl, hrows, _, rfl⟩
  · trivial
  · have htable : t.toPattern.NamesGraphs graphs g :=
      Table.NamesGraphs.toPattern hc.unreserved hi
    exact hc.namesGraphs_rows (htable.extend hx) hrows

omit hc in
theorem namesGraphs_call {x : Variable} {f : Iri} {arguments : List Expr} {xs : List Variable}
    {rows : List Binding} (hx : g ≠ x) (ht : t.NamesGraphs graphs g)
    (h : Evaluation.Yields ((ExtensionEvaluator.mk (.ofScalars functions)).extendSolutions context
      ⟨p, x, .functionCall f arguments⟩ (t.rows.map .ok)) rows) :
    Table.NamesGraphs graphs g ⟨xs, rows⟩ := by
  intro c hc i hi
  obtain ⟨b, hb, u, rfl⟩ := ExtensionEvaluator.yields_extendSolutions h c hc
  rw [Binding.mapping_set, Mapping.set_apply, if_neg hx] at hi
  exact ht b hb i hi

end Inlined

namespace ExtensionEvaluator

/-- A pattern in which nothing sets `g` is inlined to rows that bind it to names of graphs only. -/
theorem namesGraphs_inlinePattern (hc : context.Traces graphs) {p : Pattern}
    (hp : p.reserves g (Pattern.standsIn g name) = true) {r : Inlined}
    (h : Evaluation.Yields
      ((ExtensionEvaluator.mk (.ofScalars functions)).inlinePattern context name p) r) :
    r.Satisfies (Table.NamesGraphs graphs g) := by
  -- on the pattern, for every name around it: a `GRAPH` below changes which variable is the graph's
  induction p generalizing name r with
  | bgp _ | path _ _ _ | values _ _ | lateral _ _ _ _ | service _ _ _ _ =>
    exact Evaluation.yields_pure_iff.mp h ▸ trivial
  | join l r ihl ihr =>
    obtain ⟨hl, hr⟩ := Bool.and_eq_true_iff.mp hp
    obtain ⟨i, hi, h⟩ := Evaluation.yields_bind_iff.mp h
    obtain ⟨j, hj, h⟩ := Evaluation.yields_bind_iff.mp h
    refine Inlined.namesGraphs_combine hc hl hr hi hj (ihl hl hi) (ihr hr hj) ?_ h
    intro s t u hs ht hd hu
    obtain rfl := Evaluation.yields_pure_iff.mp hu
    exact hs.both ht hd fun _ hb => .inr (.inr (Join.mem_join hb))
  | leftJoin l r e ihl ihr =>
    obtain ⟨hl, hr⟩ := Bool.and_eq_true_iff.mp hp
    obtain ⟨i, hi, h⟩ := Evaluation.yields_bind_iff.mp h
    obtain ⟨j, hj, h⟩ := Evaluation.yields_bind_iff.mp h
    refine Inlined.namesGraphs_combine hc hl hr hi hj (ihl hl hi) (ihr hr hj) ?_ h
    intro s t u hs ht hd hu
    obtain ⟨rows, hrows, hu⟩ := Evaluation.yields_bind_iff.mp hu
    obtain rfl := Evaluation.yields_pure_iff.mp hu
    exact hs.both ht hd fun b hb => (Join.mem_leftJoin hrows b hb).imp id .inr
  | union l r ihl ihr =>
    obtain ⟨hl, hr⟩ := Bool.and_eq_true_iff.mp hp
    obtain ⟨i, hi, h⟩ := Evaluation.yields_bind_iff.mp h
    obtain ⟨j, hj, h⟩ := Evaluation.yields_bind_iff.mp h
    refine Inlined.namesGraphs_combine hc hl hr hi hj (ihl hl hi) (ihr hr hj) ?_ h
    intro s t u hs ht hd hu
    obtain rfl := Evaluation.yields_pure_iff.mp hu
    exact hs.both ht hd fun _ hb => (List.mem_append.mp hb).imp id .inl
  | minus l r ihl ihr =>
    have hl : l.reserves g (Pattern.standsIn g name) = true := hp
    obtain ⟨i, hi, h⟩ := Evaluation.yields_bind_iff.mp h
    obtain ⟨j, hj, h⟩ := Evaluation.yields_bind_iff.mp h
    rcases Inlined.yields_combine h with ⟨_, _, _, _, rfl⟩ | ⟨_, s, t, u, hs, _, hu, rfl⟩
    · trivial
    · have hleft := Inlined.namesGraphs_evaluate hc hl hi (ihl hl hi) hs
      obtain rfl := Evaluation.yields_pure_iff.mp hu
      exact fun b hb => hleft b (List.mem_filter.mp hb).1
  | graph n p ih =>
    obtain ⟨i, hi, h⟩ := Evaluation.yields_bind_iff.mp h
    have hp' : p.reserves g (Pattern.standsIn g (some n)) = true := by
      cases n with
      | iri _ => exact hp
      | var y => exact hp
    exact Inlined.namesGraphs_named hc (ih hp' hi) h
  | extend p x e ih =>
    obtain ⟨hx, hp⟩ := Bool.and_eq_true_iff.mp hp
    rw [inlinePattern] at h
    obtain ⟨i, hi, h⟩ := Evaluation.yields_bind_iff.mp h
    cases he : BindExpression.ofExpr e with
    | functionCall f arguments =>
      simp only [he] at h
      obtain ⟨_, t, rows, ht, hrows, rfl⟩ := yields_callFunction h
      have hinner := Inlined.namesGraphs_evaluate hc hp hi (ih hp hi) ht
      exact Inlined.namesGraphs_call (bne_iff_ne.mp hx) hinner hrows
    | builtIn e' =>
      simp only [he] at h
      exact Inlined.namesGraphs_extendBuiltIn hc (bne_iff_ne.mp hx) (ih hp hi) h
  | project p xs ih =>
    obtain ⟨i, hi, h⟩ := Evaluation.yields_bind_iff.mp h
    exact Inlined.namesGraphs_apply hc (fun q hq => hq.project _) (ih hp hi) h
  | group p keys aggregates ih =>
    obtain ⟨ha, hp⟩ := Bool.and_eq_true_iff.mp hp
    obtain ⟨i, hi, h⟩ := Evaluation.yields_bind_iff.mp h
    have ha' : g ∉ aggregates.map Aggregate.target := by simpa using ha
    exact Inlined.namesGraphs_apply hc (fun q hq => hq.group _ ha') (ih hp hi) h
  | filter _ _ ih | orderBy _ _ ih | distinct _ ih | reduced _ ih | slice _ _ _ ih =>
    obtain ⟨i, hi, h⟩ := Evaluation.yields_bind_iff.mp h
    refine Inlined.namesGraphs_apply hc ?_ (ih hp hi) h
    intro q hq
    exact hq

end ExtensionEvaluator

end SparqlBind
