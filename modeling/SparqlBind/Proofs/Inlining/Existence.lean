import SparqlBind.Proofs.Inlining.Functions
import SparqlBind.Proofs.Inlining.Graphs
import SparqlBind.Proofs.Semantics.Existence

/-!
# `EXISTS` under a graph name

Once the rows of a part are evaluated, an operator above them is put to the engine as a query about
a table, without the graph that the part stood in. The `EXISTS` of a condition, of a built-in `BIND`
or of an argument then looks into the default graph, wherever the rows came from.
-/

noncomputable section

open scoped Classical

namespace SparqlBind

/-- No row has a variable twice, or a term that would look different in a table. -/
structure Table.Ground (t : Table) : Prop where
  distinctVars : DistinctVars t.rows
  ground : ∀ b ∈ t.rows, b.mapping.Ground

namespace ExtensionEvaluator

/-- Over evaluated rows of parts in the graph, the operators give the expressions with known
functions the values of the semantics. A `BIND` and a call give values that are not read as blank
nodes, to a target that is not bound before. -/
structure OperatorsFollow (ev : ExtensionEvaluator) (context : EvaluationContext)
    (graph : Option NamePattern) (sem : Semantics) : Prop where
  filter : ∀ {p : Pattern} {t : Table} {e : Expr}, e.isKnown sem.known = true →
    p.extensionCalls ≠ [] → ev.evaluatePattern context graph p = pure t → t.Ground →
    ∃ u, ev.inlinePattern context graph (.filter e p) = pure (.solutions u) ∧
      Bag.ofRows u.rows = (Bag.ofRows t.rows).select (sem.holds e)
  leftJoin : ∀ {l r : Pattern} {s t : Table} {e : Expr}, e.isKnown sem.known = true →
    sem.Ignores Join.rowVariable e → l.extensionCalls ++ r.extensionCalls ≠ [] →
    ev.evaluatePattern context graph l = pure s → s.Ground →
    ev.evaluatePattern context graph r = pure t → t.Ground →
    ∃ u, ev.inlinePattern context graph (.leftJoin l r (some e)) = pure (.solutions u) ∧
      Bag.ofRows u.rows = (Bag.ofRows s.rows).leftJoin (sem.holds e) (Bag.ofRows t.rows)
  builtIn : ∀ {p : Pattern} {t : Table} {x : Variable} {e : Expr}, e.isKnown sem.known = true →
    BindExpression.ofExpr e = .builtIn e → e.isVar = false → p.extensionCalls ≠ [] →
    ev.evaluatePattern context graph p = pure t → t.Ground →
    (∀ μ ∈ Bag.ofRows t.rows, μ x = none ∧ ∀ v ∈ sem.value e μ, v.isReserved = false) →
    Evaluation.Agrees (ev.inlinePattern context graph (.extend p x e))
      ((Bag.ofRows t.rows).extend? x (sem.value e)) fun i B =>
        ∃ u, i = .solutions u ∧ Bag.ofRows u.rows = B
  call : ∀ {p : Pattern} {t : Table} {x : Variable} {e : Expr} {i : Iri} {arguments : List Expr}
    {f : ScalarFunction}, BindExpression.ofExpr e = .functionCall i arguments →
    ev.registry.lookup i = some f.toExtension →
    (∀ a ∈ arguments, a.isKnown sem.known = true) →
    ev.evaluatePattern context graph p = pure t → t.Ground →
    (∀ μ ∈ Bag.ofRows t.rows, μ EvaluationContext.valueVariable = none ∧
      ∀ a ∈ arguments, ∀ v ∈ sem.value a μ, v.isReserved = false) →
    Evaluation.Agrees (ev.inlinePattern context graph (.extend p x e))
      ((Bag.ofRows t.rows).extend? x fun μ => (sem.arguments? arguments μ).bind f.result?) fun i B =>
        ∃ u, i = .solutions u ∧ Bag.ofRows u.rows = B

variable {ev : ExtensionEvaluator} {context : EvaluationContext} {graph : Option NamePattern}

theorem represents_of_evaluatePattern (hengine : context.engine.Tabular) {p : Pattern} {t : Table}
    (h : ev.evaluatePattern context graph p = pure t) (ht : t.Ground) :
    t.Represents (Bag.ofRows t.rows) :=
  ⟨(invariant_covers hengine).of_evaluatePattern h, ht.distinctVars, rfl⟩

theorem map_decode_value {sem : Semantics} {e : Expr} {μ : Mapping} (hμ : μ.Ground)
    (h : ∀ v ∈ sem.value e μ, v.isReserved = false) :
    (sem.value e μ.presented).map Skolem.decode = sem.value e μ := by
  rw [hμ.presented_eq]
  cases hv : sem.value e μ with
  | none => rfl
  | some v => exact congrArg some (Skolem.decode_of_not_isReserved (h v hv))

/-- Whatever graph the rows come from, the operators follow the semantics of the default graph. -/
theorem operatorsFollow_initial {sem : GraphSemantics} (hstarts : context.StartsIn sem)
    (hengine : context.engine.Tabular) (hd : context.deadline = none)
    (graph : Option NamePattern) : ev.OperatorsFollow context graph sem.initial where
  filter {p t e} he hcalls hp ht := by
    have hground : ∀ μ ∈ Bag.ofRows t.rows, μ.Ground := Bag.forall_mem_ofRows.mpr ht.ground
    obtain ⟨u, hu, hrep⟩ := (represents_of_evaluatePattern hengine hp ht).filter hd (hstarts e he)
      (fun μ hμ => (hground μ hμ).unreserved)
      fun μ hμ => by rw [(hground μ hμ).presented_eq]
    refine ⟨u, ?_, hrep.rows⟩
    rw [inlinePattern, inlinePattern_eq_of_evaluatePattern hcalls hp, pure_bind, hu]
  leftJoin {l r s t e} he hignores hcalls hl hs hr ht := by
    have hleft : ∀ μ ∈ Bag.ofRows s.rows, μ.Ground := Bag.forall_mem_ofRows.mpr hs.ground
    have hright : ∀ μ ∈ Bag.ofRows t.rows, μ.Ground := Bag.forall_mem_ofRows.mpr ht.ground
    -- the condition is asked on merged rows, which a variable of its own numbers
    have hevaluates : ∀ c ∈ some e, context.Evaluates sem.initial c := by
      rintro c ⟨⟩
      exact hstarts e he
    have hrow : ∀ c ∈ some e, sem.initial.Ignores Join.rowVariable c := by
      rintro c ⟨⟩
      exact hignores
    obtain ⟨rows, hrows, hrep⟩ := (represents_of_evaluatePattern hengine hl hs).leftJoin hd
      hevaluates hrow
      (fun μ hμ ν hν _ => by rw [((hleft μ hμ).merge (hright ν hν)).presented_eq])
      (represents_of_evaluatePattern hengine hr ht)
    refine ⟨⟨unionVariables s.vars t.vars, rows⟩, ?_, hrep.rows⟩
    rw [inlinePattern, combine_eq_of_evaluatePattern hcalls hl hr, hrows, pure_bind, pure_bind]
  builtIn {p t x e} he hbuiltIn hvar hcalls hp ht hrows := by
    have hground : ∀ μ ∈ Bag.ofRows t.rows, μ.Ground := Bag.forall_mem_ofRows.mpr ht.ground
    have hextend : Evaluation.Agrees ((Inlined.solutions t).extendBuiltIn context graph x e)
        (sem.initial.bind? [] x (Bag.ofRows t.rows) (.builtIn e))
        fun i B => ∃ u, i = .solutions u ∧ u.Represents B :=
      (represents_of_evaluatePattern hengine hp ht).extendBuiltIn hd (hstarts e he)
        (fun μ hμ => (hground μ hμ).unreserved)
        (fun μ hμ => map_decode_value (hground μ hμ) (hrows μ hμ).2)
        fun _ μ hμ => (hrows μ hμ).1
    rw [Semantics.bind?_builtIn, if_neg (by simp [hvar])] at hextend
    rw [inlinePattern, inlinePattern_eq_of_evaluatePattern hcalls hp, pure_bind]
    simp only [hbuiltIn]
    refine hextend.imp ?_
    rintro _ B ⟨u, rfl, hu⟩
    exact ⟨u, rfl, hu.rows⟩
  call {p t x e i arguments f} hcall hf harguments hp ht hrows := by
    have hrow : ∀ b ∈ t.rows, b.mapping ∈ Bag.ofRows t.rows := fun b hb =>
      Bag.mem_ofRows.mpr ⟨b, hb, rfl⟩
    have hcallable : ∀ b ∈ t.rows,
        ScalarFunction.Callable context sem.initial arguments b := fun b hb =>
      { nodup := ht.distinctVars b hb
        free := (hrows _ (hrow b hb)).1
        evaluates := fun a ha _ => hstarts a (harguments a ha)
        insensitive := fun a ha _ =>
          map_decode_value (ht.ground b hb) ((hrows _ (hrow b hb)).2 a ha) }
    -- a call evaluates its part whether there are calls below or not
    obtain ⟨inlined, hinlined, heval⟩ := exists_of_evaluatePattern hp
    rw [inlinePattern, hinlined, pure_bind]
    simp only [hcall]
    unfold callFunction
    rw [heval, pure_bind]
    refine (agrees_extendSolutions (p := p) (x := x) hd hf hcallable).map ?_
    rintro rows B _ ⟨hbag, _⟩
    exact ⟨_, rfl, hbag⟩

/-- The first part is about all operators over evaluated rows, the second about the `EXISTS` of a
filter and about when it makes a difference that the graph is lost. -/
theorem inlinePattern_exists {sem : GraphSemantics} (hstarts : context.StartsIn sem)
    (hengine : context.engine.Tabular) (hd : context.deadline = none)
    (graph : Option NamePattern) :
    ev.OperatorsFollow context graph sem.initial ∧
    ∀ {q : Pattern} {rows : Option Term → Bag}, sem.Seeks q rows →
      (∀ μ, sem.initial.holds (.existence q) μ = true ↔ ∃ ν ∈ rows none, μ.Compatible ν) ∧
      ∀ {p : Pattern} {t : Table}, p.extensionCalls ≠ [] →
        ev.evaluatePattern context graph p = pure t → t.Ground →
        ∃ u, ev.inlinePattern context graph (.filter (.existence q) p) = pure (.solutions u) ∧
          Bag.ofRows u.rows =
            (Bag.ofRows t.rows).filter (fun μ => ∃ ν ∈ rows none, μ.Compatible ν) ∧
          (Bag.ofRows u.rows =
              (Bag.ofRows t.rows).filter (fun μ => ∃ ν ∈ rows (μ.graphIn graph), μ.Compatible ν) ↔
            ∀ μ ∈ Bag.ofRows t.rows, (∃ ν ∈ rows none, μ.Compatible ν) ↔
              ∃ ν ∈ rows (μ.graphIn graph), μ.Compatible ν) := by
  have hfollow : ev.OperatorsFollow context graph sem.initial :=
    operatorsFollow_initial hstarts hengine hd graph
  refine ⟨hfollow, fun {q rows} hq => ⟨hq.holds_iff _, fun {p t} hcalls hp ht => ?_⟩⟩
  obtain ⟨u, hu, hrows⟩ := hfollow.filter (e := .existence q) rfl hcalls hp ht
  have hfilter : Bag.ofRows u.rows =
      (Bag.ofRows t.rows).filter fun μ => ∃ ν ∈ rows none, μ.Compatible ν := by
    rw [hrows]
    exact Multiset.filter_congr fun μ _ => hq.holds_iff _ μ
  refine ⟨u, hu, hfilter, ?_⟩
  rw [hfilter]
  exact Bag.filter_eq_filter_iff

end ExtensionEvaluator

namespace Sample

def flag : Iri := ⟨"http://example.com/flag"⟩

/-- What has a flag. -/
def flags : Pattern := .bgp [⟨.var subject, .iri flag, .var ⟨"f"⟩⟩]

/-- Something with a name in the first graph and with a flag in another one, or in the same. -/
def flagged (graphName : Option Resource) : List Quad :=
  [named (.iri first) "v" (some (.iri first)), ⟨.iri first, flag, .literal (.plain "f"), graphName⟩]

def flagRow : Binding := ⟨[(subject, .iri first), (⟨"f"⟩, .literal (.plain "f"))]⟩

/-- The name as it is. -/
def say : Expr := .call (.custom concat) [.var object]

def nameRow : Binding := ⟨[(subject, .iri first), (object, .literal (.plain "v"))]⟩

def saidRow : Binding := nameRow.set target (.literal (.plain "v"))

def said : Table := ⟨[subject, object, target], [saidRow]⟩

theorem ground_said : said.Ground where
  distinctVars := by
    rintro b (_ | ⟨_, ⟨⟩⟩)
    decide
  ground := by
    rintro b (_ | ⟨_, ⟨⟩⟩) x t ht
    obtain ⟨before, after, hentries, _⟩ := List.lookup_eq_some_iff.mp ht
    have hmem : (x, t) ∈ saidRow.entries := hentries ▸ List.mem_append_right _ List.mem_cons_self
    have hall : ∀ e ∈ saidRow.entries, (Skolem.encode e.2).toTerm = e.2 ∧ e.2.isReserved = false := by
      decide
    exact hall _ hmem

theorem compatible_saidRow : saidRow.mapping.Compatible (flagRow.mapping.restrict flags.mentions) := by
  have hwithin : flagRow.mapping.Within (· ∈ flags.mentions) := fun _ hx =>
    Binding.get?_ne_none_iff.mp hx
  rw [hwithin.restrict_eq]
  exact (Binding.compatible_iff_mapping (by decide)).mp (by decide)

/-- The sample context with an engine that starts in the default graph. -/
def starting (quads : List Quad) : EvaluationContext :=
  { stored quads with
    engine := ((graphSemantics quads).initial.onTables (Engine.standard default "")).tabular }

end Sample

open Sample in
/-- The flag is in the default graph only, and the row of the first graph is kept for it. -/
theorem ExtensionEvaluator.inlinePattern_exists_outside :
    (semantics (flagged none)).rows (some (.iri first)) flags = 0 ∧
    evaluator.evaluatePattern (starting (flagged none)) (some (.iri first))
      (.extend names target say) = pure said ∧
    ∃ u, evaluator.inlinePattern (starting (flagged none)) (some (.iri first))
        (.filter (.existence flags) (.extend names target say)) = pure (.solutions u) ∧
      Bag.ofRows u.rows = {saidRow.mapping} := by
  have hsaid : evaluator.evaluatePattern (starting (flagged none)) (some (.iri first))
      (.extend names target say) = pure said := rfl
  have hstarts : (starting (flagged none)).StartsIn (graphSemantics (flagged none)) :=
    GraphSemantics.startsIn_onTables rfl
  have hflags : (semantics (flagged none)).rows none flags =
      {flagRow.mapping.restrict flags.mentions} := rfl
  have h := @inlinePattern_exists evaluator (starting (flagged none)) _ hstarts
    (Engine.tabular_tabular _) rfl (some (.iri first))
  obtain ⟨u, hu, hrows, _⟩ :=
    (h.2 (seeks_graphSemantics (flagged none) flags)).2 (by decide) hsaid ground_said
  refine ⟨rfl, hsaid, u, hu, ?_⟩
  have hexists : ∃ ν ∈ (semantics (flagged none)).rows none flags,
      saidRow.mapping.Compatible ν :=
    ⟨_, hflags ▸ Multiset.mem_singleton_self _, compatible_saidRow⟩
  rw [hrows]
  exact Multiset.filter_eq_self.mpr fun μ hμ => Multiset.mem_singleton.mp hμ ▸ hexists

open Sample in
/-- The flag is in the first graph, where the row comes from, and no operator finds it. -/
theorem ExtensionEvaluator.inlinePattern_exists_inside :
    (stored (flagged (some (.iri first)))).rows (.graph (.iri first) flags) = pure [flagRow] ∧
    saidRow.compatible flagRow = true ∧
    evaluator.inlinePattern (stored (flagged (some (.iri first)))) (some (.iri first))
      (.filter (.existence flags) (.extend names target say)) =
      pure (.solutions ⟨[subject, object, target], []⟩) ∧
    evaluator.inlinePattern (stored (flagged (some (.iri first)))) (some (.iri first))
      (.leftJoin names (.extend names target say) (some (.existence flags))) =
      pure (.solutions ⟨[subject, object, target], [nameRow]⟩) ∧
    evaluator.inlinePattern (stored (flagged (some (.iri first)))) (some (.iri first))
      (.extend (.extend names target say) ⟨"b"⟩ (.existence flags)) =
      pure (.solutions ⟨[⟨"b"⟩, subject, object, target],
        [saidRow.set ⟨"b"⟩ (.literal (.ofBool false))]⟩) ∧
    evaluator.inlinePattern (stored (flagged (some (.iri first)))) (some (.iri first))
      (.extend names target (.call (.custom concat) [.existence flags])) =
      pure (.solutions ⟨[subject, object, target],
        [nameRow.set target (.literal (.plain "false"))]⟩) :=
  ⟨rfl, rfl, rfl, rfl, rfl, rfl⟩

end SparqlBind

end
