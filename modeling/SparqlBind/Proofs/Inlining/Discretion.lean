import SparqlBind.Proofs.Inlining.Existence
import SparqlBind.Proofs.Inlining.Insertion

/-!
# Which expressions tell that rows were evaluated

An expression over evaluated rows has the values it has on the rows as a table holds them. These are
its values on the rows themselves where it is discreet, and a group in which all expressions are has
with one more call the rows it has without.
-/

noncomputable section

open scoped Classical

namespace SparqlBind

namespace ExtensionEvaluator

variable {context : EvaluationContext} {functions : ScalarFunctions}

/-- The first part is about expressions over evaluated rows, the next ones about the rows on which
they are not affected, and the last about a group that a call without arguments is put into. -/
theorem inlinePattern_presents_rows {sem : GraphSemantics} {s : Surroundings}
    (hstarts : context.StartsIn sem) (hstandard : sem.toSemantics = .standard s)
    (hengine : context.engine.Tabular) (hd : context.deadline = none) (name : Option NamePattern) :
    (ExtensionEvaluator.mk (.ofScalars functions)).SeesTables context name sem.initial ∧
    (∀ {e : Expr} {μ : Mapping}, sem.IsDiscreet s e μ → μ.Unreserved →
      (sem.initial.value e μ.presented).map Skolem.decode = sem.initial.value e μ ∧
        sem.initial.holds e μ.presented = sem.initial.holds e μ) ∧
    (∀ {f : BuiltIn}, Semantics.drawsOnChance f = false → (f.reveals = true ↔
      ∃ (c : FunctionContext) (vs : List Value),
        f.value? c (vs.map Value.presented) ≠ f.value? c vs)) ∧
    (∀ {q : Pattern} {rows : Option Term → Bag} {μ : Mapping}, sem.Seeks q rows →
      (∀ graph, (rows graph).Within (· ∈ q.mentions)) →
      (∀ x ∈ q.mentions, ∀ label, μ x ≠ some (.blank label)) →
      ∀ graph, sem.asks graph q μ.presented = sem.asks graph q μ) ∧
    ∀ {layers : List Layer} {p : Pattern} {x : Variable} {e : Expr} {i : Iri} {f : ScalarFunction}
      {v : Term}, BindExpression.ofExpr e = .functionCall i [] →
      functions.lookup i.text = some f → f.result? [] = some v →
      Evaluated functions context sem.initial name p →
      Layer.AllFit functions context sem.initial name x layers p →
      Spared name x (Layer.wrap layers p) →
      Evaluation.Agrees
        ((ExtensionEvaluator.mk (.ofScalars functions)).inlinePattern context name
          (Layer.wrap layers (.extend p x e)))
        (sem.initial.reference functions (sem.initial.under name) (Layer.wrap layers p))
        (Inlined.Carries x) :=
  ⟨seesTables_initial hstarts hengine hd name,
    fun he hμ => ⟨he.value_presented hstandard hμ, he.holds_presented hstandard hμ⟩,
    BuiltIn.reveals_iff,
    fun hq hrows hμ => hq.asks_presented hrows hμ,
    fun hform hf hv hp hlayers hspared =>
      Layer.agrees_wrap hd hform hf hv hp hlayers hspared⟩

end ExtensionEvaluator

namespace Sample

/-- A call without arguments. -/
def silence : Expr := .call (.custom concat) []

/-- Names after a call. -/
def silent : Pattern := .extend names target silence

def blankQuads : List Quad := [named (.blank "n") "v" none]

def blankRow : Binding := ⟨[(subject, .blank "n"), (object, .literal (.plain "v"))]⟩

def silentRow : Binding := blankRow.set target (.literal (.plain ""))

/-- A condition on the name, which is a literal. -/
def isNamed : Expr := .binary .equal (.var object) (.literal (.plain "v"))

theorem within_blankRow : blankRow.mapping.Within (· ∈ [subject, object]) := fun _ hx =>
  Binding.get?_ne_none_iff.mp hx

theorem unreserved_silentRow : (Bag.ofRows [silentRow]).Unreserved := by
  intro μ hμ
  rw [Multiset.mem_singleton.mp hμ]
  exact Binding.unreserved_mapping (by decide)

theorem ofRows_blankRow : Bag.ofRows [blankRow] = {row (.blank "n")} :=
  congrArg (fun μ => ({μ} : Bag)) within_blankRow.restrict_eq.symm

theorem reference_names : (graphSemantics blankQuads).initial.reference functions
    ((graphSemantics blankQuads).initial.under none) names = some {row (.blank "n")} := rfl

theorem isDiscreet_isNamed : (graphSemantics blankQuads).IsDiscreet
    ⟨.ofStore ⟨blankQuads⟩ none, default⟩ isNamed (row (.blank "n")) where
  alike _ hq := absurd hq List.not_mem_nil
  answered := ⟨rfl, trivial, rfl⟩

theorem allFit_isNamed : Layer.AllFit functions (starting blankQuads)
    (graphSemantics blankQuads).initial none target [.filter isNamed] names := by
  have hstarts : (starting blankQuads).StartsIn (graphSemantics blankQuads) :=
    GraphSemantics.startsIn_onTables rfl
  have hrow {μ : Mapping} (hμ : (graphSemantics blankQuads).initial.RowOf functions
      ((graphSemantics blankQuads).initial.under none) names μ) : μ = row (.blank "n") :=
    (Semantics.rowOf_singleton reference_names).mp hμ
  have hignores (x : Variable) (hx : x ∉ isNamed.vars) : ∀ e ∈ (Layer.filter isNamed).exprs,
      (graphSemantics blankQuads).initial.Ignores x e := by
    intro e he
    obtain rfl := List.mem_singleton.mp he
    exact Semantics.ignores_of_isPlain _ rfl hx
  refine ⟨?_, trivial⟩
  exact
    { aside := fun _ hr => absurd hr List.not_mem_nil
      unreserved := fun q hq μ hμ => by
        obtain rfl := List.mem_singleton.mp hq
        exact hrow hμ ▸ unreserved_row rfl
      insensitive := fun μ hμ => by
        rw [hrow hμ]
        exact isDiscreet_isNamed.holds_presented rfl (unreserved_row rfl)
      evaluates := fun e he => List.mem_singleton.mp he ▸ hstarts isNamed rfl
      ignores := hignores target (by decide)
      ignoresRow := hignores Join.rowVariable (by decide)
      target := fun _ _ h => nomatch h }

end Sample

open Sample in
theorem ExtensionEvaluator.inlinePattern_presents_rows_named :
    (starting blankQuads).StartsIn (graphSemantics blankQuads) ∧
    (graphSemantics blankQuads).toSemantics = .standard ⟨.ofStore ⟨blankQuads⟩ none, default⟩ ∧
    (starting blankQuads).engine.Tabular ∧ (starting blankQuads).deadline = none ∧
    (graphSemantics blankQuads).initial.holds isNamed (row (.blank "n")).presented = true ∧
    (∃ u, evaluator.inlinePattern (starting blankQuads) none (.filter isNamed silent) =
        pure (.solutions u) ∧ Bag.ofRows u.rows = {silentRow.mapping}) ∧
    ∃ i, evaluator.inlinePattern (starting blankQuads) none (.filter isNamed silent) = pure i ∧
      i.Carries target {row (.blank "n")} := by
  have hstarts : (starting blankQuads).StartsIn (graphSemantics blankQuads) :=
    GraphSemantics.startsIn_onTables rfl
  have h := @inlinePattern_presents_rows (starting blankQuads) functions _ _ hstarts rfl
    (Engine.tabular_tabular _) rfl none
  obtain ⟨hsees, hdiscreet, _, _, hinserted⟩ := h
  have hholds : (graphSemantics blankQuads).initial.holds isNamed (row (.blank "n")).presented =
      true := (hdiscreet isDiscreet_isNamed (unreserved_row rfl)).2.trans rfl
  have hsilent : evaluator.evaluatePattern (starting blankQuads) none silent =
      pure ⟨[subject, object, target], [silentRow]⟩ := rfl
  obtain ⟨u, hu, hrows⟩ := hsees.filter (e := isNamed) rfl (by decide) hsilent
    unreserved_silentRow
  have hnames : Evaluated functions (starting blankQuads) (graphSemantics blankQuads).initial none
      names := by
    have htable : evaluator.evaluatePattern (starting blankQuads) none names =
        pure ⟨[subject, object], [blankRow]⟩ := rfl
    refine ⟨_, _, reference_names, htable, ?_⟩
    exact ofRows_blankRow ▸ represents_of_evaluate (Engine.tabular_tabular _) htable
  have hcarries := @hinserted [.filter isNamed] names target silence concat
    ⟨concat, ScalarFunction.concat⟩ (.literal (.plain "")) rfl rfl rfl hnames allFit_isNamed
    ⟨by decide, by decide, by decide, by decide, by decide⟩
  have hreference : (graphSemantics blankQuads).initial.reference functions
      ((graphSemantics blankQuads).initial.under none) (.filter isNamed names) =
        some {row (.blank "n")} := by
    rw [Semantics.reference, reference_names, Option.bind_some]
    exact congrArg some (Bag.select_singleton rfl)
  refine ⟨hstarts, rfl, Engine.tabular_tabular _, rfl, hholds, ⟨u, hu, ?_⟩, ?_⟩
  · rw [hrows]
    exact Bag.select_singleton rfl
  · have hgroup : Evaluation.Agrees (evaluator.inlinePattern (starting blankQuads) none
        (.filter isNamed silent)) _ (Inlined.Carries target) := hcarries
    rwa [Layer.wrap, List.foldr_cons, List.foldr_nil, Layer.around, hreference] at hgroup

open Sample in
theorem ExtensionEvaluator.evaluatePattern_reveals_blank :
    evaluator.evaluatePattern (stored blankQuads) none
      (.filter (.call (.builtIn .isBlank) [.var subject]) names) =
      pure ⟨[subject, object], [blankRow]⟩ ∧
    evaluator.evaluatePattern (stored blankQuads) none
      (.filter (.call (.builtIn .isBlank) [.var subject]) silent) =
      pure ⟨[subject, object, target], []⟩ ∧
    evaluator.evaluatePattern (stored blankQuads) none
      (.filter (.existence names) names) = pure ⟨[subject, object], [blankRow]⟩ ∧
    evaluator.evaluatePattern (stored blankQuads) none
      (.filter (.existence names) silent) = pure ⟨[subject, object, target], []⟩ ∧
    evaluator.evaluatePattern (stored blankQuads) none
      (.extend names ⟨"y"⟩ (.call (.builtIn .str) [.var subject])) = throw (.expression ⟨"y"⟩) ∧
    evaluator.evaluatePattern (stored blankQuads) none
      (.extend silent ⟨"y"⟩ (.call (.builtIn .str) [.var subject])) =
      pure ⟨[⟨"y"⟩, subject, object, target],
        [silentRow.set ⟨"y"⟩ (.literal (.plain reserved.text))]⟩ ∧
    evaluator.evaluatePattern (stored blankQuads) none
      (.leftJoin (.values [⟨"a"⟩] [[some (text "a")]]) names
        (some (.call (.builtIn .isIri) [.var subject]))) =
      pure ⟨[⟨"a"⟩, subject, object], [⟨[(⟨"a"⟩, .literal (.plain "a"))]⟩]⟩ ∧
    evaluator.evaluatePattern (stored blankQuads) none
      (.leftJoin (.values [⟨"a"⟩] [[some (text "a")]]) silent
        (some (.call (.builtIn .isIri) [.var subject]))) =
      pure ⟨[⟨"a"⟩, subject, object, target],
        [⟨(⟨"a"⟩, .literal (.plain "a")) :: silentRow.entries⟩]⟩ ∧
    evaluator.evaluatePattern (stored [named (.iri reserved) "v" none,
      ⟨.blank "n", flag, .literal (.plain "f"), none⟩]) none (.join names flags) =
      pure ⟨[subject, object, ⟨"f"⟩], []⟩ ∧
    evaluator.evaluatePattern (stored [named (.iri reserved) "v" none,
      ⟨.blank "n", flag, .literal (.plain "f"), none⟩]) none (.join silent flags) =
      pure ⟨[subject, object, target, ⟨"f"⟩], [silentRow.set ⟨"f"⟩ (.literal (.plain "f"))]⟩ :=
  ⟨rfl, rfl, rfl, rfl, rfl, rfl, rfl, rfl, rfl, rfl⟩

end SparqlBind

end
