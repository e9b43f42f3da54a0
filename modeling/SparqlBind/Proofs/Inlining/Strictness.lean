import SparqlBind.Proofs.Inlining.Graphs
import SparqlBind.Proofs.Inlining.Meaning
import SparqlBind.Proofs.Semantics.Strictness

/-!
# Built-in `BIND`s are strict

A query without calls of extension functions is left as it is or refused. It is refused for the
first `BIND` with a failure that can be seen from outside of the graph it stands in, whatever becomes
of the failing solution above it. A failure is not seen when the name of the graph gets in its way.
-/

noncomputable section

open scoped Classical

namespace SparqlBind

/-- The first of the `BIND`s that is faulty decides. -/
def PlacedBind.verdict {α : Type} (faulty : PlacedBind → Prop) (bs : List PlacedBind) (a : α) :
    Except EvaluationError α :=
  match bs.find? fun b => decide (faulty b) with
  | some b => .error (.expression b.target)
  | none => .ok a

namespace PlacedBind

variable {α β : Type} {faulty : PlacedBind → Prop} {bs cs : List PlacedBind} {a a' : α} {b : β}

theorem eq_of_verdict_eq_ok (h : verdict faulty bs a = .ok a') : a' = a := by
  unfold verdict at h
  split at h
  · cases h
  · exact (Except.ok.inj h).symm

theorem verdict_append :
    verdict faulty (bs ++ cs) b = (verdict faulty bs a >>= fun _ => verdict faulty cs b) := by
  unfold verdict
  rw [List.find?_append]
  cases bs.find? fun b => decide (faulty b) with
  | some c => rfl
  | none => rfl

theorem verdict_congr {faulty' : PlacedBind → Prop} (h : ∀ c ∈ bs, faulty c ↔ faulty' c) :
    verdict faulty bs a = verdict faulty' bs a := by
  induction bs with
  | nil => rfl
  | cons c rest ih =>
    have hrest := ih fun c' hc' => h c' (List.mem_cons_of_mem _ hc')
    have hfirst : decide (faulty c) = decide (faulty' c) :=
      decide_eq_decide.mpr (h c List.mem_cons_self)
    unfold verdict at hrest ⊢
    rw [List.find?_cons, List.find?_cons, hfirst]
    cases decide (faulty' c) with
    | true => rfl
    | false => exact hrest

end PlacedBind

/-- A check comes after those of the parts. -/
theorem Evaluation.Reaches.checked {α β : Type} {faulty : PlacedBind → Prop}
    {bs cs : List PlacedBind} {a : α} {b : β} {deadline : Option Deadline} {m : Evaluation α}
    {f : α → Evaluation β} (hm : Reaches deadline m (PlacedBind.verdict faulty bs a))
    (hf : Reaches deadline (f a) (PlacedBind.verdict faulty cs b)) :
    Reaches deadline (m >>= f) (PlacedBind.verdict faulty (bs ++ cs) b) := by
  rw [PlacedBind.verdict_append]
  refine hm.bind fun a' ha' => ?_
  rw [PlacedBind.eq_of_verdict_eq_ok ha']
  exact hf

namespace EvaluationContext

/-- The engine knows whether the question about the `BIND` has a solution. -/
def Settles (context : EvaluationContext) (sem : SolutionSemantics) (b : PlacedBind) : Prop :=
  ∃ answer : Bool, context.engine.answer context.store (context.query .ask b.question) =
      .ok (.boolean answer) ∧
    (answer = true ↔ sem.rows none b.question ≠ 0)

variable {context : EvaluationContext}

theorem reaches_checkDeadline :
    Evaluation.Reaches context.deadline context.checkDeadline (.ok ()) := by
  unfold checkDeadline
  cases hd : context.deadline with
  | none => exact Evaluation.reaches_pure ()
  | some d =>
    intro e he
    obtain ⟨r, hr, he⟩ := Timed.ends_bind_iff.mp he
    cases r with
    | error e' => exact absurd hr nofun
    | ok now =>
      dsimp only [ExceptT.bindCont] at he
      split at he
      · exact .inr ⟨d, rfl, (Timed.ends_done_iff.mp he).symm⟩
      · exact .inl (Timed.ends_done_iff.mp he).symm

theorem reaches_ask {sem : SolutionSemantics} {b : PlacedBind} (h : context.Settles sem b)
    (hx : b.target ∉ b.inner.mentions) :
    Evaluation.Reaches context.deadline (context.ask b.question) (.ok (decide (b.IsSeen sem))) := by
  obtain ⟨answer, hanswer, hrows⟩ := h
  have hseen : answer = decide (b.IsSeen sem) := by
    rw [Bool.eq_iff_iff, hrows, decide_eq_true_iff]
    exact PlacedBind.question_ne_zero_iff hx
  unfold ask evaluateQuery
  rw [hanswer, bind_assoc]
  exact reaches_checkDeadline.bind_ok (hseen ▸ Evaluation.reaches_pure answer)

end EvaluationContext

namespace ExtensionEvaluator

variable {ev : ExtensionEvaluator} {context : EvaluationContext} {sem : SolutionSemantics}

/-- A `BIND` on a pattern that is left to the engine. -/
theorem reaches_extendBuiltIn {graph : Option NamePattern} {p : Pattern} {x : Variable} {e : Expr}
    (h : ∀ b ∈ (if e.isVar then [] else [⟨graph, p, x, e⟩] : List PlacedBind),
      b.target ∉ b.inner.mentions ∧ context.Settles sem b) :
    Evaluation.Reaches context.deadline ((Inlined.pattern p).extendBuiltIn context graph x e)
      (PlacedBind.verdict (·.IsSeen sem) (if e.isVar then [] else [⟨graph, p, x, e⟩])
        (.pattern (.extend p x e))) := by
  rw [Inlined.extendBuiltIn_pattern]
  cases hvar : e.isVar with
  | true => exact Evaluation.reaches_pure _
  | false =>
    rw [hvar] at h
    obtain ⟨hx, hsettles⟩ := h ⟨graph, p, x, e⟩ (List.mem_singleton.mpr rfl)
    rw [if_neg Bool.false_ne_true, if_neg Bool.false_ne_true]
    refine (EvaluationContext.reaches_ask hsettles hx).bind_ok ?_
    unfold PlacedBind.verdict
    rw [List.find?_singleton]
    cases decide (PlacedBind.IsSeen sem ⟨graph, p, x, e⟩) with
    | true => exact Evaluation.reaches_throw _
    | false => exact Evaluation.reaches_pure _

/-- The induction follows the pattern. Each operator adds no check but a `BIND`, whose check comes
after those below it. -/
theorem reaches_inlinePattern {graph : Option NamePattern} {p : Pattern}
    (hcalls : p.extensionCalls = [])
    (h : ∀ b ∈ p.checkedBinds graph, b.target ∉ b.inner.mentions ∧ context.Settles sem b) :
    Evaluation.Reaches context.deadline (ev.inlinePattern context graph p)
      (PlacedBind.verdict (·.IsSeen sem) (p.checkedBinds graph) (.pattern p)) := by
  have unary {bs : List PlacedBind} {m : Evaluation Inlined} {f : Inlined → Evaluation Inlined}
      {q r : Pattern}
      (hm : Evaluation.Reaches context.deadline m
        (PlacedBind.verdict (·.IsSeen sem) bs (.pattern q)))
      (hf : f (.pattern q) = pure (.pattern r)) :
      Evaluation.Reaches context.deadline (m >>= f)
        (PlacedBind.verdict (·.IsSeen sem) bs (.pattern r)) := by
    rw [← List.append_nil bs]
    exact hm.checked (hf ▸ Evaluation.reaches_pure _)
  induction p generalizing graph with
  | extend p x e ih =>
    obtain ⟨hp, he⟩ := List.append_eq_nil_iff.mp hcalls
    have hinner := ih hp fun b hb => h b (List.mem_append_left _ hb)
    rw [inlinePattern]
    refine hinner.checked ?_
    cases hform : BindExpression.ofExpr e with
    | functionCall f arguments => simp [hform, BindExpression.function?] at he
    | builtIn e' =>
      obtain rfl := BindExpression.eq_of_ofExpr_builtIn hform
      exact reaches_extendBuiltIn fun b hb => h b (List.mem_append_right _ hb)
  | join l r ihl ihr | leftJoin l r _ ihl ihr | minus l r ihl ihr | union l r ihl ihr =>
    obtain ⟨hl, hr⟩ := List.append_eq_nil_iff.mp hcalls
    have hleft := ihl hl fun b hb => h b (List.mem_append_left _ hb)
    have hright := ihr hr fun b hb => h b (List.mem_append_right _ hb)
    exact hleft.checked (unary hright rfl)
  | graph name p ih => exact unary (ih hcalls h) rfl
  | filter _ p ih | orderBy p _ ih | project p _ ih | distinct p ih | reduced p ih
  | slice p _ _ ih | group p _ _ ih => exact unary (ih hcalls h) rfl
  | bgp _ | path _ _ _ | values _ _ | lateral _ _ _ _ | service _ _ _ _ =>
    exact Evaluation.reaches_pure _

/-- The verdict on what can be seen, in time or too late. What is seen is a failure, and where no
graph variable gets in the way it is every failure. -/
theorem inlineQuery_strict {q : Query} (hcalls : q.pattern.extensionCalls = [])
    (htargets : ∀ b ∈ q.pattern.checkedBinds none, b.target ∉ b.inner.mentions)
    (hsettles : ∀ b ∈ q.pattern.checkedBinds none, (context.forQuery q).Settles sem b) :
    (∀ clock, (ev.inlineQuery context q).run.run clock =
        PlacedBind.verdict (·.IsSeen sem) (q.pattern.checkedBinds none) q ∨
      ∃ d ∈ context.deadline,
        (ev.inlineQuery context q).run.run clock = .error (.timeout d.limit)) ∧
    (∀ b : PlacedBind, b.IsSeen sem → b.Fails sem) ∧
    ((∀ b ∈ q.pattern.checkedBinds none, b.Apart) →
      PlacedBind.verdict (·.IsSeen sem) (q.pattern.checkedBinds none) q =
        PlacedBind.verdict (·.Fails sem) (q.pattern.checkedBinds none) q) := by
  refine ⟨fun clock => ?_, fun _ => PlacedBind.IsSeen.fails, fun hapart => ?_⟩
  · have hpattern : Evaluation.Reaches context.deadline
        (ev.inlinePattern (context.forQuery q) none q.pattern)
        (PlacedBind.verdict (·.IsSeen sem) (q.pattern.checkedBinds none) (.pattern q.pattern)) :=
      reaches_inlinePattern hcalls fun b hb => ⟨htargets b hb, hsettles b hb⟩
    have hquery : Evaluation.Reaches context.deadline (ev.inlineQuery context q)
        (PlacedBind.verdict (·.IsSeen sem) (q.pattern.checkedBinds none ++ []) q) :=
      hpattern.checked (Evaluation.reaches_pure q)
    rw [List.append_nil] at hquery
    exact hquery.run clock
  · exact PlacedBind.verdict_congr fun b hb => PlacedBind.isSeen_iff_fails (hapart b hb)

end ExtensionEvaluator

namespace Sample

/-- One more than the object, which is no number. -/
def increased : Expr := .binary .add (.literal (.ofInt 1)) (.var object)

/-- A `BIND` without failure, and one that fails in a named graph, below a filter and a slice. -/
def dropped : Pattern :=
  .join (.extend (cell object (text "v")) target (.call (.builtIn .upper) [.var object]))
    (.slice (.graph (.var graph) (.filter (.bound ⟨"y"⟩) (.extend names ⟨"y"⟩ increased))) 1 none)

/-- A `BIND` that fails and has the name of the graph for its target. -/
def masked : Pattern := .graph (.var graph) (.extend (.bgp []) graph increased)

/-- A `BIND` that fails on a solution which binds a variable with the name of the graph variable. The
selection keeps the two variables apart, but the question about the `BIND` does not. -/
def misplaced : Pattern :=
  .graph (.var graph) (.project
    (.extend (.bgp [⟨.var subject, .iri predicate, .var graph⟩]) target increased)
    [subject, target])

/-- One name, in a named graph. -/
def oneName : List Quad := [named (.iri first) "v" (some (.iri first))]

theorem mem_graphs_oneName : Term.iri first ∈ (semantics oneName).graphs := by
  have hgraphs : (semantics oneName).graphs = {Term.iri first} := rfl
  rw [hgraphs]
  exact Finset.mem_singleton_self _

end Sample

namespace Sample

/-- The `BIND`s of `dropped` that are checked. -/
def kept : PlacedBind :=
  ⟨none, cell object (text "v"), target, .call (.builtIn .upper) [.var object]⟩

def failing : PlacedBind := ⟨some (.var graph), names, ⟨"y"⟩, increased⟩

theorem not_fails_kept : ¬ kept.Fails (semantics oneName).solutions := by
  rintro ⟨g, rfl, μ, hμ, hvalue⟩
  have hrows : (semantics oneName).rows none (cell object (text "v")) =
      {cellRow object (text "v")} := rfl
  have hmem : μ ∈ (semantics oneName).rows none (cell object (text "v")) := hμ
  rw [hrows, Multiset.mem_singleton] at hmem
  subst hmem
  exact Option.some_ne_none _ hvalue

theorem fails_failing : failing.Fails (semantics oneName).solutions := by
  have hrows : (semantics oneName).rows (some (.iri first)) names = {row (.iri first)} := rfl
  refine ⟨some (.iri first), ⟨.iri first, mem_graphs_oneName, rfl⟩, row (.iri first), ?_, rfl⟩
  have hmem : row (.iri first) ∈ (semantics oneName).rows (some (.iri first)) names :=
    hrows ▸ Multiset.mem_singleton_self _
  exact hmem

end Sample

open Sample in
/-- The failure counts although no solution of the whole query has to do with it. -/
theorem ExtensionEvaluator.inlineQuery_strict_dropped :
    (select dropped).pattern.checkedBinds none = [kept, failing] ∧
    (evaluator.inlineQuery (answering oneName) (select dropped)).run.run (fun _ => default) =
      .error (.expression ⟨"y"⟩) := by
  have hsettles : ∀ b ∈ (select dropped).pattern.checkedBinds none,
      ((answering oneName).forQuery (select dropped)).Settles (semantics oneName).solutions b :=
    fun b _ => ⟨_, rfl, decide_eq_true_iff⟩
  have htargets : ∀ b ∈ [kept, failing], b.target ∉ b.inner.mentions := by decide
  have hgraph : ∀ b ∈ [kept, failing], ∀ x ∈ Pattern.graphVariables b.graph,
      x ≠ b.target ∧ x ∉ b.inner.mentions := by decide
  obtain ⟨hrun, _, hapart⟩ := @inlineQuery_strict evaluator (answering oneName) _ (select dropped)
    rfl htargets hsettles
  refine ⟨rfl, ?_⟩
  rcases hrun fun _ => default with h | ⟨d, hd, _⟩
  · have hbinds : (select dropped).pattern.checkedBinds none = [kept, failing] := rfl
    rw [h, hapart hgraph, hbinds]
    unfold PlacedBind.verdict
    rw [List.find?_cons_of_neg (by simpa using not_fails_kept),
      List.find?_cons_of_pos (by simpa using fails_failing)]
    rfl
  · cases hd

namespace Sample

def maskedBind : PlacedBind := ⟨some (.var graph), .bgp [], graph, increased⟩

def misplacedBind : PlacedBind :=
  ⟨some (.var graph), .bgp [⟨.var subject, .iri predicate, .var graph⟩], target, increased⟩

/-- The name, as the name of a graph. -/
def misplacedRow : Mapping :=
  (Binding.mapping ⟨[(subject, .iri first), (graph, .literal (.plain "v"))]⟩).restrict
    [subject, graph]

/-- The only `BIND` of the pattern fails, the engine knows the answer to its question, and the query
is left as it is. -/
def Overlooks (p : Pattern) (b : PlacedBind) : Prop :=
  (p.extensionCalls = [] ∧ p.checkedBinds none = [b] ∧ b.target ∉ b.inner.mentions) ∧
  b.Fails (semantics oneName).solutions ∧
  (stored oneName).Settles (semantics oneName).solutions b ∧
  evaluator.inlineQuery (stored oneName) (select p) = pure (select p)

theorem overlooks_masked : Overlooks masked maskedBind := by
  have hrows : (semantics oneName).rows (some (.iri first)) (.bgp []) =
      {(Binding.mapping .empty).restrict []} := rfl
  have hmem : (Binding.mapping .empty).restrict [] ∈
      (semantics oneName).rows (some (.iri first)) (.bgp []) :=
    hrows ▸ Multiset.mem_singleton_self _
  refine ⟨⟨rfl, rfl, by decide⟩, ⟨_, ⟨_, mem_graphs_oneName, rfl⟩, _, hmem, rfl⟩, ⟨false, rfl, ?_⟩, rfl⟩
  rw [PlacedBind.question_ne_zero_iff (by decide)]
  refine ⟨nofun, ?_⟩
  rintro ⟨g, _, μ, _, _, hshows⟩
  exact absurd rfl (hshows graph (List.mem_singleton.mpr rfl)).1

theorem overlooks_misplaced : Overlooks misplaced misplacedBind := by
  have hrows : (semantics oneName).rows (some (.iri first)) misplacedBind.inner = {misplacedRow} :=
    rfl
  have hmem : misplacedRow ∈ (semantics oneName).rows (some (.iri first)) misplacedBind.inner :=
    hrows ▸ Multiset.mem_singleton_self _
  refine ⟨⟨rfl, rfl, by decide⟩, ⟨_, ⟨_, mem_graphs_oneName, rfl⟩, _, hmem, rfl⟩, ⟨false, rfl, ?_⟩, rfl⟩
  rw [PlacedBind.question_ne_zero_iff (by decide)]
  refine ⟨nofun, ?_⟩
  rintro ⟨g, ⟨t, ht, rfl⟩, μ, hμ, _, hshows⟩
  have hgraphs : (semantics oneName).graphs = {Term.iri first} := rfl
  have ht' : t ∈ (semantics oneName).graphs := ht
  rw [hgraphs, Finset.mem_singleton] at ht'
  subst ht'
  have hμ' : μ ∈ (semantics oneName).rows (some (.iri first)) misplacedBind.inner := hμ
  rw [hrows, Multiset.mem_singleton] at hμ'
  subst hμ'
  rcases (hshows graph (List.mem_singleton.mpr rfl)).2 _ rfl with h | h
  · cases h
  · cases h

end Sample

open Sample in
theorem ExtensionEvaluator.inlineQuery_strict_overlooks :
    Overlooks masked maskedBind ∧ Overlooks misplaced misplacedBind :=
  ⟨overlooks_masked, overlooks_misplaced⟩

end SparqlBind

end
