import SparqlBind.Extension.Outcome
import SparqlBind.Proofs.Inlining.Simulation
import SparqlBind.Proofs.Semantics.Standard

/-!
# Inlining preserves the meaning of queries

A selection that is inlined and then handed to the engine has the solutions of the reference
evaluation, each as often, and it fails where the reference evaluation has no result.
-/

noncomputable section

open scoped Classical

namespace SparqlBind

namespace Solution

theorem bound_decodeSolution (s : Solution) :
    (Skolem.decodeSolution s).bound = s.bound.map fun e => (e.1, Skolem.decode e.2) := by
  unfold bound Skolem.decodeSolution
  rw [List.filterMap_map, List.map_filterMap]
  refine List.filterMap_congr fun c _ => ?_
  simp only [Function.comp_apply, Option.map_map]
  rfl

theorem mapping_decodeSolution (s : Solution) :
    (Skolem.decodeSolution s).mapping = s.mapping.decoded := by
  funext x
  have hleft : (Skolem.decodeSolution s).mapping x =
      ((s.bound.map fun e => (e.1, Skolem.decode e.2)).reverse).lookup x := by
    rw [mapping, Binding.mapping, Binding.ofSolution, bound_decodeSolution, Binding.get?_ofList]
  rw [hleft, ← List.map_reverse, Binding.lookup_map_snd, ← Binding.get?_ofList]
  rfl

end Solution

namespace ExtensionEvaluator

variable {context : EvaluationContext} {sem : Semantics} {functions : ScalarFunctions}

theorem collectItems_ok {α β : Type} (hd : context.deadline = none) (decode : α → β)
    (items : List α) : collectItems context decode (items.map .ok) = pure (items.map decode) := by
  induction items with
  | nil => rfl
  | cons a rest ih =>
    rw [List.map_cons, collectItems, EvaluationContext.settled_checkDeadline hd, pure_bind, ih]
    rfl

/-- What is done with the answer to an inlined query. -/
def collectAnswer (context : EvaluationContext) (q : Query) : Evaluation QueryOutcome := do
  match ← context.evaluateQuery q with
  | .solutions xs rows => do
    pure (.solutions xs (← collectItems context Skolem.decodeSolution rows))
  | .boolean b => pure (.boolean b)
  | .graph triples => do pure (.graph (← collectItems context Skolem.decodeTriple triples))

theorem execute_eq (ev : ExtensionEvaluator) (context : EvaluationContext) (q : Query) :
    ev.execute context q = (do
      let inlined ← ev.inlinePattern (context.forQuery q) none q.pattern
      collectAnswer (context.forQuery q) { q with pattern := inlined.toPattern }) := by
  unfold execute inlineWith
  simp only [bind_assoc, pure_bind]
  rfl

/-- The outcome has the solutions of the bag, each as often. -/
def Selects (A : Bag) : QueryOutcome → Prop
  | .solutions _ rows => (rows.map Solution.mapping : Multiset Mapping) = A
  | _ => False

theorem Selects.unique {A B : Bag} {outcome : QueryOutcome} (hA : Selects A outcome)
    (hB : Selects B outcome) : A = B := by
  cases outcome with
  | solutions xs rows => exact hA.symm.trans hB
  | boolean b => exact hA.elim
  | graph triples => exact hA.elim

/-- The answer to a plain selection, decoded. -/
theorem collectAnswer_of_plain (hf : context.Follows sem) (hd : context.deadline = none)
    {p : Pattern} (hp : p.isPlain sem.known = true) :
    ∃ outcome, collectAnswer context (context.query .select p) = pure outcome ∧
      Selects (sem.rows none p).decoded outcome := by
  obtain ⟨xs, solutions, hanswer, hrows⟩ := hf.select p hp
  refine ⟨.solutions xs (solutions.map Skolem.decodeSolution), ?_, ?_⟩
  · unfold collectAnswer EvaluationContext.evaluateQuery
    rw [EvaluationContext.settled_checkDeadline hd, hanswer]
    simp only [EvaluationContext.liftEngine, pure_bind, collectItems_ok hd]
  · rw [Selects, ← hrows, Bag.decoded, Multiset.map_coe, List.map_map, List.map_map]
    exact congrArg _ (List.map_congr_left fun s _ => Solution.mapping_decodeSolution s)

/-- An inlined pattern that is handed to the engine has the rows it represents, once decoded. -/
theorem rows_of_represents {p : Pattern} {i : Inlined} {A : Bag}
    (hp : sem.Inlinable false p) (hfree : A.Unreserved)
    (hA : sem.evaluate functions none p = some A) (hi : i.Represents p A) :
    i.toPattern.isPlain sem.known = true ∧ (sem.rows none i.toPattern).decoded = A := by
  cases i with
  | pattern q =>
    obtain ⟨rfl, hcalls⟩ := hi
    refine ⟨hp.isPlain hcalls, ?_⟩
    have hrows : A = sem.rows none q := Semantics.rows_eq_of_evaluate hcalls hA
    rw [Inlined.toPattern, ← hrows, Bag.decoded_eq hfree]
  | solutions t =>
    refine ⟨rfl, ?_⟩
    rw [Inlined.toPattern, hi.2.covers.rows_toPattern_eq, hi.2.rows, Bag.decoded_presented hfree]

theorem execute_preserves_meaning {q : Query} (hform : q.form = .select)
    (hf : (context.forQuery q).Follows sem) (hd : context.deadline = none)
    (hp : sem.Inlinable false q.pattern) (hrow : Join.rowVariable ∉ q.pattern.vars)
    (hvalue : EvaluationContext.valueVariable ∉ q.pattern.vars)
    (hpresentable : sem.Presentable functions (sem.inGraph none) q.pattern)
    (hfree : ∀ μ, sem.RowOf functions (sem.inGraph none) q.pattern μ → μ.Unreserved) :
    Evaluation.Agrees ((ExtensionEvaluator.mk (Registry.ofScalars functions)).execute context q)
      (sem.evaluate functions none q.pattern) fun outcome A => Selects A outcome := by
  have hsuitable : sem.Suitable functions none q.pattern :=
    ⟨fun _ _ => List.not_mem_nil, hrow, hvalue, List.not_mem_nil, hpresentable⟩
  have hd' : (context.forQuery q).deadline = none := hd
  rw [execute_eq, ← Option.bind_fun_some (sem.evaluate functions none q.pattern)]
  refine (agrees_inlinePattern hf hd' (.inr rfl) hp hsuitable).bind fun i A hA hi => ?_
  obtain ⟨hplain, hrows⟩ :=
    rows_of_represents hp (fun μ hμ => hfree μ ⟨A, hA, hμ⟩) hA hi
  obtain ⟨outcome, houtcome, hselects⟩ := collectAnswer_of_plain hf hd' hplain
  have hquery : { q with pattern := i.toPattern } =
      (context.forQuery q).query .select i.toPattern := by rw [← hform]; rfl
  rw [hquery, houtcome]
  exact Evaluation.agrees_pure (hrows ▸ hselects)

end ExtensionEvaluator

open Sample in
theorem ExtensionEvaluator.execute_preserves_meaning_loud :
    evaluator.execute (stored [named (.blank "n") "v" none]) (select loud) =
      pure (.solutions [subject, target]
        [⟨[(subject, some (.blank "n")), (target, some (.literal (.plain "V!")))]⟩]) ∧
    ∃ outcome, evaluator.execute (answering [named (.blank "n") "v" none]) (select loud) =
        pure outcome ∧
      Selects {(shoutedRow (.blank "n")).restrict [subject, target]} outcome := by
  have hrows : (semantics [named (.blank "n") "v" none]).rows none names = {row (.blank "n")} :=
    rfl
  have hf : ((answering [named (.blank "n") "v" none]).forQuery (select loud)).Follows
      (semantics [named (.blank "n") "v" none]) := Semantics.follows_engine rfl
  have hp : (semantics [named (.blank "n") "v" none]).Inlinable false loud :=
    .project _ (.filter rfl (.call (f := concat) rfl (by decide) (.bgp _)))
  have h := execute_preserves_meaning (q := select loud) rfl hf rfl hp (by decide) (by decide)
    (presentable_loud hrows rfl) fun μ hμ =>
      (Semantics.rowOf_singleton (evaluate_loud hrows)).mp hμ ▸
        (unreserved_shoutedRow rfl).restrict _
  rw [show (select loud).pattern = loud from rfl, evaluate_loud hrows] at h
  exact ⟨rfl, h⟩

/-! ## Where the solutions differ

The standard engine on the sample, and an engine that is known to follow the semantics where an IRI
of the reserved namespace is read as a blank node. -/

namespace Sample
open Semantics

/-- Blank nodes with a name, after a call. -/
def blankNames : Pattern :=
  .project (.filter (.call (.builtIn .isBlank) [.var subject])
    (.extend names target (concatText "a"))) [subject]

/-- A value that is computed from the one it replaces. -/
def replaced : Pattern :=
  .extend (cell target (text "a")) target (.binary .add (.literal (.ofInt 1)) (.var target))

/-- An optional part under a condition on a variable that no pattern binds. -/
def guarded (x : Variable) : Pattern :=
  .leftJoin (cell object (text "v")) (.extend (cell object (text "v")) target (concatText "a"))
    (some (.bound x))

/-- An argument without value, on a row that binds a variable. -/
def valued (x : Variable) : Pattern :=
  .extend (cell x (text "v")) target
    (.call (.custom concat) [.binary .add (.literal (.ofInt 1)) (.literal (.plain "a"))])

variable {quads : List Quad} {g : Option Term}

theorem evaluate_blankNames {label : String}
    (h : (semantics quads).rows g names = {row (.blank label)}) :
    (semantics quads).evaluate functions g blankNames =
      some {((row (.blank label)).set target (.literal (.plain "a"))).restrict [subject]} := by
  have hcall : (semantics quads).bind? functions target {row (.blank label)}
      (.ofExpr (concatText "a")) =
        some {(row (.blank label)).set target (.literal (.plain "a"))} :=
    bind?_call_singleton rfl rfl
  rw [blankNames, evaluate, reference, reference, reference, ← evaluate, evaluate_names h,
    Option.bind_some, hcall, Option.bind_some, Bag.select_singleton rfl, Option.bind_some]
  exact congrArg some (Multiset.map_singleton _ _)

def cellRow (x : Variable) (t : GroundTerm) : Mapping := .ofCells [x] [some t]

theorem evaluate_cell (x : Variable) (t : GroundTerm) :
    (semantics quads).evaluate functions g (cell x t) = some {cellRow x t} := rfl

theorem evaluate_replaced : (semantics quads).evaluate functions g replaced = none := by
  have hvalue : (semantics quads).value (.binary .add (.literal (.ofInt 1)) (.var target))
      (cellRow target (text "a")) = none := rfl
  rw [replaced, evaluate, reference, ← evaluate, evaluate_cell, Option.bind_some]
  exact Bag.extend?_eq_none (x := target) (Multiset.mem_singleton_self _) hvalue

theorem evaluate_guarded : (semantics quads).evaluate functions g (guarded Join.rowVariable) =
    some {cellRow object (text "v")} := by
  have hcall : (semantics quads).bind? functions target {cellRow object (text "v")}
      (.ofExpr (concatText "a")) =
        some {(cellRow object (text "v")).set target (.literal (.plain "a"))} :=
    bind?_call_singleton rfl rfl
  have hcondition : (semantics quads).condition (some (.bound Join.rowVariable))
      ((cellRow object (text "v")).merge
        ((cellRow object (text "v")).set target (.literal (.plain "a")))) = false := rfl
  rw [guarded, evaluate, reference, reference, ← evaluate, evaluate_cell, Option.bind_some,
    Option.bind_some, hcall, Option.bind_some]
  exact congrArg some (Bag.leftJoin_singleton hcondition)

theorem evaluate_valued (x : Variable) :
    (semantics quads).evaluate functions g (valued x) = none := by
  rw [valued, evaluate, reference, ← evaluate, evaluate_cell, Option.bind_some]
  exact bind?_call_eq_none rfl (Multiset.mem_singleton_self _) rfl

/-- The sample query has the solutions of the reference evaluation. -/
def Preserves (context : EvaluationContext) (quads : List Quad) (p : Pattern) : Prop :=
  Evaluation.Agrees (evaluator.execute context (select p))
    ((semantics quads).evaluate functions none p)
    fun outcome A => ExtensionEvaluator.Selects A outcome

theorem not_preserves_reserved :
    ¬ Preserves (answering []) [] (cell subject (.iri reserved)) := by
  intro h
  have hf : (answering []).Follows (semantics []) := Semantics.follows_engine rfl
  obtain ⟨outcome, houtcome, hselects⟩ :=
    ExtensionEvaluator.collectAnswer_of_plain (p := cell subject (.iri reserved)) hf rfl rfl
  have hexecute : evaluator.execute (answering []) (select (cell subject (.iri reserved))) =
      pure outcome := houtcome
  have hsame := Evaluation.Agrees.related_of_eq h hexecute (evaluate_cell subject (.iri reserved))
  have hrow := congrFun (Multiset.singleton_inj.mp (hselects.unique hsame)) subject
  cases hrow

theorem not_preserves_blankNames :
    ¬ Preserves (stored [named (.blank "n") "v" none]) [named (.blank "n") "v" none]
      blankNames := by
  intro h
  have hexecute : evaluator.execute (stored [named (.blank "n") "v" none]) (select blankNames) =
      pure (.solutions [] []) := rfl
  have hsame := Evaluation.Agrees.related_of_eq h hexecute (evaluate_blankNames rfl)
  exact (Multiset.singleton_ne_zero _ hsame.symm).elim

theorem not_preserves_replaced : ¬ Preserves (stored []) [] replaced := by
  intro h
  have hexecute : evaluator.execute (stored []) (select replaced) =
      pure (.solutions [target] [⟨[(target, some (.literal (.plain "a")))]⟩]) := rfl
  exact Evaluation.Agrees.ne_none h hexecute evaluate_replaced

theorem not_preserves_guarded : ¬ Preserves (stored []) [] (guarded Join.rowVariable) := by
  intro h
  have hexecute : evaluator.execute (stored []) (select (guarded Join.rowVariable)) =
      pure (.solutions [object, target]
        [⟨[(object, some (.literal (.plain "v"))), (target, some (.literal (.plain "a")))]⟩]) :=
    rfl
  have hsame := Evaluation.Agrees.related_of_eq h hexecute evaluate_guarded
  have hrow := congrFun (Multiset.singleton_inj.mp hsame) target
  exact Option.some_ne_none _ hrow

theorem not_preserves_valued :
    ¬ Preserves (stored []) [] (valued EvaluationContext.valueVariable) := by
  intro h
  have hexecute : evaluator.execute (stored [])
      (select (valued EvaluationContext.valueVariable)) =
        pure (.solutions [EvaluationContext.valueVariable, target]
          [⟨[(EvaluationContext.valueVariable, some (.literal (.plain "v"))),
            (target, some (.literal (.plain "v")))]⟩]) := rfl
  exact Evaluation.Agrees.ne_none h hexecute (evaluate_valued _)

theorem not_preserves_late :
    ¬ Preserves { stored [] with deadline := some ⟨⟨0, 0⟩, ⟨0, 0⟩⟩ } []
      (cell subject (text "v")) := by
  intro h
  obtain ⟨outcome, hexecute, _⟩ := h
  have hrun := congrArg (fun m : Evaluation QueryOutcome => m.run.run fun _ => ⟨0, 0⟩) hexecute
  cases hrun

end Sample

open Sample in
theorem ExtensionEvaluator.execute_differs_from_reference :
    ((answering []).Follows (semantics []) ∧
      (semantics []).Inlinable false (cell subject (.iri reserved)) ∧
      ¬ Preserves (answering []) [] (cell subject (.iri reserved))) ∧
    ¬ Preserves (stored [named (.blank "n") "v" none]) [named (.blank "n") "v" none]
      blankNames ∧
    ¬ Preserves (stored []) [] replaced ∧
    ¬ Preserves (stored []) [] (guarded Join.rowVariable) ∧
    ¬ Preserves (stored []) [] (valued EvaluationContext.valueVariable) ∧
    ¬ Preserves { stored [] with deadline := some ⟨⟨0, 0⟩, ⟨0, 0⟩⟩ } []
      (cell subject (text "v")) :=
  ⟨⟨Semantics.follows_engine rfl, .values _ _, not_preserves_reserved⟩, not_preserves_blankNames,
    not_preserves_replaced, not_preserves_guarded, not_preserves_valued, not_preserves_late⟩

end SparqlBind

end
