import Mathlib.Data.Finset.Dedup
import Mathlib.Data.Finset.Insert
import SparqlBind.Proofs.Inlining.Lockstep

/-!
# Queries see their dataset

All that an evaluation knows of the store are the answers to queries with the dataset and the base IRI
of the query that is evaluated. Where the answers of the engine depend only on the graphs of a
dataset clause, two stores that hold the same triples in these graphs cannot be told apart.
-/

noncomputable section

namespace SparqlBind

namespace DatasetClause

/-- The graphs that a clause names. -/
def graphs (clause : DatasetClause) : List Iri := clause.default ++ clause.named.getD []

end DatasetClause

namespace Store

/-- The two stores hold the same triples in the graphs of a clause, in whatever order. -/
def SameIn (clause : DatasetClause) (s s' : Store) : Prop :=
  ∀ i ∈ clause.graphs, ∀ t, t ∈ s.graph (some (.iri i)) ↔ t ∈ s'.graph (some (.iri i))

end Store

namespace Engine

/-- A query with a dataset clause is answered from the triples in its graphs. -/
def Confined (engine : Engine) : Prop :=
  ∀ (q : Query) (clause : DatasetClause), q.dataset = some clause →
    ∀ s s' : Store, s.SameIn clause s' → engine.answer s q = engine.answer s' q

end Engine

namespace ExtensionEvaluator

theorem execute_of_answers {functions : ScalarFunctions} {context : EvaluationContext} {q : Query}
    {engine : Engine} {store : Store}
    (h : ∀ (form : QueryForm) (p : Pattern),
      engine.answer store ⟨form, p, q.dataset, q.base⟩ =
        context.engine.answer context.store ⟨form, p, q.dataset, q.base⟩) :
    (ExtensionEvaluator.mk (.ofScalars functions)).execute
        { context with engine := engine, store := store } q =
      (ExtensionEvaluator.mk (.ofScalars functions)).execute context q := by
  let same := Comparison.lockstep Function.injective_id
  have hcontexts : same.contexts (context.forQuery q)
      ({ context with engine := engine, store := store }.forQuery (q.mapVars id)) := by
    refine ⟨rfl, fun form p => ?_⟩
    rw [QueryForm.mapVars_id, Pattern.mapVars_id, EngineAnswer.map_mapVars_id]
    exact h form p
  have halong := Comparison.along_execute (C := same) ⟨rfl, rfl⟩
    (Comparison.registries_ofScalars rfl functions) hcontexts
  have heq := Comparison.eq_lockstep (fun o => o.mapVars_id) halong
  rwa [show q.mapVars same.rename = q from q.mapVars_id] at heq

/-- The store is looked at with the dataset and the base IRI of the query only. -/
theorem execute_sees_dataset (functions : ScalarFunctions) (context : EvaluationContext) (q : Query) :
    (∀ (engine : Engine) (store : Store),
      (∀ (form : QueryForm) (p : Pattern),
        engine.answer store ⟨form, p, q.dataset, q.base⟩ =
          context.engine.answer context.store ⟨form, p, q.dataset, q.base⟩) →
      (ExtensionEvaluator.mk (.ofScalars functions)).execute
          { context with engine := engine, store := store } q =
        (ExtensionEvaluator.mk (.ofScalars functions)).execute context q) ∧
    (context.engine.Confined → ∀ clause, q.dataset = some clause →
      ∀ store, context.store.SameIn clause store →
        (ExtensionEvaluator.mk (.ofScalars functions)).execute { context with store := store } q =
          (ExtensionEvaluator.mk (.ofScalars functions)).execute context q) := by
  refine ⟨fun engine store h => execute_of_answers h, ?_⟩
  intro hengine clause hclause store hstore
  refine execute_of_answers fun form p => ?_
  exact (hengine ⟨form, p, q.dataset, q.base⟩ clause hclause _ _ hstore).symm

end ExtensionEvaluator

/-! ## An engine that does not know the order of a store -/

namespace Store

/-- The triples of the graphs of a clause, each once and in an order that depends on nothing else. -/
def only (clause : DatasetClause) (s : Store) : Store :=
  ⟨clause.graphs.dedup.flatMap fun i =>
    (s.graph (some (.iri i))).toFinset.toList.map fun t =>
      ⟨t.subject, t.predicate, t.object, some (.iri i)⟩⟩

theorem only_eq_of_sameIn {clause : DatasetClause} {s s' : Store} (h : s.SameIn clause s') :
    s.only clause = s'.only clause := by
  refine congrArg Store.mk (List.flatMap_congr fun i hi => ?_)
  have hset : (s.graph (some (.iri i))).toFinset = (s'.graph (some (.iri i))).toFinset := by
    ext t
    rw [List.mem_toFinset, List.mem_toFinset]
    exact h i (List.mem_dedup.mp hi) t
  rw [hset]

end Store

namespace Engine

/-- The engine, shown only what a query with a dataset clause is about. -/
def confined (engine : Engine) : Engine where
  answer s q :=
    match q.dataset with
    | some clause => engine.answer (s.only clause) q
    | none => engine.answer s q

theorem confined_confined (engine : Engine) : engine.confined.Confined := by
  intro q clause hq s s' h
  unfold confined
  simp only [hq, Store.only_eq_of_sameIn h]

end Engine

namespace Sample

def inside : Iri := ⟨"http://example.com/g"⟩

/-- A query about one graph, in the dataset of that graph. -/
def insideOnly : Query := { select (.extend names target shout) with dataset := some ⟨[inside], none⟩ }

def someName : List Quad := [named (.iri inside) "v" (some (.iri inside))]

/-- The name, and names in other graphs. -/
def moreNames : List Quad :=
  [named (.blank "n") "w" none, named (.iri inside) "v" (some (.iri inside)),
    named (.iri inside) "u" (some (.blank "g"))]

def confinedTo (quads : List Quad) : EvaluationContext :=
  .ofStore (Engine.confined (.standard default "")) ⟨quads⟩

end Sample

open Sample in
/-- Names in other graphs do not change the outcome. -/
theorem ExtensionEvaluator.execute_sees_dataset_inside :
    evaluator.execute (confinedTo moreNames) insideOnly =
      evaluator.execute (confinedTo someName) insideOnly ∧
    (evaluator.execute (confinedTo moreNames) insideOnly).run.run (fun _ => default) =
      .ok (.solutions [subject, object, target] [⟨[(subject, some (.iri inside)),
        (object, some (.literal (.plain "v"))), (target, some (.literal (.plain "V!")))]⟩]) := by
  have hsame : (confinedTo someName).store.SameIn ⟨[inside], none⟩ ⟨moreNames⟩ := by
    intro i hi t
    obtain rfl := List.mem_singleton.mp hi
    exact Iff.rfl
  obtain ⟨hanswers, hstores⟩ := execute_sees_dataset functions (confinedTo someName) insideOnly
  have heq := hstores (Engine.confined_confined _) _ rfl ⟨moreNames⟩ hsame
  have honly : (Store.mk someName).only ⟨[inside], none⟩ = ⟨someName⟩ := by
    have hgraph : (Store.mk someName).graph (some (.iri inside)) =
        [⟨.iri inside, predicate, .literal (.plain "v")⟩] := rfl
    have hgraphs : (DatasetClause.mk [inside] none).graphs.dedup = [inside] := rfl
    simp only [Store.only, hgraphs, List.flatMap_cons, List.flatMap_nil, hgraph,
      List.toFinset_cons, List.toFinset_nil, insert_empty_eq, Finset.toList_singleton]
    rfl
  -- on these quads the engine is the standard one
  have hstandard := hanswers (.standard default "") ⟨someName⟩ fun form p =>
    congrArg (fun s => (Engine.standard default "").answer s _) honly.symm
  exact ⟨heq, congrArg (fun m => m.run.run fun _ => default) (heq.trans hstandard.symm)⟩

end SparqlBind

end
