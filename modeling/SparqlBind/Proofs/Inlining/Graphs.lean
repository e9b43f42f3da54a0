import SparqlBind.Proofs.Inlining.Shape
import SparqlBind.Proofs.Inlining.Simulation
import SparqlBind.Proofs.Semantics.Standard

/-!
# Inlining under a graph name

Under `GRAPH` the name is put on each leaf, and its variable is carried through every row. For
row-wise patterns the result is that of an evaluation graph by graph: it exists when the evaluation
succeeds in each of the graphs and all functions are known, and no rows of different graphs are mixed.
-/

noncomputable section

open scoped Classical

namespace SparqlBind

namespace Semantics

variable {sem : Semantics} {functions : ScalarFunctions} {name : Option NamePattern}
variable {p q : Pattern} {μ : Mapping}

/-- A row of the evaluation of all graphs is a row of one of them with its graph. -/
theorem RowOf.exists_place (hq : sem.Inlinable true q) (hfresh : ∀ x ∈ q.vars, Untagged name x)
    (h : sem.RowOf functions (sem.under name) q μ) :
    ∃ g ∈ sem.places name, ∃ ν, sem.RowOf functions (sem.inGraph g) q ν ∧
      ν.Within (Untagged name) ∧ μ = (graphTag name g).merge ν := by
  obtain ⟨A, hA, hμ⟩ := h
  have hunder := hA
  rw [reference_under hq hfresh (registered_of_reference hq hA)] at hunder
  obtain ⟨B, hB, rfl⟩ := exists_of_everywhere hunder
  obtain ⟨g, hg, ν, hν, rfl⟩ := mem_spread.mp hμ
  exact ⟨g, hg, ν, ⟨B g, hB g hg, hν⟩, within_of_evaluate hfresh (hB g hg) ν hν, rfl⟩

/-- An expression without the graph variable does not see the graph of a row. -/
theorem value_presented_graphTag {e : Expr} (he : e.isPlain sem.known = true)
    (hfresh : ∀ x ∈ e.vars, Untagged name x) (g : Option Term) (μ : Mapping) :
    sem.value e ((graphTag name g).merge μ).presented = sem.value e μ.presented := by
  refine sem.value_congr e _ _ he fun x hx => ?_
  simp only [Mapping.presented, Mapping.mapTerms, merge_graphTag_apply (hfresh x hx)]

theorem condition_presented_graphTag {e : Option Expr} (he : e.all (·.isPlain sem.known) = true)
    (hfresh : ∀ c ∈ e, ∀ x ∈ c.vars, Untagged name x) (g : Option Term) (μ : Mapping)
    (h : sem.condition e μ.presented = sem.condition e μ) :
    sem.condition e ((graphTag name g).merge μ).presented =
      sem.condition e ((graphTag name g).merge μ) := by
  cases e with
  | none => rfl
  | some c =>
    simp only [condition, holds] at h ⊢
    rw [value_presented_graphTag he (hfresh c rfl), value_merge_graphTag he (hfresh c rfl), h]

/-- Presenting blank nodes does not show in the evaluation of all graphs if it does not in any. -/
theorem Presentable.under (hp : sem.Inlinable true p) (hfresh : ∀ x ∈ p.vars, Untagged name x)
    (hgraphs : ∀ g ∈ sem.places name, (graphTag name g).Unreserved)
    (h : ∀ g ∈ sem.places name, sem.Presentable functions (sem.inGraph g) p) :
    sem.Presentable functions (sem.under name) p where
  unreserved q hq hcalls r hr μ hμ := by
    have hr' : p.Part r := .step hq hr
    obtain ⟨g, hg, ν, hν, _, rfl⟩ := hμ.exists_place (hp.of_part hr') fun x hx =>
      hfresh x (hr'.vars hx)
    exact (hgraphs g hg).merge ((h g hg).unreserved q hq hcalls r hr ν hν)
  insensitive q hq hcalls := by
    have hq' : ∀ x ∈ q.vars, Untagged name x := fun x hx => hfresh x (hq.vars hx)
    have hplace := fun g hg => (h g hg).insensitive q hq hcalls
    cases hp.of_part hq with
    | bgp triples => trivial
    | path s p o => trivial
    | values xs table => trivial
    | join hl hr => trivial
    | union hl hr => trivial
    | project xs hp => trivial
    | distinct hp => trivial
    | @leftJoin l r e he hl hr =>
      intro _ _ hleft hright hboth
      obtain ⟨g, hg, μ, hμ, hμw, rfl⟩ := hleft.exists_place hl fun x hx =>
        hq' x (List.mem_append_left _ (List.mem_append_left _ hx))
      obtain ⟨g', hg', ν, hν, hνw, rfl⟩ := hright.exists_place hr fun x hx =>
        hq' x (List.mem_append_left _ (List.mem_append_right _ hx))
      obtain ⟨rfl, hc⟩ := (compatible_merge_graphTag hμw hνw hg hg').mp hboth
      rw [merge_merge_graphTag hμw hνw]
      refine condition_presented_graphTag he (fun c hc x hx => hq' x ?_) g _
        (hplace g hg μ ν hμ hν hc)
      obtain rfl := Option.mem_def.mp hc
      exact List.mem_append_right _ hx
    | @filter e p he hp =>
      intro μ hμ
      obtain ⟨g, hg, ν, hν, _, rfl⟩ := hμ.exists_place hp fun x hx =>
        hq' x (List.mem_append_right _ hx)
      exact condition_presented_graphTag (e := some e) he
        (fun c hc x hx => hq' x (List.mem_append_left _ (Option.mem_some.mp hc ▸ hx))) g ν
        (hplace g hg ν hν)
    | @call p x e f arguments he hargs hp =>
      intro μ hμ a ha
      obtain ⟨g, hg, ν, hν, _, rfl⟩ := hμ.exists_place hp fun y hy =>
        hq' y (List.mem_cons_of_mem _ (List.mem_append_right _ hy))
      have hplaceν := hplace g hg ν hν a ha
      rw [he] at ha
      have harg : a ∈ arguments := (List.mem_filter.mp ha).1
      have hvars : ∀ y ∈ a.vars, Untagged name y := fun y hy =>
        hq' y (List.mem_cons_of_mem _ (List.mem_append_left _ (vars_of_argument he harg hy)))
      rw [value_presented_graphTag (hargs a harg) hvars, hplaceν,
        value_merge_graphTag (hargs a harg) hvars]
    | @builtIn p x e he hplain hx hp =>
      intro μ hμ a ha
      obtain ⟨g, hg, ν, hν, _, rfl⟩ := hμ.exists_place hp fun y hy =>
        hq' y (List.mem_cons_of_mem _ (List.mem_append_right _ hy))
      have hplaceν := hplace g hg ν hν a ha
      rw [he] at ha
      obtain rfl := List.mem_singleton.mp ha
      have hvars : ∀ y ∈ a.vars, Untagged name y := fun y hy =>
        hq' y (List.mem_cons_of_mem _ (List.mem_append_left _ hy))
      rw [value_presented_graphTag hplain hvars, hplaceν, value_merge_graphTag hplain hvars]
    | minus h => cases h
    | orderBy h => cases h
    | group h => cases h

/-- The reference evaluation of a pattern under a graph name. All functions are looked up, whether
there is a graph or not. -/
def evaluateGraph (sem : Semantics) (functions : ScalarFunctions) (n : NamePattern) (p : Pattern) :
    Option Bag :=
  if ∀ f ∈ p.extensionCalls, (functions.lookup f.text).isSome = true then
    sem.everywhere (some n) fun g => sem.evaluate functions g p
  else none

theorem reference_under_eq {n : NamePattern} (hp : sem.Inlinable true p)
    (hfresh : ∀ x ∈ p.vars, Untagged (some n) x) :
    sem.reference functions (sem.under (some n)) p = sem.evaluateGraph functions n p := by
  unfold evaluateGraph
  split
  · rename_i hcalls
    exact reference_under hp hfresh hcalls
  · rename_i hcalls
    cases hA : sem.reference functions (sem.under (some n)) p with
    | none => rfl
    | some A => exact absurd (registered_of_reference hp hA) hcalls

end Semantics

namespace ExtensionEvaluator

variable {context : EvaluationContext} {sem : Semantics} {functions : ScalarFunctions} {p : Pattern}

/-- Every row says which graph it comes from, so that naming the graphs adds nothing. -/
theorem named_eq {n : NamePattern} {t : Table} {B : Option Term → Bag}
    (ht : t.Represents (sem.spread (some n) B)) :
    (Inlined.solutions t).named context n = pure (.solutions t) := by
  cases n with
  | iri i => rfl
  | var y =>
    have hall : t.rows.all (·.contains y) = true := by
      rw [List.all_eq_true]
      intro b hb
      have hmem : b.mapping ∈ sem.spread (some (.var y)) B :=
        ht.rows ▸ Bag.mem_ofRows.mpr ⟨b, hb, rfl⟩
      obtain ⟨g, hg, μ, _, hμ⟩ := Semantics.mem_spread.mp hmem
      obtain ⟨u, _, rfl⟩ := Finset.mem_image.mp hg
      rw [Binding.contains_iff_mem_vars, ← Binding.get?_ne_none_iff]
      have hget : b.mapping y = some u := by
        simp [← hμ, Mapping.merge, graphTag, Mapping.set]
      exact fun hnone => Option.some_ne_none u (hget.symm.trans hnone)
    unfold Inlined.named
    dsimp only
    rw [if_pos hall]

theorem inlinePattern_graph (hf : context.Follows sem) (hd : context.deadline = none)
    {n : NamePattern} (hp : sem.Inlinable true p) (hcalls : p.extensionCalls ≠ [])
    (hn : ∀ x ∈ n.vars, x ∉ p.vars) (hrow : Join.rowVariable ∉ p.vars)
    (hvalue : EvaluationContext.valueVariable ∉ n.vars ++ p.vars)
    (hgraphs : ∀ g ∈ sem.places (some n), (graphTag (some n) g).Unreserved)
    (hpresentable : ∀ g ∈ sem.places (some n), sem.Presentable functions (sem.inGraph g) p)
    (graph : Option NamePattern) :
    Evaluation.Agrees
      ((ExtensionEvaluator.mk (Registry.ofScalars functions)).inlinePattern context graph
        (.graph n p))
      (sem.evaluateGraph functions n p)
      fun inlined A => ∃ t, inlined = .solutions t ∧ Bag.ofRows t.rows = A := by
  have hfresh : ∀ x ∈ p.vars, Semantics.Untagged (some n) x := fun x hx hxn => hn x hxn hx
  have hsuitable : sem.Suitable functions (some n) p :=
    ⟨hfresh, hrow, fun h => hvalue (List.mem_append_right _ h),
      fun h => hvalue (List.mem_append_left _ h), .under hp hfresh hgraphs hpresentable⟩
  rw [← Semantics.reference_under_eq hp hfresh, ← Option.bind_fun_some (sem.reference _ _ p)]
  refine (agrees_inlinePattern hf hd (.inl rfl) hp hsuitable).bind fun i A hA hi => ?_
  cases i with
  | pattern q => exact absurd hi.2 hcalls
  | solutions t =>
    have hspread := hA
    rw [Semantics.reference_under hp hfresh (Semantics.registered_of_reference hp hA)] at hspread
    obtain ⟨B, _, rfl⟩ := Semantics.exists_of_everywhere hspread
    rw [named_eq hi.2]
    exact Evaluation.agrees_pure ⟨t, rfl, hi.2.rows⟩

end ExtensionEvaluator

namespace Sample
open Semantics

def graph : Variable := ⟨"g"⟩

def first : Iri := ⟨"http://example.com/first"⟩

def second : Iri := ⟨"http://example.com/second"⟩

/-- The same blank node with the same name in two graphs. -/
def twice : List Quad :=
  [named (.blank "n") "v" (some (.iri first)), named (.blank "n") "v" (some (.iri second))]

theorem mem_places_twice {x : Variable} {g : Option Term}
    (h : g ∈ (semantics twice).places (some (.var x))) :
    g = some (.iri first) ∨ g = some (.iri second) := by
  obtain ⟨t, ht, rfl⟩ := Finset.mem_image.mp h
  have hmem : t ∈ [Term.iri first, Term.iri second] := List.mem_toFinset.mp ht
  rcases List.mem_cons.mp hmem with rfl | hmem
  · exact .inl rfl
  · exact .inr (congrArg some (List.mem_singleton.mp hmem))

theorem rows_twice {x : Variable} {g : Option Term}
    (h : g ∈ (semantics twice).places (some (.var x))) :
    (semantics twice).rows g names = {row (.blank "n")} := by
  rcases mem_places_twice h with rfl | rfl
  · rfl
  · rfl

theorem everywhere_twice :
    (semantics twice).everywhere (some (.var graph)) (fun g =>
      (semantics twice).evaluate functions g (.extend names target shout)) =
        some ((semantics twice).spread (some (.var graph)) fun _ => {shoutedRow (.blank "n")}) :=
  everywhere_eq_some fun _ hg => evaluate_shout (rows_twice hg)

/-- The row of a graph. -/
def shoutedIn (i : Iri) : Binding :=
  ⟨[(subject, .blank "n"), (object, .literal (.plain "v")), (graph, .iri i),
    (target, .literal (.plain "V!"))]⟩

end Sample

open Sample in
theorem ExtensionEvaluator.inlinePattern_graph_twice :
    evaluator.inlinePattern (stored twice) none
      (.graph (.var graph) (.extend names target shout)) =
      pure (.solutions
        ⟨[graph, subject, object, target], [shoutedIn first, shoutedIn second]⟩) ∧
    ∃ i, evaluator.inlinePattern (answering twice) none
        (.graph (.var graph) (.extend names target shout)) = pure i ∧
      ∃ t, i = .solutions t ∧ Bag.ofRows t.rows =
        (semantics twice).spread (some (.var graph)) fun _ => {shoutedRow (.blank "n")} := by
  have hf : (answering twice).Follows (semantics twice) := Semantics.follows_engine rfl
  have hp : (semantics twice).Inlinable true (.extend names target shout) :=
    .call (f := concat) rfl (by decide) (.bgp _)
  have htags : ∀ g ∈ (semantics twice).places (some (.var graph)),
      (graphTag (some (.var graph)) g).Unreserved := by
    intro g hg
    rcases mem_places_twice hg with rfl | rfl
    · exact Mapping.unreserved_empty.set rfl
    · exact Mapping.unreserved_empty.set rfl
  have h := inlinePattern_graph (n := .var graph) hf rfl hp (by decide) (by decide) (by decide)
    (by decide) htags (fun g hg => presentable_shout (rows_twice hg) rfl) none
  have hreference : (semantics twice).evaluateGraph functions (.var graph)
      (.extend names target shout) =
        some ((semantics twice).spread (some (.var graph)) fun _ => {shoutedRow (.blank "n")}) := by
    unfold Semantics.evaluateGraph
    rw [if_pos (by decide), everywhere_twice]
  rw [hreference] at h
  exact ⟨rfl, h⟩

/-! ## Where the rows differ

A function that is not registered is an error even when the name stands for no graph, an IRI of the
reserved namespace is read as a blank node, and a deadline may pass. -/

namespace Sample
open Semantics

/-- The sample in the graphs of a name has the rows of the evaluation in each of them. -/
def PreservesIn (c : EvaluationContext) (quads : List Quad) (functions : ScalarFunctions)
    (n : NamePattern) : Prop :=
  Evaluation.Agrees
    ((ExtensionEvaluator.mk (Registry.ofScalars functions)).inlinePattern c none
      (.graph n (.extend names target shout)))
    ((semantics quads).everywhere (some n) fun g =>
      (semantics quads).evaluate functions g (.extend names target shout))
    fun inlined A => ∃ t, inlined = .solutions t ∧ Bag.ofRows t.rows = A

theorem not_preservesIn_unregistered (c : EvaluationContext) :
    ¬ PreservesIn c [] [] (.var graph) := by
  intro h
  have hplaces : ∀ g, g ∉ (semantics []).places (some (.var graph)) := by
    intro g hg
    obtain ⟨t, ht, _⟩ := Finset.mem_image.mp hg
    cases List.mem_toFinset.mp ht
  have hreference : (semantics []).everywhere (some (.var graph)) (fun g =>
      (semantics []).evaluate [] g (.extend names target shout)) =
        some ((semantics []).spread (some (.var graph)) fun _ => 0) :=
    everywhere_eq_some fun g hg => absurd hg (hplaces g)
  rw [PreservesIn, hreference] at h
  obtain ⟨i, hi, _⟩ := h
  have hfaithful := ExtensionEvaluator.faithful_inlinePattern (Evaluation.yields_of_eq_pure hi)
  cases hfaithful.registered concat List.mem_cons_self

def reservedIn : List Quad := [named (.iri reserved) "v" (some (.iri first))]

theorem not_preservesIn_reserved :
    ¬ PreservesIn (stored reservedIn) reservedIn functions (.iri first) := by
  intro h
  have hplaces : ∀ g ∈ (semantics reservedIn).places (some (.iri first)), g = some (.iri first) := by
    intro g hg
    unfold places at hg
    dsimp only at hg
    split at hg
    · exact Finset.mem_singleton.mp hg
    · exact absurd hg (Finset.notMem_empty g)
  have hrows : ∀ g ∈ (semantics reservedIn).places (some (.iri first)),
      (semantics reservedIn).rows g names = {row (.iri reserved)} := by
    intro g hg
    obtain rfl := hplaces g hg
    rfl
  have hreference : (semantics reservedIn).everywhere (some (.iri first)) (fun g =>
      (semantics reservedIn).evaluate functions g (.extend names target shout)) =
        some ((semantics reservedIn).spread (some (.iri first)) fun _ =>
          {shoutedRow (.iri reserved)}) :=
    everywhere_eq_some fun g hg => evaluate_shout (hrows g hg)
  have hinlined : evaluator.inlinePattern (stored reservedIn) none
      (.graph (.iri first) (.extend names target shout)) =
        pure (.solutions ⟨[subject, object, target], [⟨[(subject, .blank "n"),
          (object, .literal (.plain "v")), (target, .literal (.plain "V!"))]⟩]⟩) := rfl
  obtain ⟨t, ht, hrows⟩ := Evaluation.Agrees.related_of_eq h hinlined hreference
  obtain rfl := Inlined.solutions.inj ht
  have hmem := hrows ▸ Bag.mem_ofRows.mpr ⟨_, List.mem_cons_self, rfl⟩
  obtain ⟨g, hg, μ, hμ, hrow⟩ := mem_spread.mp hmem
  obtain rfl := hplaces g hg
  obtain rfl := Multiset.mem_singleton.mp hμ
  cases congrFun hrow subject

theorem not_preservesIn_late :
    ¬ PreservesIn { stored twice with deadline := some ⟨⟨0, 0⟩, ⟨0, 0⟩⟩ } twice functions
      (.var graph) := by
  intro h
  rw [PreservesIn, everywhere_twice] at h
  obtain ⟨i, hinlined, _⟩ := h
  have hrun := congrArg (fun m : Evaluation Inlined => m.run.run fun _ => ⟨0, 0⟩) hinlined
  cases hrun

end Sample

open Sample in
theorem ExtensionEvaluator.inlinePattern_graph_differs_from_reference :
    ((answering []).Follows (semantics []) ∧
      (semantics []).Inlinable true (.extend names target shout) ∧
      ¬ PreservesIn (answering []) [] [] (.var graph)) ∧
    ¬ PreservesIn (stored reservedIn) reservedIn functions (.iri first) ∧
    ¬ PreservesIn { stored twice with deadline := some ⟨⟨0, 0⟩, ⟨0, 0⟩⟩ } twice functions
      (.var graph) :=
  ⟨⟨Semantics.follows_engine rfl, .call (f := concat) rfl (by decide) (.bgp _),
    not_preservesIn_unregistered _⟩, not_preservesIn_reserved, not_preservesIn_late⟩

end SparqlBind

end
