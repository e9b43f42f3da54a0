import SparqlBind.Proofs.Inlining.Answers

/-!
# Descriptions

A description is made of the triples of the default graph that have a described term for subject.
When the query holds a call, the terms are looked up as the table holds them: an IRI is found, and a
blank node is not, because an IRI stands for it.
-/

namespace SparqlBind

/-- A solution binds a variable to the term. -/
def Takes (rows : List Solution) (t : Term) : Prop := ∃ s ∈ rows, ∃ x, s.mapping x = some t

/-- The triples of the default graph whose subject is a term of the solutions. -/
def Describes (d : Dataset) (rows : List Solution) (triples : List Triple) : Prop :=
  ∀ u, u ∈ triples ↔ u ∈ d.default ∧ Takes rows u.subject.toTerm

/-- No subject and no object is an IRI of the reserved namespace. -/
def Triple.Unreserved (u : Triple) : Prop :=
  u.subject.toTerm.isReserved = false ∧ u.object.isReserved = false

theorem Triple.Unreserved.decoded_eq {u : Triple} (h : u.Unreserved) : Skolem.decodeTriple u = u := by
  unfold Skolem.decodeTriple
  rw [Skolem.decode_of_not_isReserved h.1, Skolem.decode_of_not_isReserved h.2]
  obtain ⟨s, p, o⟩ := u
  cases s <;> rfl

/-- The triples that describe the terms of rows without failures. -/
def described (d : Dataset) (columns : List Variable) (rows : List Binding) : List Triple :=
  rows.flatMap fun row => (columns.filterMap row.get?).flatMap fun t =>
    d.default.filter fun u => u.subject.toTerm = t

theorem describe_ofBindings (d : Dataset) (columns : List Variable) (rows : List Binding) :
    describe d columns (Rows.ofBindings rows) = (described d columns rows).map .ok := by
  unfold describe described Rows.ofBindings
  rw [List.flatMap_map, List.map_flatMap]

theorem mem_described {d : Dataset} {columns : List Variable} {rows : List Binding} {u : Triple} :
    u ∈ described d columns rows ↔
      u ∈ d.default ∧ ∃ row ∈ rows, ∃ x ∈ columns, row.get? x = some u.subject.toTerm := by
  simp only [described, List.mem_flatMap, List.mem_filterMap, List.mem_filter, decide_eq_true_eq]
  constructor
  · rintro ⟨row, hrow, _, ⟨x, hx, hv⟩, hmem, rfl⟩
    exact ⟨hmem, row, hrow, x, hx, hv⟩
  · rintro ⟨hmem, row, hrow, x, hx, hv⟩
    exact ⟨row, hrow, _, ⟨x, hx, hv⟩, hmem, rfl⟩

section Shown
variable {columns : List Variable} {bs : List Binding} (hcolumns : columns.Nodup)
variable (hbs : ∀ b ∈ bs, b.Shown columns)
include hcolumns hbs

/-- The solutions take the terms that the rows shown to the engine hold, read back. -/
theorem takes_givenBack_iff {v : Term} :
    Takes (bs.map fun b => Skolem.decodeSolution (b.toSolution columns)) v ↔
      ∃ b ∈ bs, ∃ x ∈ columns, ∃ w, b.get? x = some w ∧ Skolem.decode w = v := by
  unfold Takes
  constructor
  · rintro ⟨_, hs, x, hx⟩
    obtain ⟨b, hb, rfl⟩ := List.mem_map.mp hs
    rw [Binding.mapping_decodeSolution hcolumns (hbs b hb).within] at hx
    obtain ⟨w, hw, hwv⟩ := Option.map_eq_some_iff.mp hx
    refine ⟨b, hb, x, (hbs b hb).within x fun hnone => ?_, w, hw, hwv⟩
    exact Option.some_ne_none w (hw.symm.trans hnone)
  · rintro ⟨b, hb, x, _, w, hw, rfl⟩
    refine ⟨_, List.mem_map_of_mem hb, x, ?_⟩
    rw [Binding.mapping_decodeSolution hcolumns (hbs b hb).within]
    exact Option.map_eq_some_iff.mpr ⟨w, hw, rfl⟩

/-- A term is looked up as the table writes it. -/
theorem exists_shown_iff {v : Term} :
    (∃ b ∈ bs, ∃ x ∈ columns, b.get? x = some v) ↔
      ∃ w, Takes (bs.map fun b => Skolem.decodeSolution (b.toSolution columns)) w ∧
        (Skolem.encode w).toTerm = v := by
  simp only [takes_givenBack_iff hcolumns hbs]
  constructor
  · rintro ⟨b, hb, x, hx, hv⟩
    have hground : ∀ label, v ≠ .blank label := fun label hl =>
      (hbs b hb).ground x label (hl ▸ hv)
    exact ⟨Skolem.decode v, ⟨b, hb, x, hx, v, hv, rfl⟩, Skolem.encode_decode hground⟩
  · rintro ⟨_, ⟨b, hb, x, hx, w, hw, rfl⟩, rfl⟩
    have hground : ∀ label, w ≠ .blank label := fun label hl =>
      (hbs b hb).ground x label (hl ▸ hw)
    exact ⟨b, hb, x, hx, hw.trans (congrArg some (Skolem.encode_decode hground).symm)⟩

end Shown

section LookedUp
variable {d : Dataset} {rows : List Solution} {triples : List Triple}

/-- A term that a table holds as a subject of the graph is an IRI. -/
theorem exists_encode_eq_iff {u : Triple} (hu : u.Unreserved) :
    (∃ t, Takes rows t ∧ (Skolem.encode t).toTerm = u.subject.toTerm) ↔
      ∃ i, u.subject = .iri i ∧ Takes rows (.iri i) := by
  constructor
  · rintro ⟨t, ht, hsubject⟩
    cases hs : u.subject with
    | blank label =>
      rw [hs] at hsubject
      cases t <;> cases hsubject
    | iri i =>
      refine ⟨i, rfl, ?_⟩
      have hfree := hu.1
      rw [hs] at hsubject hfree
      cases t with
      | iri j =>
        cases hsubject
        exact ht
      | literal l => cases hsubject
      | blank label =>
        -- the IRI of the subject would be one that stands for a blank node
        cases hsubject
        simp [Resource.toTerm, Term.isReserved, Skolem.label?_encode] at hfree
  · rintro ⟨i, hs, ht⟩
    exact ⟨.iri i, ht, by rw [hs]; rfl⟩

theorem looked_up_iff (hfree : ∀ u ∈ d.default, u.Unreserved) {u : Triple} :
    (∃ v ∈ d.default, Skolem.decodeTriple v = u ∧
        ∃ t, Takes rows t ∧ (Skolem.encode t).toTerm = v.subject.toTerm) ↔
      u ∈ d.default ∧ ∃ i, u.subject = .iri i ∧ Takes rows (.iri i) := by
  constructor
  · rintro ⟨v, hv, rfl, ht⟩
    rw [(hfree v hv).decoded_eq]
    exact ⟨hv, (exists_encode_eq_iff (hfree v hv)).mp ht⟩
  · rintro ⟨hu, hi⟩
    exact ⟨u, hu, (hfree u hu).decoded_eq, (exists_encode_eq_iff (hfree u hu)).mpr hi⟩

/-- What is missing from a description by IRIs are the triples of the blank nodes. -/
theorem describes_iff (h : ∀ u, u ∈ triples ↔
      u ∈ d.default ∧ ∃ i, u.subject = .iri i ∧ Takes rows (.iri i)) :
    Describes d rows triples ↔
      ∀ u ∈ d.default, ∀ label, u.subject = .blank label → ¬ Takes rows (.blank label) := by
  constructor
  · intro hdescribes u hu label hs ht
    have hmem : u ∈ triples := (hdescribes u).mpr ⟨hu, by rw [hs]; exact ht⟩
    obtain ⟨_, i, hi, _⟩ := (h u).mp hmem
    rw [hs] at hi
    cases hi
  · intro hblank u
    rw [h u]
    refine and_congr_right fun hu => ?_
    cases hs : u.subject with
    | iri i => simp [Resource.toTerm]
    | blank label =>
      have hnot := hblank u hu label hs
      simp [Resource.toTerm, hnot]

end LookedUp

namespace ExtensionEvaluator

variable {ev : ExtensionEvaluator} {context : EvaluationContext} {q : Query}
variable {outcome : QueryOutcome} {now : Timestamp} {seed : String}

/-- The described terms are those of the solutions of the pattern, each of them as a table writes
it. That finds the IRIs among them; it is the whole description when no blank node has triples. -/
theorem execute_describe (hengine : context.engine = .standard now seed)
    (hform : q.form = .describe) (hcalls : q.pattern.extensionCalls ≠ [])
    (h : Evaluation.Yields (ev.execute context q) outcome) :
    ∃ (xs : List Variable) (rows : List Solution) (triples : List Triple),
      Evaluation.Yields (ev.execute context { q with form := .select }) (.solutions xs rows) ∧
      outcome = .graph triples ∧
      (∀ u, u ∈ triples ↔ ∃ v ∈ (q.seenIn context.store).default, Skolem.decodeTriple v = u ∧
        ∃ t, Takes rows t ∧ (Skolem.encode t).toTerm = v.subject.toTerm) ∧
      ((∀ u ∈ (q.seenIn context.store).default, u.Unreserved) →
        (∀ u, u ∈ triples ↔ u ∈ (q.seenIn context.store).default ∧
          ∃ i, u.subject = .iri i ∧ Takes rows (.iri i)) ∧
        (Describes (q.seenIn context.store) rows triples ↔
          ∀ u ∈ (q.seenIn context.store).default, ∀ label, u.subject = .blank label →
            ¬ Takes rows (.blank label))) := by
  obtain ⟨columns, _, hcolumns, ⟨answer, hanswer, hcollected⟩, hselect, hrows⟩ :=
    yields_execute hengine h
  obtain ⟨bs, rfl, hbs⟩ := (hrows.resolve_right fun hplain => hcalls hplain.1).2
  rw [hform, answerForm, describe_ofBindings] at hanswer
  obtain rfl := Except.ok.inj hanswer
  obtain ⟨as, has, rfl⟩ := hcollected
  obtain rfl := List.map_injective_iff.mpr (fun _ _ => Except.ok.inj) has
  have hall : ∀ u, u ∈ (described (q.seenIn context.store) columns bs).map Skolem.decodeTriple ↔
      ∃ v ∈ (q.seenIn context.store).default, Skolem.decodeTriple v = u ∧
        ∃ w, Takes (bs.map fun b => Skolem.decodeSolution (b.toSolution columns)) w ∧
          (Skolem.encode w).toTerm = v.subject.toTerm := by
    intro u
    simp only [List.mem_map, mem_described, exists_shown_iff hcolumns hbs]
    constructor
    · rintro ⟨v, ⟨hv, hw⟩, hu⟩
      exact ⟨v, hv, hu, hw⟩
    · rintro ⟨v, hv, hu, hw⟩
      exact ⟨v, ⟨hv, hw⟩, hu⟩
  refine ⟨_, _, _, hselect bs rfl, rfl, hall, fun hfree => ?_⟩
  have hnamed := fun u => (hall u).trans (looked_up_iff hfree)
  exact ⟨hnamed, describes_iff hnamed⟩

end ExtensionEvaluator

namespace Sample

/-- Describes what has a name, after a call. -/
def describing : Query :=
  ⟨.describe, .project (.extend names target (concatText "a")) [subject], none, none⟩

/-- The names of a blank node and of an IRI. -/
def blankAndIri : List Quad := [named (.blank "n") "v" none, named (.iri predicate) "w" none]

theorem unreserved_blankAndIri :
    ∀ u ∈ (describing.seenIn ⟨blankAndIri⟩).default, u.Unreserved := by
  rintro u hu
  rcases List.mem_cons.mp hu with rfl | hu
  · exact ⟨rfl, rfl⟩
  · obtain rfl := List.mem_singleton.mp hu
    exact ⟨by decide, rfl⟩

end Sample

open Sample in
theorem ExtensionEvaluator.execute_describe_named :
    evaluator.execute (stored blankAndIri) describing =
      pure (.graph [(named (.iri predicate) "w" none).triple]) ∧
    ∃ (xs : List Variable) (rows : List Solution) (triples : List Triple),
      Evaluation.Yields (evaluator.execute (stored blankAndIri) { describing with form := .select })
        (.solutions xs rows) ∧
      QueryOutcome.graph [(named (.iri predicate) "w" none).triple] = .graph triples ∧
      (∀ u, u ∈ triples ↔ u ∈ (describing.seenIn ⟨blankAndIri⟩).default ∧
        ∃ i, u.subject = .iri i ∧ Takes rows (.iri i)) := by
  have hexecute : evaluator.execute (stored blankAndIri) describing =
      pure (.graph [(named (.iri predicate) "w" none).triple]) := rfl
  obtain ⟨xs, rows, triples, hselect, houtcome, _, hfree⟩ :=
    execute_describe rfl rfl (by decide) (Evaluation.yields_of_eq_pure hexecute)
  exact ⟨hexecute, xs, rows, triples, hselect, houtcome, (hfree unreserved_blankAndIri).1⟩

open Sample in
theorem ExtensionEvaluator.execute_describe_overlooks :
    ∃ (xs : List Variable) (rows : List Solution),
      evaluator.execute (stored [named (.blank "n") "v" none]) { describing with form := .select } =
        pure (.solutions xs rows) ∧
      evaluator.execute (stored [named (.blank "n") "v" none]) describing = pure (.graph []) ∧
      ¬ Describes (describing.seenIn ⟨[named (.blank "n") "v" none]⟩) rows [] := by
  refine ⟨[subject], [⟨[(subject, some (.blank "n"))]⟩], rfl, rfl, fun h => ?_⟩
  refine List.not_mem_nil ((h (named (.blank "n") "v" none).triple).mpr ⟨?_, ?_⟩)
  · exact List.mem_singleton_self _
  · exact ⟨_, List.mem_singleton_self _, subject, rfl⟩

end SparqlBind
