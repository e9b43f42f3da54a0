import SparqlBind.Proofs.Inlining.Descriptions
import SparqlBind.Proofs.Semantics.Provenance

/-!
# Constructions

A template is instantiated with the rows of a table, in which IRIs stand for blank nodes, and the
triples are read back. Subjects and objects get their blank nodes again, but a predicate stays as it
is: where the solution has a blank node for predicate, and so no triple, the table has one.
-/

namespace SparqlBind

def TriplePattern.Unreserved (t : TriplePattern) : Prop :=
  t.subject.Unreserved ∧ t.predicate.toTermPattern.Unreserved ∧ t.object.Unreserved

namespace Skolem

def decodeResource (r : Resource) : Resource :=
  match decode r.toTerm with
  | .blank label => .blank label
  | _ => r

theorem ofTerm?_decode (t : Term) :
    Resource.ofTerm? (decode t) = (Resource.ofTerm? t).map decodeResource := by
  cases t with
  | literal l => rfl
  | blank label => rfl
  | iri i =>
    have hi : Resource.ofTerm? (.iri i) = some (.iri i) := rfl
    rw [hi, Option.map_some, decodeResource, Resource.toTerm]
    cases h : label? i with
    | none => simp [decode, h, Resource.ofTerm?]
    | some label => simp [decode, h, Resource.ofTerm?]

theorem decodeTriple_eq (u : Triple) :
    decodeTriple u = ⟨decodeResource u.subject, u.predicate, decode u.object⟩ := rfl

end Skolem

namespace Construction

/-- The triple of an instantiation with a blank node for predicate: it has the IRI that stands for
the blank node. -/
def leaked? (label : String → String) (row : Binding) (t : TriplePattern) : Option Triple := do
  let s ← Resource.ofTerm? (← term? label row t.subject)
  match ← term? label row t.predicate.toTermPattern with
  | .blank l => some ⟨s, ⟨Skolem.namespaceText ++ l⟩, ← term? label row t.object⟩
  | _ => none

variable {label : String → String} {row solution : Binding}

/-- On the solution a template has the terms it has on the row, read back. -/
theorem term?_decode (h : ∀ x, solution.get? x = (row.get? x).map Skolem.decode) {p : TermPattern}
    (hp : p.Unreserved) : term? label solution p = (term? label row p).map Skolem.decode := by
  cases p with
  | var x => exact h x
  | term t =>
    cases t with
    | blank l => rfl
    | iri i | literal l =>
      have hfree := hp _ rfl
      rw [← Term.isReserved_canonical] at hfree
      simp only [term?, Option.map_some, Skolem.decode_of_not_isReserved hfree]

theorem term?_predicate_ne_blank (h : ∀ x l, row.get? x ≠ some (.blank l)) (p : NamePattern)
    (l : String) : term? label row p.toTermPattern ≠ some (.blank l) := by
  cases p with
  | var x => exact h x l
  | iri i => simp [NamePattern.toTermPattern, term?]

/-- The triples of a row, read back, are those of the solution and those that leak. -/
theorem triple?_decode (hground : ∀ x l, row.get? x ≠ some (.blank l))
    (h : ∀ x, solution.get? x = (row.get? x).map Skolem.decode) {t : TriplePattern}
    (ht : t.Unreserved) :
    (triple? label row t).map Skolem.decodeTriple =
      (triple? label solution t).or (leaked? label solution t) := by
  obtain ⟨hs, hp, ho⟩ := ht
  unfold triple? leaked?
  rw [term?_decode h hs, term?_decode h hp, term?_decode h ho]
  have hpredicate := @term?_predicate_ne_blank label row hground t.predicate
  cases term? label row t.subject with
  | none => rfl
  | some s =>
    simp only [Option.map_some, Option.bind_eq_bind, Option.bind_some, Skolem.ofTerm?_decode]
    cases Resource.ofTerm? s with
    | none => rfl
    | some r =>
      simp only [Option.map_some, Option.bind_some]
      cases hP : term? label row t.predicate.toTermPattern with
      | none => rfl
      | some p =>
        cases p with
        | literal l => rfl
        | blank l => exact absurd hP (hpredicate l)
        | iri i =>
          cases hi : Skolem.label? i with
          | none =>
            have hdecode : Skolem.decode (.iri i) = .iri i := by simp [Skolem.decode, hi]
            simp only [Option.map_some, Option.bind_some, hdecode, Option.or_none]
            cases term? label row t.object <;> rfl
          | some l =>
            have hdecode : Skolem.decode (.iri i) = .blank l := by simp [Skolem.decode, hi]
            simp only [Option.map_some, Option.bind_some, hdecode, Option.none_or]
            rw [← Skolem.eq_of_label? hi]
            cases term? label row t.object <;> rfl

/-! ## The triples of all rows -/

/-- The blank nodes of a template on the row with the given number. -/
def rowLabel (chance : Chance) (index : Nat) (l : String) : String :=
  Chance.label ⟨chance.seed ++ toString index ++ "_:" ++ l⟩

/-- A triple is new once. -/
def addNew (c : List Triple × List Triple) (t : Triple) : List Triple × List Triple :=
  if c.2.contains t then c else (t :: c.1, t :: c.2)

theorem mem_foldl_addNew (ts : List Triple) (u : Triple) : ∀ new seen : List Triple,
    (u ∈ (ts.foldl addNew (new, seen)).1 ↔ u ∈ new ∨ u ∈ ts ∧ u ∉ seen) ∧
      (u ∈ (ts.foldl addNew (new, seen)).2 ↔ u ∈ seen ∨ u ∈ ts) := by
  induction ts with
  | nil => simp
  | cons t rest ih =>
    intro new seen
    rw [List.foldl_cons]
    by_cases ht : t ∈ seen
    · rw [show addNew (new, seen) t = (new, seen) by simp [addNew, ht], (ih new seen).1,
        (ih new seen).2]
      grind
    · rw [show addNew (new, seen) t = (t :: new, t :: seen) by simp [addNew, ht],
        (ih _ _).1, (ih _ _).2]
      grind

theorem mem_newTriples (seen ts : List Triple) (u : Triple) :
    (u ∈ (newTriples seen ts).1 ↔ u ∈ ts ∧ u ∉ seen) ∧
      (u ∈ (newTriples seen ts).2 ↔ u ∈ seen ∨ u ∈ ts) := by
  have h := mem_foldl_addNew ts u [] seen
  simp only [List.not_mem_nil, false_or] at h
  exact h

/-- Every triple of a row is given once, unless an earlier row has it. -/
theorem exists_triples (chance : Chance) (template : List TriplePattern) (rows : List Binding) :
    ∀ (index : Nat) (seen : List Triple), ∃ triples : List Triple,
      Construction.triples chance template index seen (Rows.ofBindings rows) = triples.map .ok ∧
      ∀ u, u ∈ triples ↔ u ∉ seen ∧ ∃ i row, rows[i]? = some row ∧
        ∃ t ∈ template, triple? (rowLabel chance (index + i)) row t = some u := by
  induction rows with
  | nil => exact fun _ _ => ⟨[], rfl, by simp⟩
  | cons row rest ih =>
    intro index seen
    obtain ⟨later, hlater, hmem⟩ :=
      ih (index + 1) (newTriples seen (rowTriples chance index template row)).2
    have hnew := mem_newTriples seen (rowTriples chance index template row)
    have hrow : ∀ u, u ∈ rowTriples chance index template row ↔
        ∃ t ∈ template, triple? (rowLabel chance index) row t = some u := by
      intro u
      simp only [rowTriples, List.mem_filterMap]
      rfl
    refine ⟨(newTriples seen (rowTriples chance index template row)).1 ++ later, ?_, fun u => ?_⟩
    · rw [List.map_append, ← hlater]
      rfl
    · rw [List.mem_append, hmem u, (hnew u).1, (hnew u).2, hrow u]
      constructor
      · rintro (⟨h, hs⟩ | ⟨hs, i, c, hi, h⟩)
        · exact ⟨hs, 0, row, rfl, h⟩
        · refine ⟨fun hu => hs (.inl hu), i + 1, c, hi, ?_⟩
          rwa [show index + (i + 1) = index + 1 + i by omega]
      · rintro ⟨hs, i, c, hi, h⟩
        by_cases hu : ∃ t ∈ template, triple? (rowLabel chance index) row t = some u
        · exact .inl ⟨hu, hs⟩
        · refine .inr ⟨fun hor => hor.elim hs hu, ?_⟩
          cases i with
          | zero =>
            obtain rfl := Option.some.inj hi
            exact absurd h hu
          | succ i =>
            refine ⟨i, c, hi, ?_⟩
            rwa [show index + 1 + i = index + (i + 1) by omega]

/-! ## Instantiations of solutions -/

/-- A solution and a part of the template make the triple. Solutions are numbered because each of
them has blank nodes of its own. -/
def Makes (make : (String → String) → Binding → TriplePattern → Option Triple) (chance : Chance)
    (template : List TriplePattern) (rows : List Solution) (u : Triple) : Prop :=
  ∃ i s, rows[i]? = some s ∧
    ∃ t ∈ template, make (rowLabel chance i) (Binding.ofSolution s) t = some u

variable {chance : Chance} {template : List TriplePattern} {rows : List Solution} {u : Triple}

theorem isReserved_of_makes_leaked? (h : Makes leaked? chance template rows u) :
    (Term.iri u.predicate).isReserved = true := by
  obtain ⟨i, s, _, t, _, h⟩ := h
  obtain ⟨_, _, h⟩ := Option.bind_eq_some_iff.mp h
  obtain ⟨_, _, h⟩ := Option.bind_eq_some_iff.mp h
  obtain ⟨p, _, h⟩ := Option.bind_eq_some_iff.mp h
  cases p with
  | blank l =>
    obtain ⟨_, _, h⟩ := Option.bind_eq_some_iff.mp h
    obtain rfl := Option.some.inj h
    simp [Term.isReserved, Skolem.label?_encode]
  | _ => cases h

theorem not_isReserved_term? {row : Binding} (hrow : row.mapping.Unreserved) {p : TermPattern}
    (hp : p.Unreserved) {t : Term} (h : term? label row p = some t) : t.isReserved = false := by
  cases p with
  | var x => exact hrow x t h
  | term v =>
    cases v with
    | blank l => exact Option.some.inj h ▸ rfl
    | iri i | literal l =>
      obtain rfl := Option.some.inj h
      rw [Term.isReserved_canonical]
      exact hp _ rfl

theorem triple?_eq_some {row : Binding} {t : TriplePattern} (h : triple? label row t = some u) :
    term? label row t.subject = some u.subject.toTerm ∧
      term? label row t.predicate.toTermPattern = some (.iri u.predicate) ∧
      term? label row t.object = some u.object := by
  obtain ⟨s, hs, h⟩ := Option.bind_eq_some_iff.mp h
  obtain ⟨r, hr, h⟩ := Option.bind_eq_some_iff.mp h
  obtain ⟨p, hp, h⟩ := Option.bind_eq_some_iff.mp h
  cases p with
  | iri i =>
    obtain ⟨o, ho, h⟩ := Option.bind_eq_some_iff.mp h
    obtain rfl := Option.some.inj h
    refine ⟨hs.trans ?_, hp, ho⟩
    cases s <;> cases hr <;> rfl
  | _ => cases h

theorem triple?_eq_none_of_leaked? {row : Binding} {t : TriplePattern}
    (h : leaked? label row t = some u) : triple? label row t = none := by
  obtain ⟨s, hs, h⟩ := Option.bind_eq_some_iff.mp h
  obtain ⟨r, hr, h⟩ := Option.bind_eq_some_iff.mp h
  obtain ⟨p, hp, h⟩ := Option.bind_eq_some_iff.mp h
  cases p with
  | blank l => simp [triple?, hs, hp]
  | _ => cases h

theorem makes_map_iff {make : (String → String) → Binding → TriplePattern → Option Triple}
    {bs : List Binding} (f : Binding → Solution) :
    Makes make chance template (bs.map f) u ↔ ∃ i b, bs[i]? = some b ∧
      ∃ t ∈ template, make (rowLabel chance i) (Binding.ofSolution (f b)) t = some u := by
  simp only [Makes, List.getElem?_map, Option.map_eq_some_iff]
  constructor
  · rintro ⟨i, _, ⟨b, hb, rfl⟩, h⟩
    exact ⟨i, b, hb, h⟩
  · rintro ⟨i, b, hb, h⟩
    exact ⟨i, _, ⟨b, hb, rfl⟩, h⟩

section GivenBack
variable {columns : List Variable} {bs : List Binding} {triples : List Triple}
variable (hcolumns : columns.Nodup) (htemplate : ∀ t ∈ template, t.Unreserved)
variable (htriples : Construction.triples chance template 0 [] (Rows.ofBindings bs) =
  triples.map .ok)
include hcolumns htemplate htriples

omit hcolumns htemplate in
theorem mem_decoded_iff : u ∈ triples.map Skolem.decodeTriple ↔ ∃ i b, bs[i]? = some b ∧
    ∃ t ∈ template, (triple? (rowLabel chance i) b t).map Skolem.decodeTriple = some u := by
  obtain ⟨as, has, hmem⟩ := exists_triples chance template bs 0 []
  obtain rfl : as = triples :=
    List.map_injective_iff.mpr (fun _ _ => Except.ok.inj) (has.symm.trans htriples)
  simp only [List.mem_map, hmem, List.not_mem_nil, not_false_eq_true, true_and, Nat.zero_add,
    Option.map_eq_some_iff]
  constructor
  · rintro ⟨v, ⟨i, b, hb, t, ht, hv⟩, hu⟩
    exact ⟨i, b, hb, t, ht, v, hv, hu⟩
  · rintro ⟨i, b, hb, t, ht, v, hv, hu⟩
    exact ⟨v, ⟨i, b, hb, t, ht, hv⟩, hu⟩

/-- Of the rows of a table, with IRIs for blank nodes, some triples leak. -/
theorem mem_decoded_of_shown (hbs : ∀ b ∈ bs, b.Shown columns) :
    u ∈ triples.map Skolem.decodeTriple ↔
      Makes triple? chance template
          (bs.map fun b => Skolem.decodeSolution (b.toSolution columns)) u ∨
        Makes leaked? chance template
          (bs.map fun b => Skolem.decodeSolution (b.toSolution columns)) u := by
  have hrow : ∀ i b t, bs[i]? = some b → t ∈ template →
      ((triple? (rowLabel chance i) b t).map Skolem.decodeTriple = some u ↔
        triple? (rowLabel chance i)
            (.ofSolution (Skolem.decodeSolution (b.toSolution columns))) t = some u ∨
          leaked? (rowLabel chance i)
            (.ofSolution (Skolem.decodeSolution (b.toSolution columns))) t = some u) := by
    intro i b t hb ht
    have hshown := hbs b (List.mem_of_getElem? hb)
    have hget := congrFun (Binding.mapping_decodeSolution hcolumns hshown.within)
    rw [triple?_decode hshown.ground hget (htemplate t ht), Option.or_eq_some_iff]
    exact or_congr_right (and_iff_right_of_imp triple?_eq_none_of_leaked?)
  rw [mem_decoded_iff htriples, makes_map_iff, makes_map_iff]
  constructor
  · rintro ⟨i, b, hb, t, ht, h⟩
    rcases (hrow i b t hb ht).mp h with h | h
    · exact .inl ⟨i, b, hb, t, ht, h⟩
    · exact .inr ⟨i, b, hb, t, ht, h⟩
  · rintro (⟨i, b, hb, t, ht, h⟩ | ⟨i, b, hb, t, ht, h⟩)
    · exact ⟨i, b, hb, t, ht, (hrow i b t hb ht).mpr (.inl h)⟩
    · exact ⟨i, b, hb, t, ht, (hrow i b t hb ht).mpr (.inr h)⟩

/-- Rows that hold no reserved IRI are given back as they are, and so are their triples. -/
theorem mem_decoded_of_unreserved
    (hbs : ∀ b ∈ bs, b.All fun x t => x ∈ columns ∧ t.isReserved = false) :
    u ∈ triples.map Skolem.decodeTriple ↔ Makes triple? chance template
      (bs.map fun b => Skolem.decodeSolution (b.toSolution columns)) u := by
  rw [mem_decoded_iff htriples, makes_map_iff]
  refine exists_congr fun i => exists_congr fun b => and_congr_right fun hb =>
    exists_congr fun t => and_congr_right fun ht => ?_
  have hall := hbs b (List.mem_of_getElem? hb)
  have hfree : b.mapping.Unreserved := fun x v hv => (hall.get? hv).2
  have hwithin : ∀ x, b.get? x ≠ none → x ∈ columns := by
    intro x hx
    obtain ⟨v, hv⟩ := Option.ne_none_iff_exists'.mp hx
    exact (hall.get? hv).1
  have hget : ∀ x, (Binding.ofSolution (Skolem.decodeSolution (b.toSolution columns))).get? x =
      b.get? x :=
    congrFun ((Binding.mapping_decodeSolution hcolumns hwithin).trans hfree.decoded_eq)
  have hterm : ∀ p, term? (rowLabel chance i)
      (.ofSolution (Skolem.decodeSolution (b.toSolution columns))) p =
        term? (rowLabel chance i) b p := by
    intro p
    cases p with
    | var x => exact hget x
    | term v => cases v <;> rfl
  have hsame : triple? (rowLabel chance i)
      (.ofSolution (Skolem.decodeSolution (b.toSolution columns))) t =
        triple? (rowLabel chance i) b t := by
    unfold triple?
    rw [hterm, hterm, hterm]
  rw [hsame]
  cases h : triple? (rowLabel chance i) b t with
  | none => simp
  | some v =>
    obtain ⟨hs, _, ho⟩ := triple?_eq_some h
    have hv : v.Unreserved := ⟨not_isReserved_term? hfree (htemplate t ht).1 hs,
      not_isReserved_term? hfree (htemplate t ht).2.2 ho⟩
    rw [Option.map_some, hv.decoded_eq]

end GivenBack

theorem exists_ofBindings {rows : Rows} {triples : List Triple} (index : Nat) (seen : List Triple)
    (h : Construction.triples chance template index seen rows = triples.map .ok) :
    ∃ bs, rows = Rows.ofBindings bs := by
  induction rows generalizing index seen triples with
  | nil => exact ⟨[], rfl⟩
  | cons r rest ih =>
    cases r with
    | error e => cases triples <;> cases h
    | ok b =>
      obtain ⟨before, after, _, _, hafter⟩ := List.map_eq_append_iff.mp h.symm
      obtain ⟨bs, rfl⟩ := ih (index + 1) _ hafter.symm
      exact ⟨b :: bs, rfl⟩

theorem not_isReserved_of_makes_triple? (htemplate : ∀ t ∈ template, t.Unreserved)
    (hrows : ∀ s ∈ rows, s.mapping.Unreserved) (h : Makes triple? chance template rows u) :
    (Term.iri u.predicate).isReserved = false := by
  obtain ⟨i, s, hs, t, ht, h⟩ := h
  exact not_isReserved_term? (hrows s (List.mem_of_getElem? hs)) (htemplate t ht).2.1
    (triple?_eq_some h).2.1

end Construction

/-! ## The terms of an outcome -/

namespace QueryOutcome

/-- The values of solutions and the subjects and objects of triples. -/
def values : QueryOutcome → List Term
  | solutions _ rows => rows.flatMap fun s => s.columns.filterMap (·.2)
  | boolean _ => []
  | graph triples => triples.flatMap fun u => [u.subject.toTerm, u.object]

end QueryOutcome

theorem Skolem.toTerm_decodeResource (r : Resource) : (decodeResource r).toTerm = decode r.toTerm := by
  unfold decodeResource
  cases r with
  | blank label => rfl
  | iri i => cases h : label? i <;> simp [Resource.toTerm, decode, h]

theorem EngineAnswer.Collected.not_isReserved {answer : EngineAnswer} {outcome : QueryOutcome}
    (h : answer.Collected outcome) : ∀ t ∈ outcome.values, t.isReserved = false := by
  cases answer with
  | boolean b =>
    obtain rfl : outcome = .boolean b := h
    simp [QueryOutcome.values]
  | solutions xs items =>
    obtain ⟨rows, _, rfl⟩ := h
    intro t ht
    obtain ⟨_, hs, ht⟩ := List.mem_flatMap.mp ht
    obtain ⟨s, _, rfl⟩ := List.mem_map.mp hs
    obtain ⟨_, hc, ht⟩ := List.mem_filterMap.mp ht
    obtain ⟨c, _, rfl⟩ := List.mem_map.mp hc
    obtain ⟨v, _, rfl⟩ := Option.map_eq_some_iff.mp ht
    exact Skolem.isReserved_decode v
  | graph items =>
    obtain ⟨triples, _, rfl⟩ := h
    intro t ht
    obtain ⟨_, hu, ht⟩ := List.mem_flatMap.mp ht
    obtain ⟨u, _, rfl⟩ := List.mem_map.mp hu
    rw [Skolem.decodeTriple_eq, List.mem_pair, Skolem.toTerm_decodeResource] at ht
    rcases ht with rfl | rfl <;> exact Skolem.isReserved_decode _

theorem mem_default_of_mem_describe {d : Dataset} {columns : List Variable} {rows : Rows}
    {u : Triple} (h : .ok u ∈ describe d columns rows) : u ∈ d.default := by
  obtain ⟨r, _, hu⟩ := List.mem_flatMap.mp h
  cases r with
  | error e => cases List.mem_singleton.mp hu
  | ok row =>
    obtain ⟨v, hv, hvu⟩ := List.mem_map.mp hu
    obtain rfl := Except.ok.inj hvu
    obtain ⟨_, _, hv⟩ := List.mem_flatMap.mp hv
    exact (List.mem_filter.mp hv).1

theorem Query.all_of_rowsIn {q : Query} {store : Store} {now : Timestamp} {seed : String}
    (hstore : (q.seenIn store).Unreserved) (hquery : q.pattern.MakesNone) {b : Binding}
    (h : .ok b ∈ q.rowsIn store now seed) :
    b.All fun x t => x ∈ q.columns ∧ t.isReserved = false :=
  (hquery.simplify .empty none).rows hstore Binding.all_empty (fun _ _ h => h.2)
    (fun _ hx _ ht => ⟨mem_unionVariables.mpr (.inr hx), ht⟩) h

namespace ExtensionEvaluator

variable {ev : ExtensionEvaluator} {context : EvaluationContext} {q : Query}
variable {outcome : QueryOutcome} {now : Timestamp} {seed : String} {triples : List Triple}

theorem not_isReserved_of_execute_describe (hengine : context.engine = .standard now seed)
    (hstore : (q.seenIn context.store).Unreserved) (hform : q.form = .describe)
    (h : Evaluation.Yields (ev.execute context q) (.graph triples)) :
    ∀ u ∈ triples, (Term.iri u.predicate).isReserved = false := by
  obtain ⟨columns, rows, _, ⟨answer, hanswer, hcollected⟩, _, _⟩ := yields_execute hengine h
  rw [hform] at hanswer
  obtain rfl := Except.ok.inj hanswer
  obtain ⟨as, has, houtcome⟩ := hcollected
  obtain rfl := QueryOutcome.graph.inj houtcome
  intro _ hdecoded
  obtain ⟨u, hu, rfl⟩ := List.mem_map.mp hdecoded
  have hmem : Except.ok u ∈ describe (q.seenIn context.store) columns rows :=
    has ▸ List.mem_map_of_mem hu
  refine hstore.default u (mem_default_of_mem_describe hmem) _ ?_
  exact List.mem_cons_of_mem _ List.mem_cons_self

theorem execute_construct {template : List TriplePattern}
    (hengine : context.engine = .standard now seed) (hstore : (q.seenIn context.store).Unreserved)
    (hquery : q.pattern.MakesNone) (hform : q.form = .construct template)
    (htemplate : ∀ t ∈ template, t.Unreserved)
    (h : Evaluation.Yields (ev.execute context q) (.graph triples)) :
    ∃ (xs : List Variable) (rows : List Solution),
      Evaluation.Yields (ev.execute context { q with form := .select }) (.solutions xs rows) ∧
      (∀ s ∈ rows, s.mapping.Unreserved) ∧
      ∀ u, u ∈ triples ↔ Construction.Makes Construction.triple? ⟨seed⟩ template rows u ∨
        q.pattern.extensionCalls ≠ [] ∧
          Construction.Makes Construction.leaked? ⟨seed⟩ template rows u := by
  obtain ⟨columns, rows, hcolumns, ⟨answer, hanswer, hcollected⟩, hselect, hrows⟩ :=
    yields_execute hengine h
  rw [hform] at hanswer
  obtain rfl := Except.ok.inj hanswer
  obtain ⟨as, has, houtcome⟩ := hcollected
  obtain rfl := QueryOutcome.graph.inj houtcome
  have hdecoded : ∀ bs : List Binding, ∀ s ∈ bs.map fun b =>
      Skolem.decodeSolution (b.toSolution columns), s.mapping.Unreserved := by
    intro bs s hs
    obtain ⟨b, _, rfl⟩ := List.mem_map.mp hs
    rw [Solution.mapping_decodeSolution]
    exact Mapping.unreserved_decoded _
  rcases hrows with ⟨hcalls, bs, rfl, hbs⟩ | ⟨hcalls, rfl, rfl⟩
  · refine ⟨columns, _, hselect bs rfl, hdecoded bs, fun u => ?_⟩
    rw [Construction.mem_decoded_of_shown hcolumns htemplate has hbs]
    simp [hcalls]
  · obtain ⟨bs, hbs⟩ := Construction.exists_ofBindings 0 [] has
    have hall : ∀ b ∈ bs, b.All fun x t => x ∈ q.columns ∧ t.isReserved = false := fun b hb =>
      Query.all_of_rowsIn hstore hquery (hbs ▸ Rows.mem_ofBindings.mpr hb)
    refine ⟨_, _, hselect bs hbs, hdecoded bs, fun u => ?_⟩
    rw [Construction.mem_decoded_of_unreserved hcolumns htemplate (hbs ▸ has) hall]
    simp [hcalls]

/-- Solutions, subjects and objects hold no reserved IRI, and a description none at all. A
construction has one only for predicate, when the query holds a call and a solution of the query,
put into the template, has a blank node there; the rest of it is what the solutions make. -/
theorem execute_terms (hengine : context.engine = .standard now seed)
    (hstore : (q.seenIn context.store).Unreserved) (hquery : q.pattern.MakesNone)
    (htemplate : ∀ template, q.form = .construct template → ∀ t ∈ template, t.Unreserved)
    (h : Evaluation.Yields (ev.execute context q) outcome) :
    (∀ t ∈ outcome.values, t.isReserved = false) ∧
      (q.form = .describe → ∀ triples, outcome = .graph triples →
        ∀ u ∈ triples, (Term.iri u.predicate).isReserved = false) ∧
      ∀ template triples, q.form = .construct template → outcome = .graph triples →
        ∃ (xs : List Variable) (rows : List Solution),
          Evaluation.Yields (ev.execute context { q with form := .select }) (.solutions xs rows) ∧
          (∀ u, u ∈ triples ↔ Construction.Makes Construction.triple? ⟨seed⟩ template rows u ∨
            q.pattern.extensionCalls ≠ [] ∧
              Construction.Makes Construction.leaked? ⟨seed⟩ template rows u) ∧
          ∀ u ∈ triples, (Term.iri u.predicate).isReserved = true ↔
            q.pattern.extensionCalls ≠ [] ∧
              Construction.Makes Construction.leaked? ⟨seed⟩ template rows u := by
  refine ⟨?_, ?_, ?_⟩
  · obtain ⟨_, _, _, ⟨answer, _, hcollected⟩, _, _⟩ := yields_execute hengine h
    exact hcollected.not_isReserved
  · rintro hform triples rfl
    exact not_isReserved_of_execute_describe hengine hstore hform h
  · rintro template triples hform rfl
    have htemplate := htemplate template hform
    obtain ⟨xs, rows, hselect, hrows, hmem⟩ :=
      execute_construct hengine hstore hquery hform htemplate h
    refine ⟨xs, rows, hselect, hmem, fun u hu => ⟨fun hreserved => ?_, fun hleaked => ?_⟩⟩
    · refine ((hmem u).mp hu).resolve_left fun hmade => ?_
      have hfree := Construction.not_isReserved_of_makes_triple? htemplate hrows hmade
      exact Bool.false_ne_true (hfree.symm.trans hreserved)
    · exact Construction.isReserved_of_makes_leaked? hleaked.2

end ExtensionEvaluator

namespace Sample

/-- Has the subjects for predicates. -/
def predicated : TriplePattern := ⟨.term (.iri predicate), .var subject, .var object⟩

def constructing : Query :=
  ⟨.construct [predicated], .extend names target (concatText "a"), none, none⟩

theorem holdsNone_named {s : Resource} {name : String} {g : Option Resource}
    (hs : s.toTerm.isReserved = false) : (named s name g).triple.HoldsNone := by
  intro t ht
  rcases List.mem_cons.mp ht with rfl | ht
  · exact hs
  · rcases List.mem_pair.mp ht with rfl | rfl
    · change (Term.iri predicate).isReserved = false
      decide
    · rfl

theorem unreserved_seenIn_blankAndIri : (constructing.seenIn ⟨blankAndIri⟩).Unreserved where
  default u hu := by
    rcases List.mem_pair.mp hu with rfl | rfl
    · exact holdsNone_named rfl
    · exact holdsNone_named (by decide)
  names g hg := by cases hg
  named g hg := by cases hg

theorem unreserved_predicated : predicated.Unreserved := by
  refine ⟨fun t ht => ?_, fun t ht => ?_, fun t ht => ?_⟩
  · obtain rfl := TermPattern.term.inj ht
    decide
  · cases ht
  · cases ht

end Sample

open Sample in
theorem ExtensionEvaluator.execute_terms_predicated :
    evaluator.execute (stored blankAndIri) constructing =
      pure (.graph [⟨.iri predicate, reserved, .literal (.plain "v")⟩,
        ⟨.iri predicate, predicate, .literal (.plain "w")⟩]) ∧
    (∀ t ∈ [Term.iri predicate, .literal (.plain "v"), .iri predicate, .literal (.plain "w")],
      t.isReserved = false) ∧
    ∃ (xs : List Variable) (rows : List Solution),
      Evaluation.Yields
        (evaluator.execute (stored blankAndIri) { constructing with form := .select })
        (.solutions xs rows) ∧
      Construction.Makes Construction.leaked? ⟨""⟩ [predicated] rows
        ⟨.iri predicate, reserved, .literal (.plain "v")⟩ := by
  have hexecute : evaluator.execute (stored blankAndIri) constructing =
      pure (.graph [⟨.iri predicate, reserved, .literal (.plain "v")⟩,
        ⟨.iri predicate, predicate, .literal (.plain "w")⟩]) := rfl
  obtain ⟨hvalues, _, hgraph⟩ := execute_terms rfl unreserved_seenIn_blankAndIri
    (by exact ⟨trivial, by decide, by decide⟩)
    (fun template h t ht => by
      obtain rfl := QueryForm.construct.inj h
      obtain rfl := List.mem_singleton.mp ht
      exact unreserved_predicated)
    (Evaluation.yields_of_eq_pure hexecute)
  obtain ⟨xs, rows, hselect, _, hreserved⟩ := hgraph _ _ rfl rfl
  refine ⟨hexecute, hvalues, xs, rows, hselect, ?_⟩
  exact ((hreserved _ List.mem_cons_self).mp (by decide)).2

open Sample in
theorem ExtensionEvaluator.execute_construct_leaks :
    ∃ (xs : List Variable) (rows : List Solution),
      evaluator.execute (stored [named (.blank "n") "v" none])
        { constructing with form := .select } = pure (.solutions xs rows) ∧
      evaluator.execute (stored [named (.blank "n") "v" none]) constructing =
        pure (.graph [⟨.iri predicate, reserved, .literal (.plain "v")⟩]) ∧
      (Term.iri reserved).isReserved = true ∧
      ∀ u, ¬ Construction.Makes Construction.triple? ⟨""⟩ [predicated] rows u := by
  refine ⟨[subject, object, target], [⟨[(subject, some (.blank "n")),
    (object, some (.literal (.plain "v"))), (target, some (.literal (.plain "a")))]⟩], rfl, rfl,
    by decide, ?_⟩
  rintro u ⟨i, s, hs, t, ht, hmade⟩
  obtain rfl := List.mem_singleton.mp (List.mem_of_getElem? hs)
  obtain rfl := List.mem_singleton.mp ht
  cases hmade

end SparqlBind
