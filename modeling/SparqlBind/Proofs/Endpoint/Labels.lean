import SparqlBind.Proofs.Endpoint.Refusals

/-!
# Media types and syntaxes

A body is written in one of five syntaxes, two of which share the XML format. The syntax follows the
shape of the outcome while the media type follows the `Accept` value, so that the two agree has to be
shown. They do, unless a query is asked for the XML syntax of the other shape by name: then the body
keeps its syntax. A construction is labelled anew and has no such exception.
-/

namespace SparqlBind

/-- The syntaxes that bodies are written in. -/
inductive BodySyntax
  | json
  | resultsXml
  | csv
  | turtle
  | rdfXml
deriving DecidableEq

namespace BodySyntax

def format : BodySyntax → ResultFormat
  | json => .json
  | resultsXml => .xml
  | csv => .csv
  | turtle => .turtle
  | rdfXml => .xml

/-- The media type of the other syntax with the same format. -/
def foreign? : BodySyntax → Option String
  | resultsXml => some "application/rdf+xml"
  | rdfXml => some "application/sparql-results+xml"
  | _ => none

/-- The media types of the table that bodies in the syntax may carry. -/
def mediaTypes (s : BodySyntax) : List String :=
  ((SparqlBind.mediaTypes.filter (·.format = s.format)).map (·.mediaType)).filter (s.foreign? ≠ some ·)

theorem mem_mediaTypes_iff {s : BodySyntax} {mediaType : String} : mediaType ∈ s.mediaTypes ↔
    (∃ r ∈ SparqlBind.mediaTypes, r.format = s.format ∧ r.mediaType = mediaType) ∧
      s.foreign? ≠ some mediaType := by
  simp [mediaTypes, and_assoc]

example : rdfXml.mediaTypes = ["application/xml", "application/rdf+xml", "text/xml"] := by decide

end BodySyntax

theorem take_eq_of_append_eq {a b c d : String} (h : a ++ b = c ++ d) {n : Nat}
    (ha : n ≤ a.toList.length) (hc : n ≤ c.toList.length) : a.toList.take n = c.toList.take n := by
  have htake : (a.toList ++ b.toList).take n = (c.toList ++ d.toList).take n := by
    rw [← String.toList_append, h, String.toList_append]
  rwa [List.take_append_of_le_length ha, List.take_append_of_le_length hc] at htake

namespace QueryOutcome

/-- The bodies of an outcome in the syntaxes that its shape has. -/
inductive Writes : QueryOutcome → BodySyntax → String → Prop
  | solutionsJson (xs : List Variable) (rows : List Solution) :
    Writes (.solutions xs rows) .json (Results.jsonSolutions xs rows)
  | solutionsXml (xs : List Variable) (rows : List Solution) :
    Writes (.solutions xs rows) .resultsXml (Results.xmlSolutions xs rows)
  | solutionsCsv (xs : List Variable) (rows : List Solution) :
    Writes (.solutions xs rows) .csv (Results.csvSolutions xs rows)
  | booleanJson (b : Bool) : Writes (.boolean b) .json (Results.jsonBoolean b)
  | booleanXml (b : Bool) : Writes (.boolean b) .resultsXml (Results.xmlBoolean b)
  | booleanCsv (b : Bool) : Writes (.boolean b) .csv (Results.booleanText b)
  | graphTurtle (triples : List Triple) : Writes (.graph triples) .turtle (Turtle.render [] triples)
  | graphXml {triples : List Triple} {body : String} (h : RdfXml.render [] triples = .ok body) :
    Writes (.graph triples) .rdfXml body

variable {o : QueryOutcome} {format : ResultFormat} {body : String}

theorem writes_of_serialize (h : o.serialize format = .ok body) :
    ∃ s : BodySyntax, s.format = format ∧ o.Writes s body := by
  cases o with
  | solutions xs rows =>
    cases format with
    | turtle => cases h
    | json =>
      cases h
      exact ⟨_, rfl, .solutionsJson xs rows⟩
    | xml =>
      cases h
      exact ⟨_, rfl, .solutionsXml xs rows⟩
    | csv =>
      cases h
      exact ⟨_, rfl, .solutionsCsv xs rows⟩
  | boolean b =>
    cases format with
    | turtle => cases h
    | json =>
      cases h
      exact ⟨_, rfl, .booleanJson b⟩
    | xml =>
      cases h
      exact ⟨_, rfl, .booleanXml b⟩
    | csv =>
      cases h
      exact ⟨_, rfl, .booleanCsv b⟩
  | graph triples =>
    cases format with
    | json | csv => cases h
    | turtle =>
      cases h
      exact ⟨_, rfl, .graphTurtle triples⟩
    | xml =>
      simp only [serialize] at h
      cases hrender : RdfXml.render [] triples with
      | error message =>
        rw [hrender] at h
        cases h
      | ok _ =>
        rw [hrender] at h
        cases h
        exact ⟨_, rfl, .graphXml hrender⟩

/-- The syntax with the XML format is told by the shape of the outcome. -/
theorem Writes.eq_rdfXml_iff {s : BodySyntax} (h : o.Writes s body) (hxml : s.format = .xml) :
    s = .rdfXml ↔ o.shape = .graph := by
  cases h with
  | solutionsXml | booleanXml => exact iff_of_false nofun nofun
  | graphXml => exact iff_of_true rfl rfl
  | _ => cases hxml

/-- No body is written in both XML syntaxes: their first lines differ. -/
theorem Writes.not_rdfXml {o o' : QueryOutcome} {body : String} (h : o.Writes .resultsXml body) :
    ¬ o'.Writes .rdfXml body := by
  obtain ⟨rest, rfl⟩ : ∃ rest, body = "<?xml version=\"1.0\"?>" ++ rest := by
    cases h <;> exact ⟨_, rfl⟩
  intro h'
  cases h' with
  | @graphXml triples _ h' =>
    unfold RdfXml.render at h'
    dsimp only at h'
    split at h'
    · cases h'
    · have hbody := Except.ok.inj h'
      simp only [String.append_assoc] at hbody
      have htake := take_eq_of_append_eq hbody (n := 20) (by decide) (by decide)
      revert htake
      decide

end QueryOutcome

/-! ## Labels -/

/-- The value is the media type of the XML syntax that answers of the form are not written in. -/
def QueryForm.AsksOtherXml : QueryForm → Option String → Prop
  | select, accept => accept = some "application/rdf+xml"
  | ask, accept => accept = some "application/rdf+xml"
  | describe, accept => accept = some "application/sparql-results+xml"
  | construct _, _ => False

theorem graphRepresentation_mem {r : Representation} (h : r ∈ mediaTypes) :
    graphRepresentation r ∈ mediaTypes := by
  revert r
  decide

theorem negotiate_mem (accept : Option String) (kind : OperationKind) :
    negotiate accept kind ∈ mediaTypes := by
  have hchosen : (accept.bind representation?).getD defaultRepresentation ∈ mediaTypes := by
    cases hr : accept.bind representation? with
    | none => decide
    | some r =>
      obtain ⟨_, _, hfound⟩ := Option.bind_eq_some_iff.mp hr
      exact (representation?_eq_some_iff.mp hfound).1
  unfold negotiate
  dsimp only
  split
  · exact graphRepresentation_mem hchosen
  · exact hchosen

/-- A media type other than the default one is only given when it is asked for. -/
theorem eq_of_mediaType_negotiate {accept : Option String} {kind : OperationKind} {mediaType : String}
    (hkind : kind ≠ .construct) (hdefault : mediaType ≠ defaultRepresentation.mediaType)
    (h : (negotiate accept kind).mediaType = mediaType) : accept = some mediaType := by
  obtain rfl := h
  exact (negotiate_of_ne_default hkind fun h => hdefault (congrArg Representation.mediaType h)).2

theorem mediaType_graphRepresentation {r : Representation}
    (h : (graphRepresentation r).format = .xml) :
    (graphRepresentation r).mediaType = "application/rdf+xml" := by
  rcases r with ⟨mediaType, format⟩
  cases format with
  | xml => rfl
  | json | csv | turtle => cases h

theorem mediaType_negotiate_mem {form : QueryForm} {accept : Option String} {s : BodySyntax}
    (hformat : s.format = (negotiate accept form.kind).format)
    (hxml : s.format = .xml → (s = .rdfXml ↔ form.shape = .graph))
    (h : s.format = .xml → ¬ form.AsksOtherXml accept) :
    (negotiate accept form.kind).mediaType ∈ s.mediaTypes := by
  refine BodySyntax.mem_mediaTypes_iff.mpr
    ⟨⟨_, negotiate_mem accept form.kind, hformat.symm, rfl⟩, ?_⟩
  intro hforeign
  cases s with
  | json | csv | turtle => cases hforeign
  | resultsXml =>
    have hlabel := (Option.some.inj hforeign).symm
    cases form with
    | select | ask => exact h rfl (eq_of_mediaType_negotiate (by decide) (by decide) hlabel)
    | construct _ | describe => cases (hxml rfl).mpr rfl
  | rdfXml =>
    have hlabel := (Option.some.inj hforeign).symm
    cases form with
    | select | ask => cases (hxml rfl).mp rfl
    | describe => exact h rfl (eq_of_mediaType_negotiate (by decide) (by decide) hlabel)
    | construct _ =>
      exact absurd (hlabel.symm.trans (mediaType_graphRepresentation hformat.symm)) (by decide)

/-- The media type of an answer is one of the syntax that its body is written in, unless the query
asks for the XML syntax it has no answer in. Solutions and truth values keep theirs then, under the
media type that was asked for. -/
theorem QueryEndpoint.query_label {e : QueryEndpoint} {text : String} {accept : Option String}
    {clock : Nat → Instant} (hengine : e.engine.InForm) {response : QueryResponse}
    (h : (e.query text accept).run.run clock = .ok response) :
    ∃ q kind o s, classify text e.namespaces = .ok (q, kind) ∧
      (e.outcome q).run.run clock = .ok o ∧ o.Writes s response.body ∧
      (s.format ≠ .xml ∨ ¬ q.form.AsksOtherXml accept → response.mediaType ∈ s.mediaTypes) ∧
      (q.form = .select ∨ q.form = .ask → accept = some "application/rdf+xml" →
        s = .resultsXml ∧ response.mediaType = "application/rdf+xml") := by
  obtain ⟨q, o, hq, ho, hbody, hlabel⟩ := stages_of_query h
  obtain ⟨s, hformat, hwrites⟩ := QueryOutcome.writes_of_serialize hbody
  have hshape : o.shape = q.form.shape := shape_of_outcome hengine ho
  have hxml : s.format = .xml → (s = .rdfXml ↔ q.form.shape = .graph) := by
    rw [← hshape]
    exact hwrites.eq_rdfXml_iff
  refine ⟨q, _, o, s, hq, ho, hwrites, fun hs => ?_, fun hform haccept => ?_⟩
  · rw [hlabel]
    exact mediaType_negotiate_mem hformat hxml fun h => hs.resolve_left (not_not_intro h)
  · have hrow : negotiate accept q.form.kind = ⟨"application/rdf+xml", .xml⟩ := by
      obtain rfl := haccept
      rcases hform with hform | hform <;> rw [hform] <;>
        exact negotiate_row (r := ⟨"application/rdf+xml", .xml⟩) (by decide) (by decide)
    have hgraph : q.form.shape ≠ .graph := by
      rcases hform with hform | hform <;> rw [hform] <;> decide
    rw [hrow] at hformat hlabel
    refine ⟨?_, hlabel⟩
    cases s with
    | resultsXml => rfl
    | rdfXml => exact absurd ((hxml rfl).mp rfl) hgraph
    | json | csv | turtle => cases hformat

namespace Sample

def describeAll : Query := ⟨.describe, .project (.bgp []) [], none, none⟩

theorem classify_describeAll :
    classify "DESCRIBE * {}" (endpoint []).namespaces = .ok (describeAll, .describe) := by cbv

theorem outcome_describeAll : ((endpoint []).outcome describeAll).run.run still = .ok (.graph []) :=
  rfl

end Sample

open Sample in
theorem QueryEndpoint.query_label_askAll :
    ((endpoint []).query "ASK {}" (some "text/csv")).run.run still = .ok ⟨"text/csv", "true"⟩ ∧
    ∃ s, (QueryOutcome.boolean true).Writes s "true" ∧ "text/csv" ∈ s.mediaTypes := by
  have hquery : ((endpoint []).query "ASK {}" (some "text/csv")).run.run still =
      .ok ⟨"text/csv", "true"⟩ := query_of_serialize classify_askAll outcome_askAll rfl
  obtain ⟨q, kind, o, s, hq, ho, hwrites, hlabel, -⟩ :=
    query_label (Engine.inForm_standard _ _) hquery
  obtain ⟨rfl, -⟩ := Prod.mk.inj (Except.ok.inj (hq.symm.trans classify_askAll))
  obtain rfl := Except.ok.inj (ho.symm.trans outcome_askAll)
  exact ⟨hquery, s, hwrites, hlabel (.inr (by simp [QueryForm.AsksOtherXml, askAll]))⟩

open Sample in
/-- A truth value labelled as a graph and a graph labelled as a truth value, each asked for so. -/
theorem QueryEndpoint.query_label_other_xml :
    (∃ body, ((endpoint []).query "ASK {}" (some "application/rdf+xml")).run.run still =
        .ok ⟨"application/rdf+xml", body⟩ ∧
      (QueryOutcome.boolean true).Writes .resultsXml body ∧
      ∀ o : QueryOutcome, ¬ o.Writes .rdfXml body) ∧
    ∃ body, ((endpoint []).query "DESCRIBE * {}" (some "application/sparql-results+xml")).run.run
        still = .ok ⟨"application/sparql-results+xml", body⟩ ∧
      (QueryOutcome.graph []).Writes .rdfXml body ∧
      ∀ o : QueryOutcome, ¬ o.Writes .resultsXml body := by
  constructor
  · have hwrites : (QueryOutcome.boolean true).Writes .resultsXml (Results.xmlBoolean true) :=
      .booleanXml true
    exact ⟨_, query_of_serialize classify_askAll outcome_askAll rfl, hwrites,
      fun _ => hwrites.not_rdfXml⟩
  · obtain ⟨body, hbody⟩ : ∃ body, RdfXml.render [] [] = .ok body := ⟨_, rfl⟩
    have hwrites : (QueryOutcome.graph []).Writes .rdfXml body := .graphXml hbody
    have hserialize : (QueryOutcome.graph []).serialize .xml = .ok body := by
      rw [QueryOutcome.serialize, hbody]
      rfl
    exact ⟨body, query_of_serialize classify_describeAll outcome_describeAll hserialize, hwrites,
      fun _ h => h.not_rdfXml hwrites⟩

end SparqlBind
