import Mathlib
import SparqlBind.Proofs.Endpoint.Stages
import SparqlBind.Proofs.Scalars

/-!
# Refused media types

An answer has a form in the format asked for, or the query fails. Which `Accept` values a query is
refused for depends on its form alone: the substitute formats of a construction cover every row of
the table of media types, while a description, whose outcome has the same shape, has none.
-/

namespace SparqlBind

theorem representation?_eq_some_iff {mediaType : String} {r : Representation} :
    representation? mediaType = some r ↔ r ∈ mediaTypes ∧ mediaType = r.mediaType := by
  constructor
  · intro h
    have hfound : (r.mediaType == mediaType) = true :=
      List.find?_some (p := fun r : Representation => r.mediaType == mediaType) h
    exact ⟨List.mem_of_find?_eq_some h, (eq_of_beq hfound).symm⟩
  · -- no media type has two rows
    have hrow : ∀ r ∈ mediaTypes, representation? r.mediaType = some r := by decide
    rintro ⟨hr, rfl⟩
    exact hrow r hr

section Negotiation
variable {accept : Option String} {kind : OperationKind}

theorem negotiate_row {r : Representation} (hkind : kind ≠ .construct) (hr : r ∈ mediaTypes) :
    negotiate (some r.mediaType) kind = r := by
  unfold negotiate
  rw [if_neg hkind, Option.bind_some, representation?_eq_some_iff.mpr ⟨hr, rfl⟩]
  rfl

/-- What is not the default was asked for. -/
theorem negotiate_of_ne_default (hkind : kind ≠ .construct)
    (h : negotiate accept kind ≠ defaultRepresentation) :
    negotiate accept kind ∈ mediaTypes ∧ accept = some (negotiate accept kind).mediaType := by
  unfold negotiate at h ⊢
  rw [if_neg hkind] at h ⊢
  cases hr : accept.bind representation? with
  | none =>
    rw [hr] at h
    exact absurd rfl h
  | some r =>
    obtain ⟨mediaType, haccept, hfound⟩ := Option.bind_eq_some_iff.mp hr
    obtain ⟨hmem, rfl⟩ := representation?_eq_some_iff.mp hfound
    exact ⟨hmem, haccept⟩

/-- The value is a media type of the table with the format. -/
def Asks (accept : Option String) (format : ResultFormat) : Prop :=
  ∃ r ∈ mediaTypes, r.format = format ∧ accept = some r.mediaType

theorem asks_turtle_iff : Asks accept .turtle ↔ accept = some "text/turtle" := by
  simp [Asks, mediaTypes]

theorem format_negotiate_iff {format : ResultFormat} (hkind : kind ≠ .construct)
    (hformat : format ≠ defaultRepresentation.format) :
    (negotiate accept kind).format = format ↔ Asks accept format := by
  constructor
  · rintro rfl
    obtain ⟨hmem, haccept⟩ :=
      negotiate_of_ne_default hkind fun h => hformat (congrArg Representation.format h)
    exact ⟨_, hmem, rfl, haccept⟩
  · rintro ⟨r, hmem, rfl, rfl⟩
    rw [negotiate_row hkind hmem]

end Negotiation

/-! ## Shapes without a form -/

/-- Bodies of this format do not exist for this shape. -/
def OutcomeShape.Lacks : OutcomeShape → ResultFormat → Prop
  | graph, format => format = .json ∨ format = .csv
  | _, format => format = .turtle

namespace QueryOutcome

variable {o : QueryOutcome} {format : ResultFormat}

theorem serialize_of_lacks (h : o.shape.Lacks format) :
    o.serialize format = .error (.unsupportedFormat o.shape format) := by
  cases o with
  | solutions | boolean =>
    obtain rfl := h
    rfl
  | graph => obtain rfl | rfl := h <;> rfl

/-- Writing the outcome in the format does not fail midway. -/
def Writable (o : QueryOutcome) (format : ResultFormat) : Prop :=
  ∀ message, o.serialize format ≠ .error (.writer message)

/-- Only a graph that RDF/XML has no property element for fails midway. -/
theorem writable_iff : o.Writable format ↔
    format = .xml → ∀ triples, o = .graph triples → ¬ triples.any RdfXml.refused := by
  constructor
  · rintro h rfl triples rfl hrefused
    refine h "RDF/XML reserved syntax term is not allowed as a property" ?_
    simp only [serialize, RdfXml.render, if_pos hrefused]
    rfl
  · intro h message
    cases o with
    | solutions | boolean => cases format <;> exact nofun
    | graph triples =>
      cases format with
      | json | csv | turtle => exact nofun
      | xml =>
        simp only [serialize, RdfXml.render, if_neg (h rfl triples rfl)]
        exact nofun

theorem exists_serialize (h : ¬ o.shape.Lacks format) (hw : o.Writable format) :
    ∃ body, o.serialize format = .ok body := by
  cases o with
  | solutions | boolean =>
    cases format with
    | json | xml | csv => exact ⟨_, rfl⟩
    | turtle => exact absurd rfl h
  | graph triples =>
    cases format with
    | json => exact absurd (.inl rfl) h
    | csv => exact absurd (.inr rfl) h
    | turtle => exact ⟨_, rfl⟩
    | xml =>
      simp only [serialize, RdfXml.render, if_neg (writable_iff.mp hw rfl triples rfl)]
      exact ⟨_, rfl⟩

end QueryOutcome

/-! ## Refusals -/

/-- No answer to a query of the form can be written for the `Accept` value. -/
def QueryForm.Refuses : QueryForm → Option String → Prop
  | select, accept => accept = some "text/turtle"
  | ask, accept => accept = some "text/turtle"
  | construct _, _ => False
  | describe, accept => Asks accept .json ∨ Asks accept .csv

theorem QueryForm.lacks_negotiate_iff {form : QueryForm} {accept : Option String} :
    form.shape.Lacks (negotiate accept form.kind).format ↔ form.Refuses accept := by
  cases form with
  | select | ask => exact (format_negotiate_iff (by decide) (by decide)).trans asks_turtle_iff
  | describe =>
    exact or_congr (format_negotiate_iff (by decide) (by decide))
      (format_negotiate_iff (by decide) (by decide))
  | construct template =>
    refine iff_of_false ?_ id
    -- neither JSON nor CSV is among the substitutes
    have hsubstitute : ∀ r, ¬ OutcomeShape.graph.Lacks (graphRepresentation r).format := by
      rintro ⟨mediaType, format⟩
      cases format <;> rintro (h | h) <;> cases h
    exact hsubstitute _

theorem QueryForm.not_refuses_of_unknown {form : QueryForm} {accept : Option String}
    (h : accept.bind representation? = none) : ¬ form.Refuses accept := by
  have hasks : ∀ format, ¬ Asks accept format := by
    rintro format ⟨r, hmem, _, rfl⟩
    rw [Option.bind_some, representation?_eq_some_iff.mpr ⟨hmem, rfl⟩] at h
    cases h
  cases form with
  | select | ask => exact fun h => hasks .turtle (asks_turtle_iff.mpr h)
  | construct _ => exact id
  | describe => exact fun h => h.elim (hasks _) (hasks _)

namespace QueryEndpoint

variable {e : QueryEndpoint} {text : String} {accept : Option String} {clock : Nat → Instant}
variable {q : Query} {kind : OperationKind} {o : QueryOutcome}

theorem query_of_refuses (hengine : e.engine.InForm) (hq : classify text e.namespaces = .ok (q, kind))
    (ho : (e.outcome q).run.run clock = .ok o) (h : q.form.Refuses accept) :
    (e.query text accept).run.run clock = .error (.serialization
      (.unsupportedFormat q.form.shape (negotiate accept q.form.kind).format)) := by
  obtain rfl := kind_of_classify hq
  have hshape := shape_of_outcome hengine ho
  have hlacks : o.shape.Lacks (negotiate accept q.form.kind).format := by
    rw [hshape]
    exact QueryForm.lacks_negotiate_iff.mpr h
  rw [query_of_read hq, ho]
  simp only [Except.bind, respond, QueryOutcome.serialize_of_lacks hlacks, hshape]

theorem exists_query (hengine : e.engine.InForm) (hq : classify text e.namespaces = .ok (q, kind))
    (ho : (e.outcome q).run.run clock = .ok o)
    (hw : o.Writable (negotiate accept q.form.kind).format) (h : ¬ q.form.Refuses accept) :
    ∃ response, (e.query text accept).run.run clock = .ok response := by
  obtain rfl := kind_of_classify hq
  have hlacks : ¬ o.shape.Lacks (negotiate accept q.form.kind).format := by
    rw [shape_of_outcome hengine ho]
    exact fun hl => h (QueryForm.lacks_negotiate_iff.mp hl)
  obtain ⟨body, hbody⟩ := QueryOutcome.exists_serialize hlacks hw
  exact ⟨_, query_of_serialize hq ho hbody⟩

/-- A text that is not read or not evaluated fails with status 400. Otherwise the answer is refused,
with status 422, exactly for the `Accept` values that the form of the query rules out. -/
theorem query_refused_iff (hengine : e.engine.InForm) :
    (∀ cause, classify text e.namespaces = .error cause →
      (e.query text accept).run.run clock = .error (.parse cause) ∧
        (EndpointError.parse cause).statusCode = 400) ∧
    ∀ q kind, classify text e.namespaces = .ok (q, kind) →
      (∀ cause, (e.outcome q).run.run clock = .error cause →
        (e.query text accept).run.run clock = .error cause ∧ cause.statusCode = 400) ∧
      ∀ o, (e.outcome q).run.run clock = .ok o →
        o.Writable (negotiate accept q.form.kind).format →
        ((∃ cause, (e.query text accept).run.run clock = .error cause) ↔ q.form.Refuses accept) ∧
        (∀ cause, (e.query text accept).run.run clock = .error cause → cause.statusCode = 422 ∧
          cause = .serialization
            (.unsupportedFormat q.form.shape (negotiate accept q.form.kind).format)) ∧
        ((∃ template, q.form = .construct template) ∨ accept.bind representation? = none →
          ∃ response, (e.query text accept).run.run clock = .ok response) := by
  refine ⟨fun cause h => ⟨query_of_unread h, rfl⟩, fun q kind hq => ⟨fun cause h => ?_, ?_⟩⟩
  · refine ⟨?_, statusCode_of_outcome h⟩
    rw [query_of_read hq, h]
    rfl
  · intro o ho hw
    have hanswered : ∀ {cause}, (e.query text accept).run.run clock = .error cause →
        q.form.Refuses accept := by
      intro cause hfail
      by_contra hrefuses
      obtain ⟨response, hresponse⟩ := exists_query hengine hq ho hw hrefuses
      cases hfail.symm.trans hresponse
    refine ⟨⟨fun ⟨_, hfail⟩ => hanswered hfail, fun h => ⟨_, query_of_refuses hengine hq ho h⟩⟩,
      fun cause hfail => ?_, fun h => exists_query hengine hq ho hw ?_⟩
    · obtain rfl := Except.error.inj
        (hfail.symm.trans (query_of_refuses hengine hq ho (hanswered hfail)))
      exact ⟨rfl, rfl⟩
    · rcases h with ⟨template, hform⟩ | hunknown
      · rw [hform]
        exact id
      · exact QueryForm.not_refuses_of_unknown hunknown

end QueryEndpoint

namespace Sample

def endpoint (quads : List Quad) : QueryEndpoint :=
  .new (.standard default "") ⟨quads⟩ evaluator.registry

/-- The clock stands still. -/
def still (_ : Nat) : Instant := default

def askAll : Query := ⟨.ask, .project (.bgp []) [], none, none⟩

theorem classify_askAll : classify "ASK {}" (endpoint []).namespaces = .ok (askAll, .ask) := by cbv

theorem outcome_askAll : ((endpoint []).outcome askAll).run.run still = .ok (.boolean true) := rfl

end Sample

open Sample in
/-- A truth value is refused as Turtle, and an unknown media type gets it as XML. -/
theorem QueryEndpoint.query_refused_iff_askAll :
    ((endpoint []).query "ASK {}" (some "text/turtle")).run.run still =
      .error (.serialization (.unsupportedFormat .boolean .turtle)) ∧
    ∃ response, ((endpoint []).query "ASK {}" (some "text/html")).run.run still = .ok response := by
  have hwritable : ∀ format, (QueryOutcome.boolean true).Writable format :=
    fun _ => QueryOutcome.writable_iff.mpr nofun
  have hform : (endpoint []).engine.InForm := Engine.inForm_standard _ _
  constructor
  · obtain ⟨-, hread⟩ := @query_refused_iff _ "ASK {}" (some "text/turtle") still hform
    obtain ⟨-, hdone⟩ := hread askAll .ask classify_askAll
    obtain ⟨hiff, hcause, -⟩ := hdone _ outcome_askAll (hwritable _)
    obtain ⟨cause, hfail⟩ := hiff.mpr rfl
    obtain ⟨-, rfl⟩ := hcause cause hfail
    exact hfail
  · obtain ⟨-, hread⟩ := @query_refused_iff _ "ASK {}" (some "text/html") still hform
    obtain ⟨-, hdone⟩ := hread askAll .ask classify_askAll
    exact (hdone _ outcome_askAll (hwritable _)).2.2 (.inr (by decide))

end SparqlBind
