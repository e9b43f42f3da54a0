import SparqlBind.Endpoint
import SparqlBind.Proofs.Inlining.Answers

/-!
# The stages of an answer

A query text is read and evaluated, and its outcome is written. Only the evaluation looks at the
clock. The kind of a query is told from the name of its algebra root and the shape of the outcome
comes from the engine, so that both agree with the form of the query is shown here; of the engine it
is assumed that it answers every form in its own shape, which the standard engine does.
-/

namespace SparqlBind

/-! ## Forms, kinds and shapes -/

namespace QueryForm

def kind : QueryForm → OperationKind
  | select => .select
  | construct _ => .construct
  | describe => .describe
  | ask => .ask

def shape : QueryForm → OutcomeShape
  | select => .solutions
  | construct _ => .graph
  | describe => .graph
  | ask => .boolean

end QueryForm

/-- The label made of the name of the algebra root is the one of the query's form. -/
theorem OperationKind.ofAlgebraName_algebraName (q : Query) :
    OperationKind.ofAlgebraName q.algebraName = q.form.kind := by
  have hselect : ofAlgebraName "SelectQuery" = select := by decide
  have hconstruct : ofAlgebraName "ConstructQuery" = construct := by decide
  have hdescribe : ofAlgebraName "DescribeQuery" = describe := by decide
  have hask : ofAlgebraName "AskQuery" = ask := by decide
  rcases q with ⟨form, _, _, _⟩
  cases form with
  | select => exact hselect
  | construct _ => exact hconstruct
  | describe => exact hdescribe
  | ask => exact hask

theorem kind_of_classify {text : String} {n : Namespaces} {q : Query} {kind : OperationKind}
    (h : classify text n = .ok (q, kind)) : kind = q.form.kind := by
  unfold classify at h
  cases hq : parseQuery text n with
  | error cause =>
    rw [hq] at h
    cases h
  | ok q' =>
    rw [hq] at h
    obtain ⟨rfl, rfl⟩ := Prod.mk.inj (Except.ok.inj h)
    exact OperationKind.ofAlgebraName_algebraName q'

def EngineAnswer.shape : EngineAnswer → OutcomeShape
  | solutions .. => .solutions
  | boolean _ => .boolean
  | graph _ => .graph

theorem EngineAnswer.Collected.shape_eq {answer : EngineAnswer} {outcome : QueryOutcome}
    (h : answer.Collected outcome) : outcome.shape = answer.shape := by
  cases answer with
  | solutions xs items =>
    obtain ⟨rows, _, rfl⟩ := h
    rfl
  | boolean b =>
    obtain rfl := h
    rfl
  | graph items =>
    obtain ⟨triples, _, rfl⟩ := h
    rfl

/-- The engine answers every form of query in its own shape. -/
def Engine.InForm (engine : Engine) : Prop :=
  ∀ {store : Store} {q : Query} {answer : EngineAnswer},
    engine.answer store q = .ok answer → answer.shape = q.form.shape

theorem shape_of_answerForm {d : Dataset} {seed : String} {columns : List Variable} {rows : Rows}
    {form : QueryForm} {answer : EngineAnswer}
    (h : answerForm d seed columns rows form = .ok answer) : answer.shape = form.shape := by
  cases form with
  | select | construct _ | describe =>
    obtain rfl := Except.ok.inj h
    rfl
  | ask =>
    unfold answerForm at h
    dsimp only at h
    split at h
    · obtain rfl := Except.ok.inj h
      rfl
    · obtain rfl := Except.ok.inj h
      rfl
    · cases h

theorem Engine.inForm_standard (now : Timestamp) (seed : String) :
    (Engine.standard now seed).InForm := by
  intro store q answer h
  rw [Engine.answer_standard] at h
  split at h
  · cases h
  · exact shape_of_answerForm h

theorem ExtensionEvaluator.shape_of_execute {ev : ExtensionEvaluator} {context : EvaluationContext}
    {q : Query} {outcome : QueryOutcome} (hengine : context.engine.InForm)
    (h : Evaluation.Yields (ev.execute context q) outcome) : outcome.shape = q.form.shape := by
  rw [execute_eq] at h
  obtain ⟨i, _, h⟩ := Evaluation.yields_bind_iff.mp h
  obtain ⟨_, answer, hanswer, hcollected⟩ := yields_collectAnswer_iff.mp h
  change context.engine.answer context.store { q with pattern := i.toPattern } = _ at hanswer
  have hshape := hengine hanswer
  exact hcollected.shape_eq.trans hshape

/-! ## Stages -/

namespace QueryEndpoint

/-- The outcome of a query whose deadline counts from now. -/
def outcome (e : QueryEndpoint) (q : Query) : ExceptT EndpointError Timed QueryOutcome := do
  e.evaluate (← e.context) q

/-- The response that an outcome is written to. -/
def respond (r : Representation) (o : QueryOutcome) : Except EndpointError QueryResponse :=
  match o.serialize r.format with
  | .ok body => .ok ⟨r.mediaType, body⟩
  | .error cause => .error (.serialization cause)

variable {e : QueryEndpoint} {text : String} {accept : Option String} {clock : Nat → Instant}
variable {q : Query} {kind : OperationKind}

theorem query_of_unread {cause : ParseError} (h : classify text e.namespaces = .error cause) :
    (e.query text accept).run.run clock = .error (.parse cause) := by
  unfold query
  rw [h]
  rfl

theorem query_of_read (h : classify text e.namespaces = .ok (q, kind)) :
    (e.query text accept).run.run clock =
      ((e.outcome q).run.run clock).bind (respond (negotiate accept kind)) := by
  have hstages : e.query text accept =
      e.outcome q >>= fun o => ExceptT.mk (.done (respond (negotiate accept kind) o)) := by
    unfold query outcome
    rw [h]
    simp only [Timed.ofExcept, pure_bind, bind_assoc]
    refine congrArg (e.context >>= ·) (funext fun c => congrArg (e.evaluate c q >>= ·) ?_)
    funext o
    unfold respond
    cases o.serialize (negotiate accept kind).format <;> rfl
  have hcont : ExceptT.bindCont (fun o => ExceptT.mk (.done (respond (negotiate accept kind) o))) =
      fun r : Except EndpointError QueryOutcome =>
        Timed.done (r.bind (respond (negotiate accept kind))) := by
    funext r
    cases r <;> rfl
  rw [hstages]
  change Timed.run clock ((e.outcome q).run.bind (ExceptT.bindCont _)) = _
  rw [hcont]
  exact Timed.run_bind_done clock _ _

theorem query_of_serialize {o : QueryOutcome} {body : String}
    (hq : classify text e.namespaces = .ok (q, kind)) (ho : (e.outcome q).run.run clock = .ok o)
    (hbody : o.serialize (negotiate accept kind).format = .ok body) :
    (e.query text accept).run.run clock = .ok ⟨(negotiate accept kind).mediaType, body⟩ := by
  rw [query_of_read hq, ho]
  simp only [Except.bind, respond, hbody]

theorem stages_of_query {response : QueryResponse}
    (h : (e.query text accept).run.run clock = .ok response) :
    ∃ q o, classify text e.namespaces = .ok (q, q.form.kind) ∧
      (e.outcome q).run.run clock = .ok o ∧
      o.serialize (negotiate accept q.form.kind).format = .ok response.body ∧
      response.mediaType = (negotiate accept q.form.kind).mediaType := by
  cases hq : classify text e.namespaces with
  | error cause => cases (query_of_unread hq).symm.trans h
  | ok r =>
    obtain ⟨q, kind⟩ := r
    obtain rfl := kind_of_classify hq
    rw [query_of_read hq] at h
    cases ho : (e.outcome q).run.run clock with
    | error cause =>
      rw [ho] at h
      cases h
    | ok o =>
      rw [ho] at h
      simp only [Except.bind, respond] at h
      cases hbody : o.serialize (negotiate accept q.form.kind).format with
      | error cause =>
        rw [hbody] at h
        cases h
      | ok body =>
        rw [hbody] at h
        obtain rfl := Except.ok.inj h
        exact ⟨q, o, rfl, ho, hbody, rfl⟩

theorem ends_context {r : Except EndpointError EvaluationContext}
    (h : Timed.Ends e.context.run r) :
    r = .error .deadlineOverflow ∨ ∃ c : EvaluationContext, c.engine = e.engine ∧ r = .ok c := by
  unfold context at h
  cases htimeout : e.timeout with
  | none =>
    rw [htimeout] at h
    exact .inr ⟨_, rfl, (Timed.ends_done_iff.mp h).symm⟩
  | some limit =>
    rw [htimeout] at h
    rcases Timed.ends_run_bind_iff.mp h with ⟨_, h, _⟩ | ⟨now, _, h⟩
    · obtain ⟨_, _, h⟩ := Timed.ends_run_lift_iff.mp h
      cases h
    · unfold EvaluationContext.withTimeout? at h
      cases hadd : now.add? limit with
      | none =>
        rw [hadd] at h
        exact .inl (Timed.ends_done_iff.mp h).symm
      | some instant =>
        rw [hadd] at h
        exact .inr ⟨_, rfl, (Timed.ends_done_iff.mp h).symm⟩

theorem ends_evaluate {c : EvaluationContext} {r : Except EndpointError QueryOutcome}
    (h : Timed.Ends (e.evaluate c q).run r) : ∃ r' : Except EvaluationError QueryOutcome,
      Timed.Ends (e.evaluator.execute c q).run r' ∧ r = r'.mapError .evaluation := by
  rcases Timed.ends_run_bind_iff.mp h with ⟨_, h, _⟩ | ⟨r', hr', h⟩
  · obtain ⟨_, _, h⟩ := Timed.ends_run_lift_iff.mp h
    cases h
  · obtain ⟨_, hends, hr'⟩ := Timed.ends_run_lift_iff.mp hr'
    obtain rfl := Except.ok.inj hr'
    exact ⟨r', hends, Timed.ends_run_ofExcept_iff.mp h⟩

/-- An evaluation ends as the evaluator does in some context with the engine of the endpoint. -/
theorem ends_outcome {r : Except EndpointError QueryOutcome} (h : Timed.Ends (e.outcome q).run r) :
    r = .error .deadlineOverflow ∨ ∃ (c : EvaluationContext)
      (r' : Except EvaluationError QueryOutcome), c.engine = e.engine ∧
        Timed.Ends (e.evaluator.execute c q).run r' ∧ r = r'.mapError .evaluation := by
  have hbind : Timed.Ends (e.context >>= fun c => e.evaluate c q).run r := h
  rcases Timed.ends_run_bind_iff.mp hbind with ⟨cause, hc, hr⟩ | ⟨c, hc, h⟩
  · rcases ends_context hc with hc | ⟨_, _, hc⟩
    · obtain rfl := Except.error.inj hc
      exact .inl hr
    · cases hc
  · rcases ends_context hc with hc | ⟨c', hengine, hc⟩
    · cases hc
    obtain rfl := Except.ok.inj hc
    obtain ⟨r', hends, hr⟩ := ends_evaluate h
    exact .inr ⟨c, r', hengine, hends, hr⟩

variable {o : QueryOutcome} {cause : EndpointError}

theorem statusCode_of_outcome (h : (e.outcome q).run.run clock = .error cause) :
    cause.statusCode = 400 := by
  have hends : Timed.Ends (e.outcome q).run (.error cause) :=
    (Timed.ends_iff_run _ _).mpr ⟨clock, h⟩
  rcases ends_outcome hends with h | ⟨_, r', _, _, h⟩
  · obtain rfl := Except.error.inj h
    rfl
  · cases r' with
    | ok o => cases h
    | error cause' =>
      obtain rfl := Except.error.inj h
      rfl

theorem shape_of_outcome (hengine : e.engine.InForm)
    (h : (e.outcome q).run.run clock = .ok o) : o.shape = q.form.shape := by
  have hends : Timed.Ends (e.outcome q).run (.ok o) := (Timed.ends_iff_run _ _).mpr ⟨clock, h⟩
  rcases ends_outcome hends with h | ⟨c, r', hc, hends, h⟩
  · cases h
  · cases r' with
    | ok o' =>
      obtain rfl := Except.ok.inj h
      exact ExtensionEvaluator.shape_of_execute (hc ▸ hengine) hends
    | error cause => cases h

end QueryEndpoint

end SparqlBind
