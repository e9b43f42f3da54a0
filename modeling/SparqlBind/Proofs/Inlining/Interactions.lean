import Mathlib.Tactic.Choose
import SparqlBind.Proofs.Ends
import SparqlBind.Proofs.Scalars

/-!
# Functions and their contexts

An extension function may ask the engine through the context it is given. A function that passes on the
errors of the context does so without looking at the deadline: it asks one query after the other, and a
timeout ends it at once. Scalar functions are of this kind.
-/

namespace SparqlBind

def EvaluationContext.withDeadline (c : EvaluationContext) (deadline : Option Deadline) :
    EvaluationContext := { c with deadline := deadline }

/-- What a function does that leaves the deadline to its context: it lets the context check the
deadline, it asks the engine, and it ends. -/
inductive Interaction (α : Type) : Type
  | done (result : Except EvaluationError α)
  | check (next : Interaction α)
  | ask (q : Query) (next : Except EngineError EngineAnswer → Interaction α)

namespace Interaction

variable {α β : Type}

def run (c : EvaluationContext) : Interaction α → Evaluation α
  | done (.ok a) => pure a
  | done (.error e) => throw e
  | check next => do
    c.checkDeadline
    next.run c
  | ask q next => do
    c.checkDeadline
    (next (c.engine.answer c.store q)).run c

def bind : Interaction α → (α → Interaction β) → Interaction β
  | done (.ok a), f => f a
  | done (.error e), _ => done (.error e)
  | check next, f => check (next.bind f)
  | ask q next, f => ask q fun answer => (next answer).bind f

theorem run_bind (c : EvaluationContext) (m : Interaction α) (f : α → Interaction β) :
    (m.bind f).run c = m.run c >>= fun a => (f a).run c := by
  induction m with
  | done r =>
    cases r with
    | ok a => exact (pure_bind ..).symm
    | error e => rfl
  | check next ih => rw [bind, run, ih, run, bind_assoc]
  | ask q next ih => rw [bind, run, ih, run, bind_assoc]

end Interaction

/-- The function interacts with its context in the same way whatever the deadline is, and leaves the
deadline as it is. -/
def ExtensionFunction.PassesOn (f : ExtensionFunction) : Prop :=
  ∃ program : ExtendState → Binding → Interaction ExtendState, ∀ (s : ExtendState) (b : Binding),
    f.apply s b = (do
      let after ← (program { s with context := s.context.withDeadline none } b).run s.context
      pure { after with context := after.context.withDeadline s.context.deadline })

def Registry.PassesOn (registry : Registry) : Prop :=
  ∀ i f, registry.lookup i = some f → f.PassesOn

/-! ## Scalar functions -/

namespace EvaluationContext

variable {α β : Type} {c : EvaluationContext}

/-- The evaluations are one interaction with the context, under each of its deadlines. -/
def Interacts (c : EvaluationContext) (m : EvaluationContext → Evaluation α) : Prop :=
  ∃ i : Interaction α, ∀ d, m (c.withDeadline d) = i.run (c.withDeadline d)

theorem interacts_pure (a : α) : c.Interacts fun _ => pure a := ⟨.done (.ok a), fun _ => rfl⟩

theorem interacts_throw (e : EvaluationError) : c.Interacts fun _ => (throw e : Evaluation α) :=
  ⟨.done (.error e), fun _ => rfl⟩

theorem Interacts.bind {m : EvaluationContext → Evaluation α}
    {f : EvaluationContext → α → Evaluation β} (hm : c.Interacts m)
    (hf : ∀ a, c.Interacts fun c => f c a) : c.Interacts fun c => m c >>= f c := by
  obtain ⟨i, hi⟩ := hm
  choose j hj using hf
  refine ⟨i.bind j, fun d => ?_⟩
  rw [Interaction.run_bind, ← hi]
  exact congrArg (m (c.withDeadline d) >>= ·) (funext fun a => hj a d)

theorem interacts_evaluateQuery (form : QueryForm) (p : Pattern) :
    c.Interacts fun c => c.evaluateQuery (c.query form p) := by
  refine ⟨.ask (c.query form p) fun answer => .done (answer.mapError .engine), fun d => ?_⟩
  refine congrArg (bind (m := Evaluation) _) (funext fun _ => ?_)
  change liftEngine (c.engine.answer c.store (c.query form p)) =
    (Interaction.done ((c.engine.answer c.store (c.query form p)).mapError .engine)).run _
  cases c.engine.answer c.store (c.query form p) with
  | error e => rfl
  | ok answer => rfl

theorem interacts_evaluateExpression (e : Expr) (b : Binding) :
    c.Interacts fun c => c.evaluateExpression e b := by
  refine Interacts.bind ?_ fun rows => ?_
  · refine (interacts_evaluateQuery .select _).bind fun answer => ?_
    cases answer with
    | solutions xs rows => exact interacts_pure _
    | boolean _ | graph _ => exact interacts_throw _
  · cases rows with
    | nil => exact interacts_pure none
    | cons first rest =>
      cases first with
      | ok first => exact interacts_pure _
      | error e => exact interacts_throw e

end EvaluationContext

namespace ScalarFunction

variable {c : EvaluationContext}

theorem interacts_arguments (f : ScalarFunction) (b : Binding) (position : Nat) (es : List Expr) :
    c.Interacts fun c => f.arguments c b position es := by
  induction es generalizing position with
  | nil => exact EvaluationContext.interacts_pure []
  | cons e rest ih =>
    refine EvaluationContext.Interacts.bind ?_ fun value => ?_
    · cases e with
      | var _ | constant _ => exact EvaluationContext.interacts_pure _
      | binary _ _ _ | unary _ _ | oneOf _ _ | existence _ | bound _ | cond _ _ _ | coalesce _
      | call _ _ => exact EvaluationContext.interacts_evaluateExpression _ b
    · cases value with
      | none => exact EvaluationContext.interacts_throw _
      | some t => exact (ih (position + 1)).bind fun _ => EvaluationContext.interacts_pure _

theorem passesOn_toExtension (f : ScalarFunction) : f.toExtension.PassesOn := by
  have hcall : ∀ (s : ExtendState) (b : Binding), s.context.Interacts fun c => (do
      let terms ← f.arguments c b 0 (argumentExprs s.node.expression)
      let value ← f.call terms
      pure (b.set s.node.target value)) := by
    intro s b
    refine (interacts_arguments f b 0 _).bind fun terms => EvaluationContext.Interacts.bind ?_ fun _ =>
      EvaluationContext.interacts_pure _
    unfold call
    cases f.value terms with
    | ok t => exact EvaluationContext.interacts_pure t
    | error message => exact EvaluationContext.interacts_throw _
  choose program hprogram using hcall
  refine ⟨fun s b => (program s b).bind fun row => .done (.ok (s.push row)), fun s b => ?_⟩
  have hrow := hprogram { s with context := s.context.withDeadline none } b s.context.deadline
  rw [Interaction.run_bind]
  unfold toExtension
  simp only [Interaction.run, bind_assoc, pure_bind]
  refine Eq.trans ?_ (congrArg (· >>= fun row => pure (s.push row)) hrow)
  simp only [bind_assoc, pure_bind]
  rfl

end ScalarFunction

theorem Registry.passesOn_ofScalars (functions : ScalarFunctions) :
    (Registry.ofScalars functions).PassesOn := by
  intro i f hf
  rw [lookup_ofScalars, Option.map_eq_some_iff] at hf
  obtain ⟨g, _, rfl⟩ := hf
  exact g.passesOn_toExtension

end SparqlBind
