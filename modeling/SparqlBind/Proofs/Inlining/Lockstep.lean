import SparqlBind.Proofs.Ends
import SparqlBind.Proofs.Inlining.Comparison

/-!
# Evaluations in lockstep

Two evaluations that look at the clock at the same points, and on every reading go on to related ends.
Two contexts with one deadline, in which an engine answers renamed questions with renamed answers,
keep all evaluations with scalar functions in lockstep.
-/

namespace SparqlBind

namespace Timed

variable {α β γ δ : Type} {R : α → β → Prop} {S : γ → δ → Prop}

inductive Lockstep (R : α → β → Prop) : Timed α → Timed β → Prop
  | done {a : α} {b : β} : R a b → Lockstep R (.done a) (.done b)
  | read {next : Instant → Timed α} {next' : Instant → Timed β} :
    (∀ now, Lockstep R (next now) (next' now)) → Lockstep R (.read next) (.read next')

theorem Lockstep.bind {t : Timed α} {t' : Timed β} {f : α → Timed γ} {f' : β → Timed δ}
    (h : Lockstep R t t') (hf : ∀ a b, R a b → Lockstep S (f a) (f' b)) :
    Lockstep S (t.bind f) (t'.bind f') := by
  induction h with
  | done hab => exact hf _ _ hab
  | read _ ih => exact .read ih

theorem Lockstep.imp {S : α → β → Prop} {t : Timed α} {t' : Timed β} (h : Lockstep R t t')
    (hRS : ∀ a b, R a b → S a b) : Lockstep S t t' := by
  induction h with
  | done hab => exact .done (hRS _ _ hab)
  | read _ ih => exact .read ih

theorem Lockstep.runFrom {t : Timed α} {t' : Timed β} (h : Lockstep R t t')
    (clock : Nat → Instant) (n : Nat) : R (t.runFrom clock n) (t'.runFrom clock n) := by
  induction h generalizing n with
  | done hab => exact hab
  | read _ ih => exact ih (clock n) (n + 1)

theorem Lockstep.eq {t t' : Timed α} (h : Lockstep Eq t t') : t = t' := by
  induction h with
  | done hab => rw [hab]
  | read _ ih => exact congrArg Timed.read (funext ih)

end Timed

/-- Both results are values that are related, or both are the same error up to a renaming. -/
inductive RelatedResults {α β : Type} (r : Variable → Variable) (R : α → β → Prop) :
    Except EvaluationError α → Except EvaluationError β → Prop
  | ok {a : α} {b : β} : R a b → RelatedResults r R (.ok a) (.ok b)
  | error (e : EvaluationError) : RelatedResults r R (.error e) (.error (e.mapVars r))

theorem RelatedResults.eq_renameResult {α β : Type} {r : Variable → Variable} {f : α → β}
    {a : Except EvaluationError α} {b : Except EvaluationError β}
    (h : RelatedResults r (fun a b => b = f a) a b) : b = renameResult r f a := by
  cases h with
  | ok h => rw [h, renameResult]
  | error e => rfl

namespace EvaluationContext

/-- Queries of the second context are answered as their namesakes are in the first one. -/
structure Renames (r : Variable → Variable) (c c' : EvaluationContext) : Prop where
  deadline : c'.deadline = c.deadline
  answer : ∀ (form : QueryForm) (p : Pattern),
    c'.engine.answer c'.store (c'.query (form.mapVars r) (p.mapVars r)) =
      (c.engine.answer c.store (c.query form p)).map (·.mapVars r)

end EvaluationContext

namespace Comparison

variable {r : Variable → Variable}

def lockstep (hr : Function.Injective r) : Comparison where
  rename := r
  injective := hr
  contexts := EvaluationContext.Renames r
  rel R m m' := Timed.Lockstep (RelatedResults r R) m.run m'.run
  pure h := .done (.ok h)
  throw e := .done (.error e)
  bind hm hf := hm.bind fun a b hab => by
    cases hab with
    | ok h => exact hf _ _ h
    | error e => exact .done (.error e)
  check {c c'} h := by
    cases hd : c.deadline with
    | none =>
      rw [EvaluationContext.settled_checkDeadline hd,
        EvaluationContext.settled_checkDeadline (h.deadline.trans hd)]
      exact .done (.ok trivial)
    | some d =>
      rw [EvaluationContext.run_checkDeadline hd,
        EvaluationContext.run_checkDeadline (h.deadline.trans hd)]
      refine .read fun now => ?_
      split
      · exact .done (.error (.timeout d.limit))
      · exact .done (.ok trivial)
  answer h := h.answer

theorem run_lockstep {α β : Type} {hr : Function.Injective r} {f : α → β} {m : Evaluation α}
    {m' : Evaluation β} (h : (lockstep hr).Along f m m') (clock : Nat → Instant) :
    m'.run.run clock = renameResult r f (m.run.run clock) :=
  (Timed.Lockstep.runFrom h clock 0).eq_renameResult

/-- Without a renaming the two evaluations are one. -/
theorem eq_lockstep {α : Type} {f : α → α} (hf : ∀ a, f a = a) {m m' : Evaluation α}
    (h : (lockstep Function.injective_id).Along f m m') : m' = m := by
  refine (Timed.Lockstep.eq (h.imp fun a b hab => ?_)).symm
  exact (hab.eq_renameResult.trans (renameResult_id hf a)).symm

end Comparison

end SparqlBind
