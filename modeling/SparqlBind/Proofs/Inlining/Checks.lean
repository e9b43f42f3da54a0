import Mathlib.Data.List.Forall2
import SparqlBind.Proofs.Inlining.Steps

/-!
# Checks of the deadline

Most evaluations read the clock for the deadline only: they are a number of checks and then a result.
The number is part of the statement, so that evaluations with the same number of checks and the same
result are equal. A map over rows ends at the first row that fails, whatever comes after it.
-/

namespace SparqlBind

namespace EvaluationContext

/-- The deadline is checked a number of times. -/
def checks (context : EvaluationContext) : Nat → Evaluation Unit
  | 0 => pure ()
  | n + 1 => do
    context.checkDeadline
    context.checks n

/-- The result, or the timeout if one of the first readings of the clock has come to the deadline. -/
def inTime {α : Type} (context : EvaluationContext) (clock : Nat → Instant) (n : Nat)
    (r : Except EvaluationError α) : Except EvaluationError α :=
  match context.deadline with
  | none => r
  | some d =>
    if ∀ i < n, d.instant.le (clock i) = false then r else .error (.timeout d.limit)

/-- So many checks of the deadline, and then the result. -/
def Concludes {α : Type} (context : EvaluationContext) (m : Evaluation α) (n : Nat)
    (r : Except EvaluationError α) : Prop :=
  m = (do
    context.checks n
    Timed.ofExcept id r)

variable {α β : Type} {context : EvaluationContext}

theorem checks_add (m n : Nat) : context.checks (m + n) = (do
    context.checks m
    context.checks n) := by
  induction m with
  | zero => rw [Nat.zero_add, checks, pure_bind]
  | succ m ih => rw [Nat.succ_add, checks, checks, ih, bind_assoc]

theorem checks_of_none (h : context.deadline = none) (n : Nat) : context.checks n = pure () := by
  induction n with
  | zero => rfl
  | succ n ih => rw [checks, settled_checkDeadline h, pure_bind, ih]

theorem run_checks_succ {d : Deadline} (h : context.deadline = some d) (n : Nat)
    (m : Evaluation α) : (do context.checks (n + 1); m).run = .read fun now =>
      if d.instant.le now then .done (.error (.timeout d.limit)) else (do context.checks n; m).run := by
  rw [checks, bind_assoc, ExceptT.run_bind, run_checkDeadline h]
  refine congrArg Timed.read (funext fun now => ?_)
  change Timed.bind (if d.instant.le now then _ else _) _ = _
  split <;> rfl

theorem runFrom_checks {d : Deadline} (h : context.deadline = some d) (clock : Nat → Instant)
    (r : Except EvaluationError α) (n first : Nat) :
    (do context.checks n; Timed.ofExcept id r : Evaluation α).run.runFrom clock first =
      if ∀ i < n, d.instant.le (clock (first + i)) = false then r
      else .error (.timeout d.limit) := by
  induction n generalizing first with
  | zero =>
    rw [checks, pure_bind, if_pos (fun i hi => absurd hi i.not_lt_zero)]
    cases r <;> rfl
  | succ n ih =>
    rw [run_checks_succ h, Timed.runFrom]
    by_cases hnow : d.instant.le (clock first) = true
    · have hlate : ¬ ∀ i < n + 1, d.instant.le (clock (first + i)) = false := fun hall =>
        absurd ((hall 0 n.succ_pos).symm.trans hnow) Bool.false_ne_true
      rw [if_pos hnow, if_neg hlate]
      rfl
    · rw [if_neg hnow, ih]
      refine if_congr ?_ rfl rfl
      rw [Nat.forall_lt_succ_left, Nat.add_zero, and_iff_right (Bool.not_eq_true _ ▸ hnow)]
      simp only [Nat.add_assoc, Nat.add_comm 1]

/-- Checks in time change nothing, and one that is late gives the timeout. -/
theorem run_checks (clock : Nat → Instant) (n : Nat) (r : Except EvaluationError α) :
    (do context.checks n; Timed.ofExcept id r : Evaluation α).run.run clock =
      context.inTime clock n r := by
  unfold inTime
  cases hd : context.deadline with
  | none =>
    rw [checks_of_none hd, pure_bind]
    cases r <;> rfl
  | some d =>
    rw [Timed.run, runFrom_checks hd]
    simp only [Nat.zero_add]

theorem Concludes.run {m : Evaluation α} {n : Nat} {r : Except EvaluationError α}
    (h : context.Concludes m n r) (clock : Nat → Instant) :
    m.run.run clock = context.inTime clock n r := by
  rw [h, run_checks]

/-! ## Sequences -/

theorem concludes_ofExcept (r : Except EvaluationError α) :
    context.Concludes (Timed.ofExcept id r) 0 r := (pure_bind _ _).symm

theorem concludes_pure (a : α) : context.Concludes (pure a) 0 (.ok a) := concludes_ofExcept (.ok a)

theorem concludes_throw (e : EvaluationError) :
    context.Concludes (throw e : Evaluation α) 0 (.error e) := concludes_ofExcept (.error e)

theorem concludes_checkDeadline : context.Concludes context.checkDeadline 1 (.ok ()) := by
  simp only [Concludes, checks, Timed.ofExcept, bind_assoc, pure_bind]
  exact (bind_pure _).symm

section Bind
variable {m : Evaluation α} {n k : Nat} {a : α} {f : α → Evaluation β}

theorem Concludes.bind_ok {r : Except EvaluationError β} (hm : context.Concludes m n (.ok a))
    (hf : context.Concludes (f a) k r) : context.Concludes (m >>= f) (n + k) r := by
  rw [Concludes, hm, checks_add, bind_assoc, bind_assoc]
  refine congrArg (_ >>= ·) (funext fun _ => ?_)
  exact (pure_bind a f).trans hf

theorem Concludes.bind_error {e : EvaluationError} (hm : context.Concludes m n (.error e)) :
    context.Concludes (m >>= f) n (.error e) := by
  rw [Concludes, hm, bind_assoc]
  rfl

/-- What needs no checks changes the result only. -/
theorem Concludes.bind {r : Except EvaluationError α} {g : α → Except EvaluationError β}
    (hm : context.Concludes m n r) (hf : ∀ a, context.Concludes (f a) 0 (g a)) :
    context.Concludes (m >>= f) n (r >>= g) := by
  cases r with
  | error e => exact hm.bind_error
  | ok a => exact hm.bind_ok (hf a)

end Bind

/-! ## Maps -/

variable {f : α → Evaluation β} {before : List α} {a : α} {bs : List β} {e : EvaluationError}

theorem concludes_mapM {n : Nat}
    (h : List.Forall₂ (fun a b => context.Concludes (f a) n (.ok b)) before bs) :
    context.Concludes (before.mapM f) (before.length * n) (.ok bs) := by
  induction h with
  | nil =>
    rw [List.length_nil, Nat.zero_mul]
    exact concludes_pure []
  | cons hb _ ih =>
    rw [List.mapM_cons, List.length_cons, Nat.succ_mul, Nat.add_comm]
    exact hb.bind_ok (ih.bind fun _ => concludes_pure _)

/-- The map ends where it fails first. -/
theorem concludes_mapM_append {m n : Nat} (hbefore : context.Concludes (before.mapM f) m (.ok bs))
    (ha : context.Concludes (f a) n (.error e)) (after : List α) :
    context.Concludes ((before ++ a :: after).mapM f) (m + n) (.error e) := by
  rw [List.mapM_append, List.mapM_cons]
  exact hbefore.bind_ok ha.bind_error.bind_error

end EvaluationContext

end SparqlBind
