import SparqlBind.Proofs.Inlining.Interactions
import SparqlBind.Proofs.Inlining.Lockstep

/-!
# Deadlines

A deadline is only ever compared with the clock, and a clock that has passed it ends the evaluation.
So under a deadline an evaluation is a number of checks and then what it is without the deadline. The
first thing an evaluation does that can fail is such a check.
-/

namespace SparqlBind

namespace Evaluation

variable {α β γ δ : Type} {d : Deadline} {R : α → β → Prop} {S : γ → δ → Prop}

/-- A check of the deadline, and what is done in time. -/
def guarded (d : Deadline) (t : Timed (Except EvaluationError α)) :
    Timed (Except EvaluationError α) :=
  .read fun now => if d.instant.le now then .done (.error (.timeout d.limit)) else t

theorem bind_guarded {t : Timed (Except EvaluationError α)} {f : α → Evaluation γ} :
    (guarded d t).bind (ExceptT.bindCont f) = guarded d (t.bind (ExceptT.bindCont f)) := by
  refine congrArg Timed.read (funext fun now => ?_)
  change (if d.instant.le now then .done (.error (.timeout d.limit)) else t).bind _ = _
  split <;> rfl

/-- A number of checks of the deadline, and then a result. -/
inductive Checked (d : Deadline) (R : α → β → Prop) :
    Timed (Except EvaluationError α) → Except EvaluationError β → Prop
  | done {a : Except EvaluationError α} {b : Except EvaluationError β} :
    RelatedResults id R a b → Checked d R (.done a) b
  | check {t : Timed (Except EvaluationError α)} {b : Except EvaluationError β} : Checked d R t b →
    Checked d R (guarded d t) b

theorem Checked.bind {t : Timed (Except EvaluationError α)} {r : Except EvaluationError β}
    {f : α → Evaluation γ} {f' : β → Evaluation δ} (h : Checked d R t r)
    (hf : ∀ a b, R a b → ∃ r', (f' b).run = .done r' ∧ Checked d S (f a).run r') :
    ∃ r', ExceptT.bindCont f' r = .done r' ∧ Checked d S (t.bind (ExceptT.bindCont f)) r' := by
  induction h with
  | done hab =>
    cases hab with
    | ok hab => exact hf _ _ hab
    | error e => exact ⟨_, rfl, .done (.error e)⟩
  | check _ ih =>
    obtain ⟨r', hr', hchecked⟩ := ih
    exact ⟨r', hr', bind_guarded ▸ hchecked.check⟩

theorem Checked.runFrom {t : Timed (Except EvaluationError α)} {r : Except EvaluationError β}
    (h : Checked d R t r) (clock : Nat → Instant) (n : Nat) :
    t.runFrom clock n = .error (.timeout d.limit) ∨ RelatedResults id R (t.runFrom clock n) r := by
  induction h generalizing n with
  | done hab => exact .inr hab
  | check _ ih =>
    rw [guarded, Timed.runFrom]
    split
    · exact .inl rfl
    · exact ih (n + 1)

/-- Without the deadline no clock is read; with it the end is the same, after some checks. -/
def EndsAlike (d : Deadline) (R : α → β → Prop) (m : Evaluation α) (m' : Evaluation β) : Prop :=
  ∃ r, m'.run = .done r ∧ Checked d R m.run r

theorem EndsAlike.bind {m : Evaluation α} {m' : Evaluation β} {f : α → Evaluation γ}
    {f' : β → Evaluation δ} (h : EndsAlike d R m m') (hf : ∀ a b, R a b → EndsAlike d S (f a) (f' b)) :
    EndsAlike d S (m >>= f) (m' >>= f') := by
  obtain ⟨r, hm', hm⟩ := h
  obtain ⟨r', hr', hchecked⟩ := hm.bind hf
  refine ⟨r', ?_, hchecked⟩
  rw [ExceptT.run_bind, hm']
  exact hr'

end Evaluation

/-! ## With and without a deadline -/

namespace Comparison

/-- The evaluations with a deadline and without. -/
def deadline (d : Deadline) : Comparison where
  rename := id
  injective := Function.injective_id
  contexts c c' := c.deadline = some d ∧ c' = c.withDeadline none
  rel := Evaluation.EndsAlike d
  pure h := ⟨_, rfl, .done (.ok h)⟩
  throw e := ⟨_, rfl, .done (.error e)⟩
  bind hm hf := hm.bind hf
  check := by
    rintro c _ ⟨hd, rfl⟩
    refine ⟨.ok (), rfl, ?_⟩
    rw [EvaluationContext.run_checkDeadline hd]
    exact .check (.done (.ok trivial))
  answer := by
    rintro c _ ⟨hd, rfl⟩ form p
    rw [QueryForm.mapVars_id, Pattern.mapVars_id, EngineAnswer.map_mapVars_id]
    rfl

variable {d : Deadline}

theorem rel_interaction {α : Type} {c : EvaluationContext} (hd : c.deadline = some d)
    (i : Interaction α) :
    Evaluation.EndsAlike d Eq (i.run c) (i.run (c.withDeadline none)) := by
  have hcontexts : (deadline d).contexts c (c.withDeadline none) := ⟨hd, rfl⟩
  induction i with
  | done r =>
    cases r with
    | ok a => exact (deadline d).pure rfl
    | error e =>
      have hthrow := (deadline d).throw (R := (Eq : α → α → Prop)) e
      rwa [show (deadline d).rename = id from rfl, EvaluationError.mapVars_id] at hthrow
  | check next ih => exact (deadline d).bind ((deadline d).check hcontexts) fun _ _ _ => ih
  | ask q next ih => exact (deadline d).bind ((deadline d).check hcontexts) fun _ _ _ => ih _

/-- A function that passes on the errors of its context does so with its own. -/
theorem functions_of_passesOn {f : ExtensionFunction} (hf : f.PassesOn) :
    (deadline d).Functions f f := by
  obtain ⟨program, hprogram⟩ := hf
  rintro s ⟨results, context, node⟩ b ⟨hresults, ⟨hd, rfl⟩, hnode⟩
  have hrows (bs : List Binding) : bs.map (·.mapVars id) = bs :=
    (List.map_congr_left fun b _ => b.mapVars_id).trans (List.map_id _)
  have hresults' : results = s.results := Array.toList_inj.mp (hresults.trans (hrows _))
  have hnode' : node = s.node := hnode.trans s.node.mapVars_id
  subst hresults' hnode'
  change Evaluation.EndsAlike d _ _ (f.apply _ (b.mapVars id))
  rw [b.mapVars_id, hprogram, hprogram]
  refine (rel_interaction hd _).bind ?_
  rintro after _ rfl
  refine (deadline d).pure ⟨?_, ⟨hd, rfl⟩, ?_⟩
  · exact (hrows after.results.toList).symm
  · exact after.node.mapVars_id.symm

theorem registries_of_passesOn {registry : Registry} (h : registry.PassesOn) :
    (deadline d).Registries registry registry := by
  intro i
  cases hf : registry.lookup i with
  | none => exact .none
  | some f => exact .some (functions_of_passesOn (h i f hf))

end Comparison

/-! ## When the time is over from the start -/

namespace Evaluation

variable {α β : Type} {d : Deadline}

/-- The evaluation starts with a check of the deadline. -/
def Stops (d : Deadline) (m : Evaluation α) : Prop := ∃ t, m.run = guarded d t

theorem Stops.bind {m : Evaluation α} (h : Stops d m) (f : α → Evaluation β) : Stops d (m >>= f) := by
  obtain ⟨t, ht⟩ := h
  refine ⟨t.bind (ExceptT.bindCont f), ?_⟩
  rw [ExceptT.run_bind, ht]
  exact bind_guarded

theorem Stops.run {m : Evaluation α} (h : Stops d m) {clock : Nat → Instant}
    (hclock : d.instant.le (clock 0) = true) : m.run.run clock = .error (.timeout d.limit) := by
  obtain ⟨t, ht⟩ := h
  rw [ht]
  change Timed.runFrom clock 1
    (if d.instant.le (clock 0) then .done (.error (.timeout d.limit)) else t) = _
  rw [if_pos hclock]
  rfl

end Evaluation

namespace EvaluationContext

variable {c : EvaluationContext} {d : Deadline} (hd : c.deadline = some d)
include hd

theorem stops_evaluateQuery (q : Query) : Evaluation.Stops d (c.evaluateQuery q) :=
  Evaluation.Stops.bind ⟨_, run_checkDeadline hd⟩ _

theorem stops_rows (p : Pattern) : Evaluation.Stops d (c.rows p) :=
  ((stops_evaluateQuery hd _).bind _).bind _

theorem stops_ask (p : Pattern) : Evaluation.Stops d (c.ask p) := (stops_evaluateQuery hd _).bind _

end EvaluationContext

namespace Inlined

/-- Nothing is done for a pattern that is left to the engine; else the deadline is checked first. -/
def Prompt (d : Deadline) (m : Evaluation Inlined) : Prop :=
  (∃ p, m = pure (pattern p)) ∨ Evaluation.Stops d m

variable {c : EvaluationContext} {d : Deadline} {graph : Option NamePattern}

theorem Prompt.bind {m : Evaluation Inlined} {f : Inlined → Evaluation Inlined} (hm : Prompt d m)
    (hf : ∀ p, Prompt d (f (pattern p))) : Prompt d (m >>= f) := by
  rcases hm with ⟨p, rfl⟩ | hm
  · rw [pure_bind]
    exact hf p
  · exact .inr (hm.bind f)

theorem prompt_extendBuiltIn (hd : c.deadline = some d) (p : Pattern) (x : Variable) (e : Expr) :
    Prompt d ((pattern p).extendBuiltIn c graph x e) := by
  rw [extendBuiltIn_pattern]
  split
  · exact .inl ⟨_, rfl⟩
  · exact .inr ((EvaluationContext.stops_ask hd _).bind _)

end Inlined

namespace ExtensionEvaluator

variable {ev : ExtensionEvaluator} {c : EvaluationContext} {d : Deadline}

/-- The induction follows the pattern; a part that is not left to the engine has looked at the clock
before anything else. -/
theorem prompt_inlinePattern (hd : c.deadline = some d) (graph : Option NamePattern) (p : Pattern) :
    Inlined.Prompt d (ev.inlinePattern c graph p) := by
  induction p generalizing graph with
  | extend p x e ih =>
    rw [inlinePattern]
    refine (ih graph).bind fun q => ?_
    cases BindExpression.ofExpr e with
    | functionCall f arguments =>
      exact .inr (((EvaluationContext.stops_rows hd _).bind _).bind _)
    | builtIn e => exact Inlined.prompt_extendBuiltIn hd q x e
  | join l r ihl ihr | leftJoin l r _ ihl ihr | minus l r ihl ihr | union l r ihl ihr =>
    exact (ihl graph).bind fun p => (ihr graph).bind fun q => .inl ⟨_, rfl⟩
  | graph name p ih => exact (ih (some name)).bind fun p => .inl ⟨_, rfl⟩
  | filter _ p ih | orderBy p _ ih | project p _ ih | distinct p ih | reduced p ih
  | slice p _ _ ih | group p _ _ ih => exact (ih graph).bind fun p => .inl ⟨_, rfl⟩
  | bgp _ | path _ _ _ | values _ _ | lateral _ _ _ _ | service _ _ _ _ => exact .inl ⟨_, rfl⟩

theorem stops_execute (hd : c.deadline = some d) (q : Query) :
    Evaluation.Stops d (ev.execute c q) := by
  have hd' : (c.forQuery q).deadline = some d := hd
  have hprompt : Inlined.Prompt d (ev.inlinePattern (c.forQuery q) none q.pattern) :=
    prompt_inlinePattern hd' none q.pattern
  unfold execute inlineWith
  rcases hprompt with ⟨p, hp⟩ | hstops
  · simp only [hp, pure_bind]
    exact (EvaluationContext.stops_evaluateQuery hd' _).bind _
  · exact (hstops.bind _).bind _

/-- A deadline that has passed gives its timeout, whatever else is wrong with the query. A deadline
replaces the result by its timeout or not at all. -/
theorem execute_withDeadline (ev : ExtensionEvaluator) (context : EvaluationContext) (d : Deadline)
    (q : Query) :
    (∀ clock, d.instant.le (clock 0) = true →
      (ev.execute (context.withDeadline (some d)) q).run.run clock = .error (.timeout d.limit)) ∧
    (ev.registry.PassesOn → ∃ r,
      (∀ clock, (ev.execute (context.withDeadline none) q).run.run clock = r) ∧
      ∀ clock, (ev.execute (context.withDeadline (some d)) q).run.run clock =
          .error (.timeout d.limit) ∨
        (ev.execute (context.withDeadline (some d)) q).run.run clock = r) := by
  refine ⟨fun clock hclock => (stops_execute rfl q).run hclock, fun hregistry => ?_⟩
  have hcontexts : (Comparison.deadline d).contexts ((context.withDeadline (some d)).forQuery q)
      ((context.withDeadline none).forQuery (q.mapVars id)) := ⟨rfl, rfl⟩
  have halong := Comparison.along_execute (C := .deadline d) ⟨rfl, rfl⟩
    (Comparison.registries_of_passesOn hregistry) hcontexts
  obtain ⟨r, hr, hchecked⟩ := halong
  have hr' : (ev.execute (context.withDeadline none) q).run = .done r := by
    rw [← q.mapVars_id]
    exact hr
  refine ⟨r, fun clock => by rw [hr']; rfl, fun clock => ?_⟩
  refine (hchecked.runFrom clock 0).imp id fun h => ?_
  exact (h.eq_renameResult.trans (renameResult_id (fun o => o.mapVars_id) _)).symm

end ExtensionEvaluator

namespace Sample

/-- Two names. -/
def twoNames : List Quad := [named (.blank "n") "v" none, named (.blank "m") "w" none]

/-- Three seconds after the start of the clock. -/
def threeSeconds : Deadline := ⟨⟨3, 0⟩, ⟨3, 0⟩⟩

/-- A clock that is read once in a second. -/
def everySecond (start : Int) (n : Nat) : Instant := ⟨start + n, 0⟩

def shoutedRows : QueryOutcome :=
  .solutions [subject, object, target]
    [⟨[(subject, some (.blank "n")), (object, some (.literal (.plain "v"))),
      (target, some (.literal (.plain "V!")))]⟩,
    ⟨[(subject, some (.blank "m")), (object, some (.literal (.plain "w"))),
      (target, some (.literal (.plain "W!")))]⟩]

end Sample

open Sample in
/-- Two calls, whose deadline passes before, in the middle or not at all. -/
theorem ExtensionEvaluator.execute_withDeadline_seconds :
    (evaluator.execute ((stored twoNames).withDeadline (some threeSeconds))
      (select (.extend names target shout))).run.run (everySecond 3) = .error (.timeout ⟨3, 0⟩) ∧
    (∀ clock,
      (evaluator.execute ((stored twoNames).withDeadline (some threeSeconds))
          (select (.extend names target shout))).run.run clock = .error (.timeout ⟨3, 0⟩) ∨
        (evaluator.execute ((stored twoNames).withDeadline (some threeSeconds))
          (select (.extend names target shout))).run.run clock = .ok shoutedRows) ∧
    (evaluator.execute ((stored twoNames).withDeadline (some threeSeconds))
      (select (.extend names target shout))).run.run (everySecond 0) = .error (.timeout ⟨3, 0⟩) ∧
    (evaluator.execute ((stored twoNames).withDeadline (some threeSeconds))
      (select (.extend names target shout))).run.run (everySecond (-8)) = .ok shoutedRows := by
  obtain ⟨hstart, hdeadline⟩ := execute_withDeadline evaluator (stored twoNames) threeSeconds
    (select (.extend names target shout))
  obtain ⟨r, hr, hclock⟩ := hdeadline (Registry.passesOn_ofScalars functions)
  have hresult : r = .ok shoutedRows := (hr fun _ => default).symm
  exact ⟨hstart (everySecond 3) rfl, hresult ▸ hclock, rfl, rfl⟩

end SparqlBind
