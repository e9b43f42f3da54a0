import SparqlBind.Proofs.Inlining.Answers

/-!
# Headers of selections

The header of an answer is what the standard engine reports for the inlined pattern. For a pattern
left to the engine this is the selection of the query. For a table it is the columns of the table,
and these are the selected variables; but for a table without rows no column is reported.
-/

namespace SparqlBind

namespace Pattern

/-- A selection of the variables `xs`, under operators that drop or repeat rows only. -/
inductive Projects (xs : List Variable) : Pattern → Prop
  | project (p : Pattern) : Projects xs (.project p xs)
  | distinct {p : Pattern} : Projects xs p → Projects xs (.distinct p)
  | reduced {p : Pattern} : Projects xs p → Projects xs (.reduced p)
  | slice {p : Pattern} (start : Nat) (length : Option Nat) :
    Projects xs p → Projects xs (.slice p start length)

namespace Projects

variable {xs : List Variable} {p : Pattern}

theorem isEmpty (h : Projects xs p) : p.isEmpty = false := by cases h <;> rfl

theorem columns (h : Projects xs p) (graph : Option NamePattern) : p.columns graph = xs := by
  induction h with
  | project p => rfl
  | distinct _ ih | reduced _ ih | slice _ _ _ ih => exact ih

theorem simpleUnary (h : Projects xs p) {operator : Pattern → Pattern}
    (hoperator : Projects xs p → Projects xs (operator p)) :
    Projects xs (Pattern.simpleUnary operator p) := by
  rw [Pattern.simpleUnary, h.isEmpty]
  exact hoperator h

/-- Below the selection anything may be simplified away, the selection itself is kept. -/
theorem simplify (h : Projects xs p) (s : Scope) (graph : Option NamePattern) :
    Projects xs (p.simplify s graph) := by
  induction h with
  | project p => exact .project _
  | distinct _ ih => exact ih.simpleUnary .distinct
  | reduced _ ih => exact ih.simpleUnary .reduced
  | slice start length _ ih => exact ih.simpleUnary (.slice start length)

end Projects

end Pattern

namespace Inlined

variable {context : EvaluationContext} {xs : List Variable} {i r : Inlined} {t : Table}

/-- The columns of a table are distinct, so an operator that keeps the scope keeps them. -/
theorem vars_of_apply {operator : Pattern → Pattern}
    (h : Evaluation.Yields (i.apply context operator) (solutions t))
    (hi : ∀ t, i = solutions t → t.vars = xs) (hxs : xs.Nodup)
    (hoperator : ∀ p, (operator p).mentions = p.mentions) : t.vars = xs := by
  rcases yields_apply h with ⟨p, _, hr⟩ | ⟨u, rows, hu, _, hr⟩
  · cases hr
  · obtain rfl := solutions.inj hr
    have hmentions : (operator u.toPattern).mentions = xs :=
      (hoperator u.toPattern).trans (hi u hu)
    exact (congrArg (unionVariables []) hmentions).trans (unionVariables_nil hxs)

end Inlined

namespace ExtensionEvaluator

variable {ev : ExtensionEvaluator} {context : EvaluationContext} {xs : List Variable}

theorem vars_of_projects (hxs : xs.Nodup) {p : Pattern} (hp : p.Projects xs) {t : Table}
    (h : Evaluation.Yields (ev.inlinePattern context none p) (.solutions t)) : t.vars = xs := by
  induction hp generalizing t with
  | project p =>
    obtain ⟨i, _, h⟩ := Evaluation.yields_bind_iff.mp h
    rcases Inlined.yields_apply h with ⟨q, _, hr⟩ | ⟨u, rows, rfl, _, hr⟩
    · cases hr
    · obtain rfl := Inlined.solutions.inj hr
      exact unionVariables_nil hxs
  | distinct _ ih | reduced _ ih | slice _ _ _ ih =>
    obtain ⟨i, hi, h⟩ := Evaluation.yields_bind_iff.mp h
    exact Inlined.vars_of_apply h (fun u hu => ih (hu ▸ hi)) hxs fun _ => rfl

variable {q : Query} {outcome : QueryOutcome} {now : Timestamp} {seed : String}

/-- The header is the selection, unless a call made the pattern a table and the table has no rows. -/
theorem execute_header (hengine : context.engine = .standard now seed) (hform : q.form = .select)
    (hp : q.pattern.Projects xs) (hxs : xs.Nodup)
    (h : Evaluation.Yields (ev.execute context q) outcome) :
    ∃ rows : List Solution, outcome =
      .solutions (if q.pattern.extensionCalls = [] ∨ rows ≠ [] then xs else []) rows := by
  rw [execute_eq] at h
  obtain ⟨i, hi, h⟩ := Evaluation.yields_bind_iff.mp h
  obtain ⟨_, answer, hanswer, hcollected⟩ := yields_collectAnswer_iff.mp h
  change context.engine.answer context.store _ = _ at hanswer
  rw [hengine] at hanswer
  have hfaithful := faithful_inlinePattern hi
  cases i with
  | solutions t =>
    rw [Inlined.toPattern, answer_toPattern, hform] at hanswer
    obtain rfl := Except.ok.inj hanswer
    obtain ⟨rows, hrows, rfl⟩ := hcollected
    -- the engine has one row for each row of the table
    have hempty : t.rows = [] ↔ rows = [] := by
      have hlength := congrArg List.length hrows
      simp only [Rows.ofBindings, Table.shown, List.length_map] at hlength
      rw [← List.length_eq_zero_iff, ← List.length_eq_zero_iff, hlength]
    refine ⟨_, congrArg (QueryOutcome.solutions · _) ?_⟩
    rw [Table.columns, vars_of_projects hxs hp hi, unionVariables_nil hxs]
    simp [hfaithful.1, hempty]
  | pattern p =>
    obtain ⟨rfl, hcalls⟩ := hfaithful
    have hcolumns : q.columns = xs := by
      rw [Query.columns, (hp.simplify .empty none).columns, unionVariables_nil hxs]
    rw [Inlined.toPattern, Engine.answer_standard] at hanswer
    split at hanswer
    · cases hanswer
    · dsimp only at hanswer
      rw [hform] at hanswer
      obtain rfl := Except.ok.inj hanswer
      obtain ⟨rows, _, rfl⟩ := hcollected
      refine ⟨_, congrArg (QueryOutcome.solutions · _) ?_⟩
      rw [if_pos (.inl hcalls)]
      exact hcolumns

end ExtensionEvaluator

namespace Sample

/-- Distinct shouted names with their subjects. -/
def shouts : Pattern := .distinct (.project (.extend names target shout) [target, subject])

theorem projects_shouts : shouts.Projects [target, subject] := .distinct (.project _)

end Sample

open Sample in
theorem ExtensionEvaluator.execute_header_shouts :
    evaluator.execute (stored [named (.blank "n") "v" none]) (select shouts) =
      pure (.solutions [target, subject]
        [⟨[(target, some (.literal (.plain "V!"))), (subject, some (.blank "n"))]⟩]) ∧
    ∃ rows : List Solution,
      QueryOutcome.solutions [target, subject]
          [⟨[(target, some (.literal (.plain "V!"))), (subject, some (.blank "n"))]⟩] =
        .solutions (if shouts.extensionCalls = [] ∨ rows ≠ [] then [target, subject] else [])
          rows := by
  have hexecute : evaluator.execute (stored [named (.blank "n") "v" none]) (select shouts) =
      pure (.solutions [target, subject]
        [⟨[(target, some (.literal (.plain "V!"))), (subject, some (.blank "n"))]⟩]) := rfl
  exact ⟨hexecute, execute_header rfl rfl projects_shouts (by decide)
    (Evaluation.yields_of_eq_pure hexecute)⟩

open Sample in
/-- Nothing has a name, and the two selected variables are missing from the header. -/
theorem ExtensionEvaluator.execute_header_missing :
    shouts.Projects [target, subject] ∧ [target, subject].Nodup ∧
    evaluator.execute (stored []) (select shouts) = pure (.solutions [] []) ∧
    evaluator.execute (stored []) (select (.distinct (.project names [target, subject]))) =
      pure (.solutions [target, subject] []) :=
  ⟨projects_shouts, by decide, rfl, rfl⟩

end SparqlBind
