import Mathlib.Logic.Equiv.Fintype
import SparqlBind.Proofs.Inlining.Lockstep

/-!
# The names of variables

Queries that differ in the names of their variables have outcomes that differ in these names only, as
long as no variable is called like one of the two helper variables. A variable with such a name is
taken for the value of an expression or for the number of a row.
-/

namespace SparqlBind

namespace Engine

/-- The engine makes no difference between the names of variables. -/
def Equivariant (engine : Engine) : Prop :=
  ∀ (π : Equiv.Perm Variable) (store : Store) (q : Query),
    engine.answer store (q.mapVars π) = (engine.answer store q).map (·.mapVars π)

end Engine

/-- `r` tells the variables `xs` apart, and no variable is called like one that is kept, before or
after. -/
structure Renaming (r : Variable → Variable) (kept xs : List Variable) : Prop where
  injective : Set.InjOn r {x | x ∈ xs}
  old : ∀ x ∈ xs, x ∉ kept
  new : ∀ x ∈ xs, r x ∉ kept

/-- The permutation does to `xs` what `r` does, and nothing to the kept variables. -/
structure Renaming.Extension (r : Variable → Variable) (kept xs : List Variable)
    (π : Equiv.Perm Variable) : Prop where
  renames : ∀ x ∈ xs, π x = r x
  keeps : ∀ x ∈ kept, π x = x

namespace Renaming

variable {r : Variable → Variable} {kept xs : List Variable}

theorem exists_extension (h : Renaming r kept xs) : ∃ π, Extension r kept xs π := by
  let newName (x : { x // x ∈ xs ∨ x ∈ kept }) : Variable := if x.1 ∈ kept then x.1 else r x.1
  have hinjective : Function.Injective newName := by
    rintro ⟨x, hx⟩ ⟨y, hy⟩ hxy
    refine Subtype.ext ?_
    simp only [newName] at hxy
    split_ifs at hxy with hkx hky hky
    · exact hxy
    · exact absurd (hxy ▸ hkx) (h.new y (hy.resolve_right hky))
    · exact absurd (hxy ▸ hky) (h.new x (hx.resolve_right hkx))
    · exact h.injective (hx.resolve_right hkx) (hy.resolve_right hky) hxy
  have hfinite : Finite { x // x ∈ xs ∨ x ∈ kept } := by
    refine Finite.of_injective (fun x => (⟨x.1, ?_⟩ : { x // x ∈ xs ++ kept })) ?_
    · exact List.mem_append.mpr x.2
    · intro x y hxy
      exact Subtype.ext (congrArg (·.1) hxy)
  obtain ⟨π, hπ⟩ := Equiv.Perm.exists_extending_pair Subtype.val newName
    Subtype.val_injective hinjective
  refine ⟨π, fun x hx => ?_, fun x hx => ?_⟩
  · exact (hπ ⟨x, .inl hx⟩).trans (if_neg (h.old x hx))
  · exact (hπ ⟨x, .inr hx⟩).trans (if_pos hx)

end Renaming

theorem EvaluationContext.renames_self {context : EvaluationContext}
    (h : context.engine.Equivariant) (π : Equiv.Perm Variable) : Renames π context context where
  deadline := rfl
  answer form p := h π context.store (context.query form p)

/-- No error of an expression names a variable. -/
theorem EvaluationContext.mapVars_of_fails {context : EvaluationContext} {e : Expr} {b : Binding}
    {cause : EvaluationError} (h : Evaluation.Fails (context.evaluateExpression e b) cause)
    (r : Variable → Variable) : cause.mapVars r = cause := by
  have hengine : ∀ {α : Type} {x : Except EngineError α} {cause : EvaluationError},
      Evaluation.Fails (liftEngine x) cause → cause.mapVars r = cause := by
    intro α x cause h
    cases x with
    | ok a => exact absurd h Evaluation.not_fails_pure
    | error e => exact Evaluation.fails_throw_iff.mp h ▸ rfl
  rcases Evaluation.fails_bind_iff.mp h with h | ⟨rows, hrows, h⟩
  · rcases Evaluation.fails_bind_iff.mp h with h | ⟨answer, _, h⟩
    · rcases Evaluation.fails_bind_iff.mp h with h | ⟨_, _, h⟩
      · obtain ⟨d, _, rfl⟩ := fails_checkDeadline h
        rfl
      · exact hengine h
    · cases answer with
      | solutions xs rows => exact absurd h Evaluation.not_fails_pure
      | boolean b | graph triples => exact Evaluation.fails_throw_iff.mp h ▸ rfl
  · obtain ⟨answer, _, hrows⟩ := Evaluation.yields_bind_iff.mp hrows
    cases answer with
    | boolean b | graph triples => exact absurd hrows Evaluation.not_yields_throw
    | solutions xs solutions =>
      obtain rfl := Evaluation.yields_pure_iff.mp hrows
      cases solutions with
      | nil => exact absurd h Evaluation.not_fails_pure
      | cons first rest =>
        cases first with
        | ok s => exact absurd h Evaluation.not_fails_pure
        | error e => exact Evaluation.fails_throw_iff.mp h ▸ rfl

/-- The variables that an evaluation brings into the tables it makes of rows. -/
def helperVariables : List Variable := [EvaluationContext.valueVariable, Join.rowVariable]

namespace ExtensionEvaluator

/-- A renaming of the query renames the outcome and the error, and one of an expression and a binding
leaves the value as it is. -/
theorem execute_mapVars {context : EvaluationContext} (hengine : context.engine.Equivariant)
    (functions : ScalarFunctions) (r : Variable → Variable) :
    (∀ q : Query, Renaming r helperVariables q.names →
      (∃ π, Renaming.Extension r helperVariables q.names π) ∧
      ∀ π, Renaming.Extension r helperVariables q.names π → ∀ clock,
        ((ExtensionEvaluator.mk (.ofScalars functions)).execute context (q.mapVars r)).run.run clock =
          renameResult π (·.mapVars π)
            (((ExtensionEvaluator.mk (.ofScalars functions)).execute context q).run.run clock)) ∧
    (∀ (e : Expr) (b : Binding),
      Renaming r [EvaluationContext.valueVariable] (e.names ++ b.vars) → ∀ clock,
        (context.evaluateExpression (e.mapVars r) (b.mapVars r)).run.run clock =
          (context.evaluateExpression e b).run.run clock) := by
  refine ⟨fun q hr => ⟨hr.exists_extension, fun π hπ clock => ?_⟩, fun e b hr clock => ?_⟩
  · have hkeeps : (Comparison.lockstep π.injective).KeepsHelpers :=
      ⟨hπ.keeps _ List.mem_cons_self, hπ.keeps _ (List.mem_cons_of_mem _ List.mem_cons_self)⟩
    have hcontexts : (Comparison.lockstep π.injective).contexts (context.forQuery q)
        (context.forQuery (q.mapVars π)) := @EvaluationContext.renames_self (context.forQuery q) hengine π
    have halong := Comparison.along_execute hkeeps
      (Comparison.registries_ofScalars hkeeps.value functions) hcontexts
    rw [Query.mapVars_congr fun x hx => (hπ.renames x hx).symm]
    exact Comparison.run_lockstep halong clock
  · obtain ⟨π, hπ⟩ := hr.exists_extension
    obtain ⟨he, hb⟩ := List.forall_mem_append.mp fun x hx => (hπ.renames x hx).symm
    have halong : (Comparison.lockstep π.injective).Along id (context.evaluateExpression e b)
        (context.evaluateExpression (e.mapVars π) (b.mapVars π)) :=
      Comparison.along_evaluateExpression (EvaluationContext.renames_self hengine π)
        (hπ.keeps _ List.mem_cons_self) e b
    rw [Expr.mapVars_congr he, Binding.mapVars_congr hb, Comparison.run_lockstep halong clock]
    have hends : Timed.Ends (context.evaluateExpression e b).run
      ((context.evaluateExpression e b).run.run clock) := Timed.ends_runFrom clock 0 _
    cases hrun : (context.evaluateExpression e b).run.run clock with
    | ok value => rfl
    | error cause =>
      rw [hrun] at hends
      exact congrArg Except.error (EvaluationContext.mapVars_of_fails hends π)

end ExtensionEvaluator

/-! ## An engine that does not know the names of a query -/

namespace Query

/-- The variables of a query are numbered in the order in which they occur. -/
def number (q : Query) (x : Variable) : Variable := ⟨toString (q.names.idxOf x)⟩

def numbered? (q : Query) (y : Variable) : Option Variable := q.names.find? fun x => q.number x = y

variable {π : Equiv.Perm Variable} (q : Query)

theorem number_mapVars (x : Variable) : (q.mapVars π).number (π x) = q.number x := by
  have hindex : ∀ xs : List Variable, (xs.map π).idxOf (π x) = xs.idxOf x := by
    intro xs
    induction xs with
    | nil => rfl
    | cons y rest ih =>
      have hfirst : (π y == π x) = (y == x) := by
        rw [Bool.eq_iff_iff, beq_iff_eq, beq_iff_eq, π.injective.eq_iff]
      rw [List.map_cons, List.idxOf_cons, List.idxOf_cons, ih, hfirst]
  unfold number
  rw [names_mapVars, hindex]

theorem numbered?_mapVars (y : Variable) : (q.mapVars π).numbered? y = (q.numbered? y).map π := by
  unfold numbered?
  rw [names_mapVars, List.find?_map]
  simp only [Function.comp_def, number_mapVars]

end Query

namespace EngineAnswer

/-- An answer with other names, without the variables that have none. -/
def filterVars (f : Variable → Option Variable) : EngineAnswer → EngineAnswer
  | solutions xs rows => solutions (xs.filterMap f)
    (rows.map (·.map fun s => ⟨s.columns.filterMap fun c => (f c.1).map (·, c.2)⟩))
  | boolean b => boolean b
  | graph triples => graph triples

theorem filterVars_map (f : Variable → Option Variable) (r : Variable → Variable)
    (answer : EngineAnswer) :
    answer.filterVars (fun y => (f y).map r) = (answer.filterVars f).mapVars r := by
  cases answer with
  | boolean b | graph triples => rfl
  | solutions xs rows =>
    have hcolumns : ∀ columns : List (Variable × Option Term),
        (columns.filterMap fun c => ((f c.1).map r).map (·, c.2)) =
          (columns.filterMap fun c => (f c.1).map (·, c.2)).map fun c => (r c.1, c.2) := by
      intro columns
      rw [List.map_filterMap]
      refine List.filterMap_congr fun c _ => ?_
      rw [Option.map_map, Option.map_map]
      rfl
    simp only [filterVars, mapVars, List.map_filterMap, List.map_map]
    refine congrArg (solutions _) (List.map_congr_left fun row _ => ?_)
    cases row with
    | error e => rfl
    | ok s => exact congrArg (Except.ok ∘ Solution.mk) (hcolumns s.columns)

end EngineAnswer

namespace Engine

/-- The engine, given numbers for the names of the variables. -/
def nameless (engine : Engine) : Engine where
  answer s q := (engine.answer s (q.mapVars q.number)).map (·.filterVars q.numbered?)

theorem equivariant_nameless (engine : Engine) : engine.nameless.Equivariant := by
  intro π s q
  have hq : (q.mapVars π).mapVars (q.mapVars π).number = q.mapVars q.number :=
    Query.mapVars_mapVars fun x _ => q.number_mapVars x
  have hback : (q.mapVars π).numbered? = fun y => (q.numbered? y).map π :=
    funext q.numbered?_mapVars
  unfold nameless
  dsimp only
  rw [hq, hback]
  cases engine.answer s (q.mapVars q.number) with
  | error e => rfl
  | ok answer => exact congrArg Except.ok (EngineAnswer.filterVars_map _ _ answer)

end Engine

namespace Sample

/-- The standard engine, which does not see the names of the variables. -/
def anonymous (quads : List Quad) : EvaluationContext :=
  .ofStore (.nameless (.standard default "")) ⟨quads⟩

/-- Subject and object with their names exchanged. -/
def exchanged : Equiv.Perm Variable := Equiv.swap subject object

end Sample

open Sample in
/-- The names of subject and object are exchanged in a query that calls a function on an expression. -/
theorem ExtensionEvaluator.execute_mapVars_exchanged :
    (evaluator.execute (anonymous [named (.blank "n") "v" none])
      ((select (.extend names target shout)).mapVars exchanged)).run.run (fun _ => default) =
      .ok (.solutions [object, subject, target] [⟨[(object, some (.blank "n")),
        (subject, some (.literal (.plain "v"))), (target, some (.literal (.plain "V!")))]⟩]) ∧
    ((anonymous []).evaluateExpression ((Expr.call (.builtIn .upper) [.var object]).mapVars exchanged)
      (Binding.mapVars exchanged ⟨[(object, .literal (.plain "v"))]⟩)).run.run (fun _ => default) =
      .ok (some (.literal (.plain "V"))) := by
  have hquery : Renaming exchanged helperVariables (select (.extend names target shout)).names :=
    ⟨exchanged.injective.injOn, by decide, by decide⟩
  have hextension : Renaming.Extension exchanged helperVariables
      (select (.extend names target shout)).names exchanged := ⟨fun _ _ => rfl, by decide⟩
  have hexpression : Renaming exchanged [EvaluationContext.valueVariable]
      ((Expr.call (.builtIn .upper) [.var object]).names ++
        (Binding.mk [(object, .literal (.plain "v"))]).vars) :=
    ⟨exchanged.injective.injOn, by decide, by decide⟩
  have houtcome := (@execute_mapVars (anonymous [named (.blank "n") "v" none])
    (Engine.equivariant_nameless _) functions exchanged).1 _ hquery
  have hvalue := (@execute_mapVars (anonymous []) (Engine.equivariant_nameless _) functions
    exchanged).2 _ _ hexpression
  exact ⟨houtcome.2 exchanged hextension fun _ => default, hvalue fun _ => default⟩

namespace Sample

/-- One more than a text. -/
def meaningless : Expr := .binary .add (.literal (.ofInt 1)) (.literal (.plain "a"))

/-- A function is called on an argument without value. -/
def absurdCall : Pattern :=
  .extend (cell subject (text "v")) target (.call (.custom concat) [meaningless])

/-- An optional part with a call, whose condition is about a variable of it. -/
def conditional : Pattern :=
  .leftJoin (cell object (text "a")) (.extend (cell subject (text "b")) target (concatText "x"))
    (some (.binary .equal (.var subject) (.literal (.plain "b"))))

/-- The subject gets another name. -/
def subjectAs (x : Variable) : Variable → Variable := fun y => if y = subject then x else y

end Sample

open Sample in
/-- A variable with the name of a helper variable hides the error of an expression, or is taken for the
number of a row. -/
theorem ExtensionEvaluator.execute_mapVars_captured :
    (anonymous []).engine.Equivariant ∧
    (Set.InjOn (subjectAs EvaluationContext.valueVariable) {x | x ∈ (select absurdCall).names} ∧
      (evaluator.execute (anonymous []) (select absurdCall)).run.run (fun _ => default) =
        .error (.invalidArgument concat 0) ∧
      (evaluator.execute (anonymous [])
        ((select absurdCall).mapVars (subjectAs EvaluationContext.valueVariable))).run.run
          (fun _ => default) =
        .ok (.solutions [EvaluationContext.valueVariable, target]
          [⟨[(EvaluationContext.valueVariable, some (.literal (.plain "v"))),
            (target, some (.literal (.plain "v")))]⟩])) ∧
    ((anonymous []).evaluateExpression meaningless ⟨[(subject, .literal (.plain "v"))]⟩ = pure none ∧
      (anonymous []).evaluateExpression meaningless
          ⟨[(EvaluationContext.valueVariable, .literal (.plain "v"))]⟩ =
        pure (some (.literal (.plain "v")))) ∧
    Set.InjOn (subjectAs Join.rowVariable) {x | x ∈ (select conditional).names} ∧
    (evaluator.execute (anonymous []) (select conditional)).run.run (fun _ => default) =
      .ok (.solutions [object, subject, target] [⟨[(object, some (.literal (.plain "a"))),
        (subject, some (.literal (.plain "b"))), (target, some (.literal (.plain "x")))]⟩]) ∧
    (evaluator.execute (anonymous [])
      ((select conditional).mapVars (subjectAs Join.rowVariable))).run.run (fun _ => default) =
      .ok (.solutions [object, Join.rowVariable, target]
        [⟨[(object, some (.literal (.plain "a"))), (Join.rowVariable, none), (target, none)]⟩]) := by
  have hinjOn : ∀ (x : Variable) (q : Query), x ∉ q.names → Set.InjOn (subjectAs x) {y | y ∈ q.names} := by
    intro x q hx y hy z hz h
    simp only [subjectAs] at h
    split_ifs at h with hys hzs hzs
    · exact hys.trans hzs.symm
    · exact absurd (h ▸ hz) hx
    · exact absurd (h ▸ hy) hx
    · exact h
  refine ⟨Engine.equivariant_nameless _, ⟨hinjOn _ _ (by decide), ?_, ?_⟩, ⟨?_, ?_⟩,
    hinjOn _ _ (by decide), ?_, ?_⟩
  · rfl
  · rfl
  · rfl
  · rfl
  · rfl
  · rfl

end SparqlBind
