import SparqlBind.Proofs.Inlining.Checks
import SparqlBind.Proofs.Inlining.Deadlines
import SparqlBind.Proofs.Inlining.Rowwise
import SparqlBind.Proofs.Semantics.Presentation

/-!
# Scalar functions row by row

What a call gives on a row: the value of the function on the values of its arguments, or the first
thing that goes wrong from left to right. A `BIND` that calls the function has one result for each
row if every row is given a value. Otherwise it fails like the first row that is not, whatever rows
come after it. The deadline is checked before each row and before each argument that is evaluated.
-/

namespace SparqlBind

/-! ## Answers of the engine -/

namespace EvaluationContext

variable {context : EvaluationContext}

/-- The solutions of a pattern, or what the engine says instead. -/
def solutionsResult (context : EvaluationContext) (p : Pattern) :
    Except EvaluationError (List (Except EvaluationError Binding)) :=
  match context.engine.answer context.store (context.query .select p) with
  | .ok (.solutions _ rows) => .ok (rows.map bindingOf)
  | .ok _ => .error (.notImplemented "non tabular subquery")
  | .error e => .error (.engine e)

/-- The value of an expression on a row: what the first solution says, if there is one. -/
def expressionResult (context : EvaluationContext) (e : Expr) (b : Binding) :
    Except EvaluationError (Option Term) := do
  match ← context.solutionsResult (expressionPattern e b) with
  | [] => .ok none
  | .error cause :: _ => .error cause
  | .ok first :: _ => .ok (first.get? valueVariable)

theorem solutions_eq (p : Pattern) : context.solutions p = (do
    context.checkDeadline
    Timed.ofExcept id (context.solutionsResult p)) := by
  unfold solutions evaluateQuery solutionsResult
  rw [bind_assoc]
  refine congrArg (_ >>= ·) (funext fun _ => ?_)
  cases context.engine.answer context.store (context.query .select p) with
  | error e => rfl
  | ok answer => cases answer <;> rfl

theorem concludes_solutions (p : Pattern) :
    context.Concludes (context.solutions p) 1 (context.solutionsResult p) := by
  rw [solutions_eq]
  exact concludes_checkDeadline.bind_ok (k := 0) (concludes_ofExcept _)

theorem concludes_evaluateExpression (e : Expr) (b : Binding) :
    context.Concludes (context.evaluateExpression e b) 1 (context.expressionResult e b) := by
  refine (concludes_solutions _).bind fun rows => ?_
  match rows with
  | [] => exact concludes_pure none
  | .error cause :: _ => exact concludes_throw cause
  | .ok first :: _ => exact concludes_pure _

end EvaluationContext

/-! ## A call on a row -/

namespace ScalarFunction

/-- The value of an argument on a row. Only what is neither a variable nor a constant is evaluated. -/
def argumentResult (context : EvaluationContext) (b : Binding) :
    Expr → Except EvaluationError (Option Term)
  | .var x => .ok (b.get? x)
  | .constant t => .ok (some t.toTerm)
  | e => context.expressionResult e b

/-- The arguments that are looked at on a row: all of them, or those up to the first without value. -/
def taken (context : EvaluationContext) (b : Binding) : List Expr → List Expr
  | [] => []
  | e :: rest =>
    match argumentResult context b e with
    | .ok (some _) => e :: taken context b rest
    | _ => [e]

/-- The checks of the deadline for a row on which these arguments are looked at: one for the row, and
one for each argument that is evaluated. -/
def rowChecks (arguments : List Expr) : Nat :=
  1 + arguments.countP fun e => !Semantics.isDirect e

/-- The arguments have these values on a row. -/
def HaveValues (context : EvaluationContext) (b : Binding) (arguments : List Expr)
    (terms : List Term) : Prop :=
  List.Forall₂ (fun e t => argumentResult context b e = .ok (some t)) arguments terms

/-- What a call of the function gives on a row. -/
inductive Gives (f : ScalarFunction) (context : EvaluationContext) (arguments : List Expr)
    (b : Binding) : Except EvaluationError Term → Prop
  | value {terms : List Term} {v : Term} : HaveValues context b arguments terms →
    f.value terms = .ok v → Gives f context arguments b (.ok v)
  | refused {terms : List Term} {message : String} : HaveValues context b arguments terms →
    f.value terms = .error message → Gives f context arguments b (.error (.function f.iri message))
  /-- The first argument that has no value. -/
  | missing {before after : List Expr} {e : Expr} {terms : List Term} :
    arguments = before ++ e :: after → HaveValues context b before terms →
    argumentResult context b e = .ok none →
    Gives f context arguments b (.error (.invalidArgument f.iri before.length))
  /-- The first argument that the engine fails to evaluate. -/
  | failed {before after : List Expr} {e : Expr} {terms : List Term} {cause : EvaluationError} :
    arguments = before ++ e :: after → HaveValues context b before terms →
    argumentResult context b e = .error cause → Gives f context arguments b (.error cause)

variable {f : ScalarFunction} {context : EvaluationContext} {b : Binding}

/-- The values of the arguments, of which the first has the given position. -/
def argumentResults (f : ScalarFunction) (context : EvaluationContext) (b : Binding) :
    Nat → List Expr → Except EvaluationError (List Term)
  | _, [] => .ok []
  | position, e :: rest => do
    match ← argumentResult context b e with
    | some t => .ok (t :: (← f.argumentResults context b (position + 1) rest))
    | none => .error (.invalidArgument f.iri position)

def callResult (f : ScalarFunction) (terms : List Term) : Except EvaluationError Term :=
  (f.value terms).mapError (.function f.iri)

def rowResult (f : ScalarFunction) (context : EvaluationContext) (arguments : List Expr)
    (b : Binding) : Except EvaluationError Term := do
  f.callResult (← f.argumentResults context b 0 arguments)

theorem argumentResults_cons {e : Expr} {t : Term} (he : argumentResult context b e = .ok (some t))
    (rest : List Expr) (position : Nat) : f.argumentResults context b position (e :: rest) =
      (f.argumentResults context b (position + 1) rest).map (t :: ·) := by
  rw [argumentResults, he]
  change (do let terms ← f.argumentResults context b (position + 1) rest; .ok (t :: terms)) = _
  cases f.argumentResults context b (position + 1) rest <;> rfl

theorem argumentResults_of_values {arguments : List Expr} {terms : List Term}
    (h : HaveValues context b arguments terms) (position : Nat) :
    f.argumentResults context b position arguments = .ok terms := by
  induction h generalizing position with
  | nil => rfl
  | cons he _ ih =>
    rw [argumentResults_cons he, ih]
    rfl

theorem taken_of_values {arguments : List Expr} {terms : List Term}
    (h : HaveValues context b arguments terms) : taken context b arguments = arguments := by
  induction h with
  | nil => rfl
  | cons he _ ih => rw [taken, he, ih]

/-- Past the arguments with values the first one without decides. -/
theorem argumentResults_of_missing {before after : List Expr} {e : Expr} {terms : List Term}
    (h : HaveValues context b before terms) (he : argumentResult context b e = .ok none)
    (position : Nat) : f.argumentResults context b position (before ++ e :: after) =
      .error (.invalidArgument f.iri (position + before.length)) := by
  induction h generalizing position with
  | nil =>
    rw [List.nil_append, argumentResults, he]
    rfl
  | cons hfirst _ ih =>
    rw [List.cons_append, argumentResults_cons hfirst, ih, List.length_cons, Nat.add_assoc,
      Nat.add_comm 1]
    rfl

theorem argumentResults_of_failed {before after : List Expr} {e : Expr} {terms : List Term}
    {cause : EvaluationError} (h : HaveValues context b before terms)
    (he : argumentResult context b e = .error cause) (position : Nat) :
    f.argumentResults context b position (before ++ e :: after) = .error cause := by
  induction h generalizing position with
  | nil =>
    rw [List.nil_append, argumentResults, he]
    rfl
  | cons hfirst _ ih =>
    rw [List.cons_append, argumentResults_cons hfirst, ih]
    rfl

/-- All arguments have values, or there is a first one that has none. -/
theorem haveValues_or_exists_first (context : EvaluationContext) (b : Binding)
    (arguments : List Expr) : (∃ terms, HaveValues context b arguments terms) ∨
      ∃ before e after terms, arguments = before ++ e :: after ∧
        HaveValues context b before terms ∧
        (argumentResult context b e = .ok none ∨
          ∃ cause, argumentResult context b e = .error cause) := by
  induction arguments with
  | nil => exact .inl ⟨[], .nil⟩
  | cons e rest ih =>
    cases he : argumentResult context b e with
    | error cause => exact .inr ⟨[], e, rest, [], rfl, .nil, .inr ⟨cause, he⟩⟩
    | ok value =>
      cases value with
      | none => exact .inr ⟨[], e, rest, [], rfl, .nil, .inl he⟩
      | some t =>
        rcases ih with ⟨terms, hterms⟩ | ⟨before, e', after, terms, rfl, hterms, he'⟩
        · exact .inl ⟨t :: terms, .cons he hterms⟩
        · exact .inr ⟨e :: before, e', after, t :: terms, rfl, .cons he hterms, he'⟩

variable {arguments : List Expr} {r : Except EvaluationError Term}

theorem Gives.eq_rowResult (h : f.Gives context arguments b r) :
    r = f.rowResult context arguments b := by
  unfold rowResult
  cases h with
  | @value terms v hterms hv =>
    have hcall : f.callResult terms = .ok v := by rw [callResult, hv]; rfl
    rw [argumentResults_of_values hterms]
    exact hcall.symm
  | @refused terms message hterms hv =>
    have hcall : f.callResult terms = .error (.function f.iri message) := by
      rw [callResult, hv]
      rfl
    rw [argumentResults_of_values hterms]
    exact hcall.symm
  | missing hsplit hterms he =>
    rw [hsplit, argumentResults_of_missing hterms he, Nat.zero_add]
    rfl
  | failed hsplit hterms he =>
    rw [hsplit, argumentResults_of_failed hterms he]
    rfl

theorem Gives.taken_eq {v : Term} (h : f.Gives context arguments b (.ok v)) :
    taken context b arguments = arguments := by
  cases h with
  | value hterms _ => exact taken_of_values hterms

theorem exists_gives (f : ScalarFunction) (context : EvaluationContext) (arguments : List Expr)
    (b : Binding) : ∃ r, f.Gives context arguments b r := by
  rcases haveValues_or_exists_first context b arguments with
    ⟨terms, hterms⟩ | ⟨before, e, after, terms, hsplit, hterms, he | ⟨cause, he⟩⟩
  · cases hv : f.value terms with
    | ok v => exact ⟨_, .value hterms hv⟩
    | error message => exact ⟨_, .refused hterms hv⟩
  · exact ⟨_, .missing hsplit hterms he⟩
  · exact ⟨_, .failed hsplit hterms he⟩

theorem gives_rowResult (f : ScalarFunction) (context : EvaluationContext) (arguments : List Expr)
    (b : Binding) : f.Gives context arguments b (f.rowResult context arguments b) := by
  obtain ⟨r, hr⟩ := exists_gives f context arguments b
  exact hr.eq_rowResult ▸ hr

/-! ## Evaluation of a call -/

theorem concludes_argument? (e : Expr) :
    context.Concludes (argument? context b e) (if !Semantics.isDirect e then 1 else 0)
      (argumentResult context b e) := by
  cases e with
  | var x => exact EvaluationContext.concludes_pure _
  | constant t => exact EvaluationContext.concludes_pure _
  | _ => exact EvaluationContext.concludes_evaluateExpression _ b

/-- The induction is on the arguments that are left; one without value leaves none. -/
theorem concludes_arguments (position : Nat) (arguments : List Expr) :
    context.Concludes (f.arguments context b position arguments)
      ((taken context b arguments).countP fun e => !Semantics.isDirect e)
      (f.argumentResults context b position arguments) := by
  induction arguments generalizing position with
  | nil => exact EvaluationContext.concludes_pure []
  | cons e rest ih =>
    have hfirst : context.Concludes (argument? context b e) _ _ := concludes_argument? e
    cases he : argumentResult context b e with
    | error cause =>
      rw [he] at hfirst
      rw [taken, argumentResults, he, List.countP_singleton]
      exact hfirst.bind_error
    | ok value =>
      rw [he] at hfirst
      cases value with
      | none =>
        rw [taken, argumentResults, he, List.countP_singleton]
        exact hfirst.bind_ok (k := 0) (EvaluationContext.concludes_throw _)
      | some t =>
        rw [taken, argumentResults, he, List.countP_cons, Nat.add_comm]
        have hrest := (ih (position + 1)).bind fun terms =>
          EvaluationContext.concludes_pure (t :: terms)
        exact hfirst.bind_ok hrest

theorem concludes_call (terms : List Term) :
    context.Concludes (f.call terms) 0 (f.callResult terms) := by
  unfold call callResult
  cases f.value terms with
  | ok v => exact EvaluationContext.concludes_pure v
  | error message => exact EvaluationContext.concludes_throw _

/-- The value that a call has on a row. -/
def rowValue (f : ScalarFunction) (context : EvaluationContext) (arguments : List Expr)
    (b : Binding) : Evaluation Term := do
  f.call (← f.arguments context b 0 arguments)

theorem concludes_rowValue (arguments : List Expr) (b : Binding) :
    context.Concludes (f.rowValue context arguments b)
      ((taken context b arguments).countP fun e => !Semantics.isDirect e)
      (f.rowResult context arguments b) :=
  (concludes_arguments 0 arguments).bind fun terms => concludes_call terms

theorem sets_toExtension {node : ExtendNode} {i : Iri} {arguments : List Expr}
    (hnode : node.expression = .functionCall i arguments) :
    (ExtendStep.function f.toExtension).Sets context node (f.rowValue context arguments) := by
  intro results b
  have harguments : argumentExprs node.expression = arguments := by rw [hnode]; rfl
  unfold ExtendStep.apply rowValue
  simp only [toExtension, harguments, ExtendState.push, bind_assoc]

end ScalarFunction

/-! ## All rows -/

/-- The variable is set to a term in its place, or else after all others. -/
def Binding.Updated (x : Variable) (t : Term) (b b' : Binding) : Prop :=
  (∃ before old after, b.entries = before ++ (x, old) :: after ∧ x ∉ before.map (·.1) ∧
    b'.entries = before ++ (x, t) :: after) ∨
  x ∉ b.vars ∧ b'.entries = b.entries ++ [(x, t)]

theorem Binding.updated_set (x : Variable) (t : Term) (b : Binding) : Updated x t b (b.set x t) := by
  obtain ⟨entries⟩ := b
  induction entries with
  | nil => exact .inr ⟨List.not_mem_nil, rfl⟩
  | cons e rest ih =>
    by_cases he : e.1 = x
    · have hset : (set ⟨e :: rest⟩ x t).entries = (x, t) :: rest := by simp [set, setEntries, he]
      refine .inl ⟨[], e.2, rest, ?_, List.not_mem_nil, hset⟩
      rw [← he]
      rfl
    · have hset : (set ⟨e :: rest⟩ x t).entries = e :: (set ⟨rest⟩ x t).entries := by
        simp [set, setEntries, he]
      rcases ih with ⟨before, old, after, hsplit, hbefore, hrest⟩ | ⟨hnew, hrest⟩
      · refine .inl ⟨e :: before, old, after, ?_, ?_, ?_⟩
        · exact congrArg (e :: ·) hsplit
        · intro hmem
          rcases List.mem_cons.mp hmem with hx | hmem
          · exact he hx.symm
          · exact hbefore hmem
        · rw [hset, hrest]
          rfl
      · refine .inr ⟨?_, ?_⟩
        · intro hmem
          rcases List.mem_cons.mp hmem with hx | hmem
          · exact he hx.symm
          · exact hnew hmem
        · rw [hset, hrest]
          rfl

theorem ExtendStep.concludes_setRow {context : EvaluationContext} {value : Binding → Evaluation Term}
    {b : Binding} {n : Nat} {r : Except EvaluationError Term} (h : context.Concludes (value b) n r)
    (x : Variable) :
    context.Concludes (setRow context x value (.ok b)) (1 + n) (r.map (b.set x)) := by
  have hset : r.map (b.set x) = r >>= fun v => .ok (b.set x v) := by cases r <;> rfl
  have hvalue : context.Concludes (value b >>= fun v => pure (b.set x v)) n (r.map (b.set x)) :=
    hset ▸ h.bind fun v => EvaluationContext.concludes_pure _
  exact EvaluationContext.concludes_checkDeadline.bind_ok hvalue

namespace ExtensionEvaluator

variable {ev : ExtensionEvaluator} {context : EvaluationContext} {node : ExtendNode} {i : Iri}
variable {f : ScalarFunction} {arguments : List Expr}

theorem extendSolutions_eq_rowValues (hf : ev.registry.lookup i = some f.toExtension)
    (hnode : node.expression = .functionCall i arguments)
    (rows : List (Except EvaluationError Binding)) :
    ev.extendSolutions context node rows =
      rows.mapM (ExtendStep.setRow context node.target (f.rowValue context arguments)) := by
  have hstep : ExtendStep.ofNode ev.registry node = pure (.function f.toExtension) := by
    unfold ExtendStep.ofNode
    simp only [hnode, hf]
  exact extendSolutions_eq hstep (ScalarFunction.sets_toExtension hnode) rows

theorem concludes_setRow_of_gives {b : Binding} {r : Except EvaluationError Term}
    (h : f.Gives context arguments b r) (x : Variable) :
    context.Concludes (ExtendStep.setRow context x (f.rowValue context arguments) (.ok b))
      (ScalarFunction.rowChecks (ScalarFunction.taken context b arguments)) (r.map (b.set x)) := by
  apply ExtendStep.concludes_setRow
  rw [h.eq_rowResult]
  exact ScalarFunction.concludes_rowValue arguments b

/-- Each row is given a value, and the other one is the row with the target set to it. -/
def Called (f : ScalarFunction) (context : EvaluationContext) (arguments : List Expr)
    (x : Variable) (rows bs : List Binding) : Prop :=
  List.Forall₂ (fun b b' => ∃ v, f.Gives context arguments b (.ok v) ∧ b' = b.set x v) rows bs

theorem exists_called {rows : List Binding}
    (h : ∀ b ∈ rows, ∃ v, f.Gives context arguments b (.ok v)) (x : Variable) :
    ∃ bs, Called f context arguments x rows bs := by
  choose! value hvalue using h
  refine ⟨rows.map fun b => b.set x (value b), ?_⟩
  rw [Called, List.forall₂_map_right_iff, List.forall₂_same]
  exact fun b hb => ⟨value b, hvalue b hb, rfl⟩

theorem Called.concludes {rows bs : List Binding} {x : Variable}
    (h : Called f context arguments x rows bs) :
    context.Concludes ((rows.map Except.ok).mapM
      (ExtendStep.setRow context x (f.rowValue context arguments)))
      (rows.length * ScalarFunction.rowChecks arguments) (.ok bs) := by
  have hlength : (rows.map .ok : List (Except EvaluationError Binding)).length = rows.length :=
    List.length_map _
  rw [← hlength]
  apply EvaluationContext.concludes_mapM
  rw [List.forall₂_map_left_iff]
  refine h.imp fun b b' hb => ?_
  obtain ⟨v, hv, rfl⟩ := hb
  have hrow := concludes_setRow_of_gives hv x
  rw [hv.taken_eq] at hrow
  exact hrow

/-- All rows are given values, or there is a first one that is not. -/
theorem exists_first_failing (f : ScalarFunction) (context : EvaluationContext)
    (arguments : List Expr) {rows : List Binding}
    (h : ¬ ∀ b ∈ rows, ∃ v, f.Gives context arguments b (.ok v)) :
    ∃ before b after e, rows = before ++ b :: after ∧
      (∀ b' ∈ before, ∃ v, f.Gives context arguments b' (.ok v)) ∧
      f.Gives context arguments b (.error e) := by
  induction rows with
  | nil => exact absurd (fun b hb => absurd hb List.not_mem_nil) h
  | cons b rest ih =>
    obtain ⟨r, hr⟩ := ScalarFunction.exists_gives f context arguments b
    cases r with
    | error e => exact ⟨[], b, rest, e, rfl, fun b' hb => absurd hb List.not_mem_nil, hr⟩
    | ok v =>
      have hrest : ¬ ∀ b ∈ rest, ∃ v, f.Gives context arguments b (.ok v) := fun hall =>
        h (List.forall_mem_cons.mpr ⟨⟨v, hr⟩, hall⟩)
      obtain ⟨before, b', after, e, rfl, hbefore, hb'⟩ := ih hrest
      exact ⟨b :: before, b', after, e, rfl, List.forall_mem_cons.mpr ⟨⟨v, hr⟩, hbefore⟩, hb'⟩

/-- A `BIND` that calls a scalar function sets its target on every row to what the call gives, or
fails like the first row on which the call fails. The deadline is checked for the rows up to there. -/
theorem extendSolutions_scalar (hf : ev.registry.lookup i = some f.toExtension)
    (hnode : node.expression = .functionCall i arguments) :
    (∀ b, ∃! r, f.Gives context arguments b r) ∧
    (∀ rows, context.solutionsResult node.inner = .ok rows →
      ev.evaluateExtend context (.extend node) = (do
        context.checkDeadline
        ev.extendSolutions context node rows)) ∧
    (∀ rows : List Binding, (∀ b ∈ rows, ∃ v, f.Gives context arguments b (.ok v)) →
      ∃ bs, (∀ clock, (ev.extendSolutions context node (rows.map .ok)).run.run clock =
          context.inTime clock (rows.length * ScalarFunction.rowChecks arguments) (.ok bs)) ∧
        List.Forall₂ (fun b b' => ∃ v, f.Gives context arguments b (.ok v) ∧
          Binding.Updated node.target v b b') rows bs) ∧
    ∀ rows : List Binding, ¬ (∀ b ∈ rows, ∃ v, f.Gives context arguments b (.ok v)) →
      ∃ before b after e, rows = before ++ b :: after ∧
        (∀ b' ∈ before, ∃ v, f.Gives context arguments b' (.ok v)) ∧
        f.Gives context arguments b (.error e) ∧
        ∀ later clock, (ev.extendSolutions context node
            (before.map .ok ++ .ok b :: later)).run.run clock =
          context.inTime clock (before.length * ScalarFunction.rowChecks arguments +
            ScalarFunction.rowChecks (ScalarFunction.taken context b arguments)) (.error e) := by
  refine ⟨fun b => ?_, fun rows hrows => ?_, fun rows h => ?_, fun rows h => ?_⟩
  · exact ⟨_, ScalarFunction.gives_rowResult f context arguments b, fun r hr => hr.eq_rowResult⟩
  · change (do ev.extendSolutions context node (← context.solutions node.inner)) = _
    rw [EvaluationContext.solutions_eq, hrows, bind_assoc]
    rfl
  · obtain ⟨bs, hbs⟩ := exists_called h node.target
    refine ⟨bs, fun clock => ?_, hbs.imp ?_⟩
    · rw [extendSolutions_eq_rowValues hf hnode]
      exact hbs.concludes.run clock
    · rintro b _ ⟨v, hv, rfl⟩
      exact ⟨v, hv, Binding.updated_set _ v b⟩
  · obtain ⟨before, b, after, e, hsplit, hbefore, hb⟩ := exists_first_failing f context arguments h
    obtain ⟨bs, hbs⟩ := exists_called hbefore node.target
    refine ⟨before, b, after, e, hsplit, hbefore, hb, fun later clock => ?_⟩
    have hfailed := EvaluationContext.concludes_mapM_append hbs.concludes
      (concludes_setRow_of_gives hb node.target) later
    rw [extendSolutions_eq_rowValues hf hnode]
    exact hfailed.run clock

end ExtensionEvaluator

namespace Sample

/-- `BIND(concat(?o) AS ?x)`. -/
def naming : ExtendNode := ⟨names, target, .functionCall concat [.var object]⟩

def concatenation : ScalarFunction := ⟨concat, ScalarFunction.concat⟩

/-- A row without a name. -/
def unnamed : Binding := ⟨[(subject, .iri predicate)]⟩

theorem gives_bound (context : EvaluationContext) (o : String) :
    concatenation.Gives context [.var object] (bound o) (.ok (.literal (.plain o))) := by
  have hvalue : concatenation.value [.literal (.plain o)] = .ok (.literal (.plain o)) := by
    change Except.ok (Term.literal (.plain (o ++ ""))) = _
    rw [String.append_empty]
  exact .value (.cons rfl .nil) hvalue

theorem gives_unnamed (context : EvaluationContext) :
    concatenation.Gives context [.var object] unnamed
      (.error (.invalidArgument concat ([] : List Expr).length)) :=
  .missing rfl .nil rfl

end Sample

open Sample in
/-- Two rows with names, and a row without a name between them. -/
theorem ExtensionEvaluator.extendSolutions_scalar_names :
    (∃ bs, (∀ clock, (evaluator.extendSolutions (stored []) naming
          ([bound "v", bound "w"].map .ok)).run.run clock = (stored []).inTime clock 2 (.ok bs)) ∧
      List.Forall₂ (fun b b' => ∃ v, concatenation.Gives (stored []) [.var object] b (.ok v) ∧
        Binding.Updated target v b b') [bound "v", bound "w"] bs) ∧
    ∃ before b after e, [bound "v", unnamed, bound "w"] = before ++ b :: after ∧
      (∀ b' ∈ before, ∃ v, concatenation.Gives (stored []) [.var object] b' (.ok v)) ∧
      concatenation.Gives (stored []) [.var object] b (.error e) ∧
      ∀ later clock, (evaluator.extendSolutions (stored []) naming
          (before.map .ok ++ .ok b :: later)).run.run clock =
        (stored []).inTime clock (before.length * ScalarFunction.rowChecks [.var object] +
          ScalarFunction.rowChecks (ScalarFunction.taken (stored []) b [.var object])) (.error e) := by
  have hf : evaluator.registry.lookup concat = some concatenation.toExtension := rfl
  have hnode : naming.expression = .functionCall concat [.var object] := rfl
  obtain ⟨hunique, _, hvalues, hfailure⟩ := @ExtensionEvaluator.extendSolutions_scalar evaluator
    (stored []) naming concat concatenation [.var object] hf hnode
  constructor
  · apply hvalues
    intro b hb
    rcases List.mem_cons.mp hb with rfl | hb
    · exact ⟨_, gives_bound _ "v"⟩
    · obtain rfl := List.mem_singleton.mp hb
      exact ⟨_, gives_bound _ "w"⟩
  · apply hfailure
    intro hall
    obtain ⟨v, hv⟩ := hall unnamed (by decide)
    exact nomatch (hunique unnamed).unique hv (gives_unnamed _)

namespace Sample

/-- `BIND(concat(isBlank(?s)) AS ?x)`. -/
def asked : ExtendNode :=
  ⟨names, target, .functionCall concat [.call (.builtIn .isBlank) [.var subject]]⟩

/-- The only row of the store with the name of a blank node. -/
def blankName : Binding := ⟨[(subject, .blank "n"), (object, .literal (.plain "v"))]⟩

def blankStore : EvaluationContext := stored [named (.blank "n") "v" none]

end Sample

open Sample in
/-- A deadline that has passed gives a timeout although the function accepts the value of the
argument. An expression is evaluated on the row as a table holds it, with an IRI in place of the
blank node. -/
theorem ExtensionEvaluator.evaluateExtend_scalar_differs :
    (blankStore.solutionsResult names = .ok [.ok blankName] ∧
      concatenation.Gives (blankStore.withDeadline (some threeSeconds)) [.var object] blankName
        (.ok (.literal (.plain "v"))) ∧
      (evaluator.evaluateExtend (blankStore.withDeadline (some threeSeconds))
        (.extend naming)).run.run (everySecond 3) = .error (.timeout ⟨3, 0⟩)) ∧
    (Expr.call (.builtIn .isBlank) [.var subject]).value?
        ⟨.ofStore blankStore.store none, default⟩ none blankName = some (.boolean true) ∧
      (evaluator.evaluateExtend blankStore (.extend asked)).run.run (everySecond 3) =
        .ok [blankName.set target (.literal (.plain "false"))] := by
  refine ⟨⟨rfl, ?_, rfl⟩, rfl, rfl⟩
  exact .value (.cons rfl .nil) rfl

end SparqlBind
