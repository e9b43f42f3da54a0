import SparqlBind.Proofs.Renaming.Query

/-!
# Renamed tables

The parts of an evaluation with other names for their variables: bindings, rows, tables, answers and
errors. Under an injective renaming every operation on bindings, and every join in memory, gives the
renamed result of the same operation. Only a variable that the operation brings in itself has to keep
its name.
-/

namespace SparqlBind

namespace Binding

def mapVars (r : Variable → Variable) (b : Binding) : Binding :=
  ⟨b.entries.map fun e => (r e.1, e.2)⟩

end Binding

def Solution.mapVars (r : Variable → Variable) (s : Solution) : Solution :=
  ⟨s.columns.map fun c => (r c.1, c.2)⟩

def Table.mapVars (r : Variable → Variable) (t : Table) : Table :=
  ⟨t.vars.map r, t.rows.map (·.mapVars r)⟩

namespace BindExpression

def mapVars (r : Variable → Variable) : BindExpression → BindExpression
  | functionCall f arguments => functionCall f (arguments.map (·.mapVars r))
  | builtIn e => builtIn (e.mapVars r)

end BindExpression

def ExtendNode.mapVars (r : Variable → Variable) (n : ExtendNode) : ExtendNode :=
  ⟨n.inner.mapVars r, r n.target, n.expression.mapVars r⟩

namespace Inlined

def mapVars (r : Variable → Variable) : Inlined → Inlined
  | pattern p => pattern (p.mapVars r)
  | solutions t => solutions (t.mapVars r)

end Inlined

namespace EngineAnswer

def mapVars (r : Variable → Variable) : EngineAnswer → EngineAnswer
  | solutions xs rows => solutions (xs.map r) (rows.map (·.map (·.mapVars r)))
  | boolean b => boolean b
  | graph triples => graph triples

end EngineAnswer

namespace QueryOutcome

def mapVars (r : Variable → Variable) : QueryOutcome → QueryOutcome
  | solutions xs rows => solutions (xs.map r) (rows.map (·.mapVars r))
  | boolean b => boolean b
  | graph triples => graph triples

end QueryOutcome

/-- The only variable that an error names is the target of a `BIND`. -/
def EvaluationError.mapVars (r : Variable → Variable) : EvaluationError → EvaluationError
  | .expression x => .expression (r x)
  | e => e

/-- A result with its error renamed as well. -/
def renameResult {α β : Type} (r : Variable → Variable) (f : α → β) :
    Except EvaluationError α → Except EvaluationError β
  | .ok a => .ok (f a)
  | .error e => .error (e.mapVars r)

/-! ## Without a renaming -/

@[simp] theorem Binding.mapVars_id (b : Binding) : b.mapVars id = b :=
  congrArg Binding.mk (List.map_id b.entries)

@[simp] theorem Solution.mapVars_id (s : Solution) : s.mapVars id = s :=
  congrArg Solution.mk (List.map_id s.columns)

@[simp] theorem EngineAnswer.mapVars_id (a : EngineAnswer) : a.mapVars id = a := by
  have hrow : ∀ row : Except EngineError Solution, row.map (·.mapVars id) = row := by
    intro row
    cases row with
    | error e => rfl
    | ok s => exact congrArg Except.ok s.mapVars_id
  cases a with
  | solutions xs rows => simp only [mapVars, List.map_id, hrow, List.map_id']
  | boolean b | graph triples => rfl

theorem EngineAnswer.map_mapVars_id (a : Except EngineError EngineAnswer) :
    a.map (·.mapVars id) = a := by
  cases a with
  | error e => rfl
  | ok answer => exact congrArg Except.ok answer.mapVars_id

@[simp] theorem ExtendNode.mapVars_id (n : ExtendNode) : n.mapVars id = n := by
  have hexpression : n.expression.mapVars id = n.expression := by
    cases n.expression <;> simp [BindExpression.mapVars]
  simp [mapVars, hexpression]

@[simp] theorem QueryOutcome.mapVars_id (o : QueryOutcome) : o.mapVars id = o := by
  cases o with
  | solutions xs rows => simp [mapVars]
  | boolean b | graph triples => rfl

@[simp] theorem EvaluationError.mapVars_id (e : EvaluationError) : e.mapVars id = e := by
  cases e <;> rfl

theorem renameResult_id {α : Type} {f : α → α} (hf : ∀ a, f a = a) (x : Except EvaluationError α) :
    renameResult id f x = x := by
  cases x with
  | ok a => exact congrArg Except.ok (hf a)
  | error e => exact congrArg Except.error e.mapVars_id

theorem Binding.mapVars_congr {f g : Variable → Variable} {b : Binding}
    (h : ∀ x ∈ b.vars, f x = g x) : b.mapVars f = b.mapVars g := by
  refine congrArg Binding.mk (List.map_congr_left fun e he => ?_)
  rw [h e.1 (List.mem_map_of_mem he)]

section Injective
variable {r : Variable → Variable} (hr : Function.Injective r)
include hr

/-! ## Lists of variables -/

theorem addVariable_map (xs : List Variable) (x : Variable) :
    addVariable (xs.map r) (r x) = (addVariable xs x).map r := by
  unfold addVariable
  simp only [List.mem_map_of_injective hr]
  split
  · rfl
  · rw [List.map_append, List.map_singleton]

theorem unionVariables_map (xs ys : List Variable) :
    unionVariables (xs.map r) (ys.map r) = (unionVariables xs ys).map r := by
  unfold unionVariables
  induction ys generalizing xs with
  | nil => rfl
  | cons y ys ih => rw [List.map_cons, List.foldl_cons, addVariable_map hr, ih, List.foldl_cons]

theorem Pattern.inScope_mapVars (p : Pattern) : (p.mapVars r).inScope = p.inScope.map r := by
  unfold inScope
  rw [mentions_mapVars]
  exact unionVariables_map hr [] p.mentions

/-! ## Bindings -/

namespace Binding

variable (b : Binding) (x : Variable) (t : Term)

omit hr in
theorem vars_mapVars : (b.mapVars r).vars = b.vars.map r := by
  unfold vars mapVars
  rw [List.map_map, List.map_map]
  rfl

theorem get?_mapVars : (b.mapVars r).get? (r x) = b.get? x := by
  unfold get? mapVars
  induction b.entries with
  | nil => rfl
  | cons e rest ih => simp only [List.map_cons, lookup_cons, ih, hr.eq_iff]

theorem contains_mapVars : (b.mapVars r).contains (r x) = b.contains x := by
  rw [contains, get?_mapVars hr, contains]

theorem set_mapVars : (b.mapVars r).set (r x) t = (b.set x t).mapVars r := by
  have hentries : ∀ entries : List (Variable × Term),
      setEntries (r x) t (entries.map fun e => (r e.1, e.2)) =
        (setEntries x t entries).map fun e => (r e.1, e.2) := by
    intro entries
    induction entries with
    | nil => rfl
    | cons e rest ih =>
      simp only [List.map_cons, setEntries, hr.eq_iff]
      split
      · rfl
      · rw [ih, List.map_cons]
  exact congrArg Binding.mk (hentries b.entries)

theorem forget_mapVars : (b.mapVars r).forget (r x) = (b.forget x).mapVars r := by
  refine congrArg Binding.mk ?_
  unfold mapVars forget
  rw [List.filter_map]
  refine congrArg _ (List.filter_congr fun e _ => ?_)
  simp only [Function.comp_apply, ne_eq, hr.eq_iff]

theorem foldl_set_mapVars (entries : List (Variable × Term)) :
    (entries.map fun e => (r e.1, e.2)).foldl (fun b e => b.set e.1 e.2) (b.mapVars r) =
      (entries.foldl (fun b e => b.set e.1 e.2) b).mapVars r := by
  induction entries generalizing b with
  | nil => rfl
  | cons e rest ih => rw [List.map_cons, List.foldl_cons, set_mapVars hr, ih, List.foldl_cons]

theorem ofList_mapVars (entries : List (Variable × Term)) :
    ofList (entries.map fun e => (r e.1, e.2)) = (ofList entries).mapVars r :=
  foldl_set_mapVars hr empty entries

theorem ofSolution_mapVars (s : Solution) : ofSolution (s.mapVars r) = (ofSolution s).mapVars r := by
  have hbound : (s.mapVars r).bound = s.bound.map fun e => (r e.1, e.2) := by
    unfold Solution.bound Solution.mapVars
    rw [List.filterMap_map, List.map_filterMap]
    refine List.filterMap_congr fun c _ => ?_
    rw [Function.comp_apply, Option.map_map]
    rfl
  rw [ofSolution, hbound, ofList_mapVars hr, ofSolution]

theorem mapTerms_mapVars (f : Term → Term) :
    (b.mapVars r).mapTerms f = (b.mapTerms f).mapVars r := by
  unfold mapTerms
  rw [← ofList_mapVars hr]
  unfold mapVars
  rw [List.map_map, List.map_map]
  rfl

variable (left right : Binding)

theorem merge_mapVars : (left.mapVars r).merge (right.mapVars r) = (left.merge right).mapVars r :=
  foldl_set_mapVars hr left right.entries

theorem compatible_mapVars :
    (left.mapVars r).compatible (right.mapVars r) = left.compatible right := by
  unfold compatible
  rw [mapVars, List.all_map]
  refine congrArg (List.all _) (funext fun e => ?_)
  rw [Function.comp_apply, get?_mapVars hr]

end Binding

/-! ## Tables -/

theorem Table.toPattern_mapVars (t : Table) : (t.mapVars r).toPattern = t.toPattern.mapVars r := by
  have hrow : ∀ b : Binding, row (t.vars.map r) (b.mapVars r) = row t.vars b := by
    intro b
    unfold row
    rw [List.map_map]
    exact List.map_congr_left fun x _ => by rw [Function.comp_apply, b.get?_mapVars hr]
  unfold toPattern mapVars
  rw [Pattern.mapVars, List.map_map]
  simp only [Function.comp_def, hrow]

theorem Inlined.toPattern_mapVars (i : Inlined) :
    (i.mapVars r).toPattern = i.toPattern.mapVars r := by
  cases i with
  | pattern p => rfl
  | solutions t => exact t.toPattern_mapVars hr

omit hr in
theorem BindExpression.ofExpr_mapVars (e : Expr) :
    ofExpr (e.mapVars r) = (ofExpr e).mapVars r := by
  cases e with
  | call f arguments =>
    cases f with
    | builtIn f => rfl
    | custom f =>
      simp only [Expr.mapVars, ofExpr]
      split
      · simp only [mapVars, Expr.mapVars]
      · rw [mapVars, Expr.mapAllVars_eq_map]
  | constant _ | var _ | binary _ _ _ | unary _ _ | oneOf _ _ | existence _ | bound _ | cond _ _ _
  | coalesce _ => rfl

omit hr in
theorem Skolem.decodeSolution_mapVars (s : Solution) :
    decodeSolution (s.mapVars r) = (decodeSolution s).mapVars r := by
  unfold decodeSolution Solution.mapVars
  rw [List.map_map, List.map_map]
  rfl

/-! ## Joins in memory -/

namespace Join

variable (l : Binding) (left right : List Binding)

theorem matching_mapVars :
    matching (l.mapVars r) (right.map (·.mapVars r)) = (matching l right).map (·.mapVars r) := by
  unfold matching
  rw [List.filter_map, List.map_map, List.map_map]
  simp only [Function.comp_def, l.compatible_mapVars hr, l.merge_mapVars hr]

theorem join_mapVars :
    join (left.map (·.mapVars r)) (right.map (·.mapVars r)) =
      (join left right).map (·.mapVars r) := by
  unfold join
  rw [List.flatMap_map, List.map_flatMap]
  exact List.flatMap_congr fun l _ => matching_mapVars hr l right

theorem excludes_mapVars :
    excludes (right.map (·.mapVars r)) (l.mapVars r) = excludes right l := by
  unfold excludes
  rw [List.any_map]
  refine congrArg (List.any _) (funext fun b => ?_)
  rw [Function.comp_apply, l.compatible_mapVars hr, l.vars_mapVars, List.any_map]
  simp only [Function.comp_def, b.contains_mapVars hr]

theorem minus_mapVars :
    minus (left.map (·.mapVars r)) (right.map (·.mapVars r)) =
      (minus left right).map (·.mapVars r) := by
  unfold minus
  rw [List.filter_map]
  simp only [Function.comp_def, excludes_mapVars hr]

omit hr in
theorem keepMatched_mapVars (candidates : List (Binding × List Binding)) (flags : List Bool) :
    keepMatched (candidates.map fun c => (c.1.mapVars r, c.2.map (·.mapVars r))) flags =
      (keepMatched candidates flags).map (·.mapVars r) := by
  induction candidates generalizing flags with
  | nil => rfl
  | cons c rest ih =>
    have hmatched : (((c.2.map (·.mapVars r)).zip flags).filter (·.2)).map (·.1) =
        (((c.2.zip flags).filter (·.2)).map (·.1)).map (·.mapVars r) := by
      rw [List.zip_map_left, List.filter_map, List.map_map, List.map_map]
      rfl
    simp only [List.map_cons, keepMatched, hmatched, List.isEmpty_map, List.length_map, ih,
      List.map_append]
    split <;> rfl

section RowVariable
variable (hrow : r rowVariable = rowVariable)
include hrow

theorem columns_mapVars (rows : List Binding) :
    columns (rows.map (·.mapVars r)) = (columns rows).map r := by
  have hvars : (rows.map (·.mapVars r)).flatMap Binding.vars = (rows.flatMap Binding.vars).map r := by
    rw [List.flatMap_map, List.map_flatMap]
    exact List.flatMap_congr fun b _ => b.vars_mapVars
  have hfirst : [rowVariable] = [rowVariable].map r := by rw [List.map_singleton, hrow]
  unfold columns
  rw [hvars, hfirst, unionVariables_map hr, ← hfirst]

theorem numbered_mapVars (first : Nat) (rows : List Binding) :
    numbered first (rows.map (·.mapVars r)) = (numbered first rows).map (·.mapVars r) := by
  induction rows generalizing first with
  | nil => rfl
  | cons b rest ih =>
    have hset := b.set_mapVars hr rowVariable (.literal (.plain (toString first)))
    rw [hrow] at hset
    rw [List.map_cons, numbered, hset, ih, numbered, List.map_cons]

theorem conditionPattern_mapVars (e : Expr) (rows : List Binding) :
    conditionPattern (e.mapVars r) (rows.map (·.mapVars r)) = (conditionPattern e rows).mapVars r := by
  have htable := Table.toPattern_mapVars hr ⟨columns rows, numbered 0 rows⟩
  unfold Table.mapVars at htable
  unfold conditionPattern
  simp only [Pattern.mapVars, ← htable, columns_mapVars hr hrow, numbered_mapVars hr hrow,
    List.map_singleton, hrow]

theorem rowNumber?_mapVars (b : Binding) : rowNumber? (b.mapVars r) = rowNumber? b := by
  have hget := b.get?_mapVars hr rowVariable
  rw [hrow] at hget
  unfold rowNumber?
  rw [hget]

end RowVariable

end Join

end Injective

end SparqlBind
