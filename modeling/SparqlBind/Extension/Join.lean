import SparqlBind.Extension.Context

/-!
# Joins in memory

Joins of lists of bindings, row by row from the left. The condition of an optional part is given to
the engine as one filter over all candidate rows, which are numbered so that the rows it keeps can
be told apart whatever order they come back in.
-/

namespace SparqlBind.Join

def matching (l : Binding) (right : List Binding) : List Binding :=
  (right.filter (l.compatible ·)).map (l.merge ·)

def join (left right : List Binding) : List Binding := left.flatMap (matching · right)

/-- Whether a row of `right` agrees with `l` and shares a variable with it. -/
def excludes (right : List Binding) (l : Binding) : Bool :=
  right.any fun r => l.compatible r && l.vars.any (r.contains ·)

def minus (left right : List Binding) : List Binding := left.filter fun l => !excludes right l

def rowVariable : Variable := ⟨"__sparext_row"⟩

def columns (rows : List Binding) : List Variable :=
  unionVariables [rowVariable] (rows.flatMap Binding.vars)

def numbered (first : Nat) : List Binding → List Binding
  | [] => []
  | b :: rest => b.set rowVariable (.literal (.plain (toString first))) :: numbered (first + 1) rest

def conditionPattern (condition : Expr) (rows : List Binding) : Pattern :=
  .project (.filter condition (Table.toPattern ⟨columns rows, numbered 0 rows⟩)) [rowVariable]

/-- The number that a text stands for: decimal digits, which may have a plus sign. -/
def decimal? (text : List Char) : Option Nat :=
  let digits := match text with
    | '+' :: digits => digits
    | digits => digits
  if !digits.isEmpty && digits.all Char.isDigit then
    some (digits.foldl (fun n d => 10 * n + (d.toNat - 48)) 0)
  else none

/-- The number of a row that the engine kept. -/
def rowNumber? (b : Binding) : Option Nat :=
  match b.get? rowVariable with
  | some (.literal l) => decimal? l.value.toList
  | _ => none

/-- For each row, whether the condition is true on it. -/
def satisfied (context : EvaluationContext) (condition : Expr) (rows : List Binding) :
    Evaluation (List Bool) := do
  let kept := (← context.rows (conditionPattern condition rows)).filterMap rowNumber?
  pure ((List.range rows.length).map (kept.contains ·))

/-- Shares the flags out among the candidates of each left row; a row that keeps none of its own
stands for itself. -/
def keepMatched : List (Binding × List Binding) → List Bool → List Binding
  | [], _ => []
  | (l, candidates) :: rest, flags =>
    let matched := ((candidates.zip flags).filter (·.2)).map (·.1)
    (if matched.isEmpty then [l] else matched) ++
      keepMatched rest (flags.drop candidates.length)

def leftJoin (context : EvaluationContext) (left right : List Binding) (condition : Option Expr) :
    Evaluation (List Binding) := do
  let candidates := left.map fun l => (l, matching l right)
  let rows := candidates.flatMap (·.2)
  let flags ← match condition with
    | some e => satisfied context e rows
    | none => pure (rows.map fun _ => true)
  pure (keepMatched candidates flags)

end SparqlBind.Join
