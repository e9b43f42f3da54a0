import SparqlBind.Evaluation.Aggregation
import SparqlBind.Evaluation.Functions
import SparqlBind.Evaluation.Path
import SparqlBind.Evaluation.Simplify
import SparqlBind.Error

/-!
# Rows of a pattern

The rows that a pattern adds to a row it starts from, in order, each of them possibly a failure. An
expression has a value on a row, or none when it raises an error. Both are given by recursion on the
algebra; a pattern under `EXISTS` starts from the row it is asked for.
-/

namespace SparqlBind

/-- Everything but the row that an evaluation depends on. -/
structure Surroundings where
  dataset : Dataset
  functions : FunctionContext

abbrev Rows := List (Except EngineError Binding)

namespace Rows

def ofBindings (rows : List Binding) : Rows := rows.map .ok

def bindings (rows : Rows) : List Binding := rows.filterMap Except.toOption

def failures (rows : Rows) : Rows := rows.filter fun r => !r.toOption.isSome

/-- Continues every row; failures stay where they are. -/
def continueWith (rows : Rows) (f : Binding → Rows) : Rows :=
  rows.flatMap fun
    | .ok row => f row
    | .error e => [.error e]

/-- Whether two rows bind the same variables to the same terms. -/
def sameRow (a b : Binding) : Bool :=
  a.size == b.size && a.entries.all fun e => b.get? e.1 == some e.2

def distinctFrom (seen : List Binding) : Rows → Rows
  | [] => []
  | .error e :: rest => .error e :: distinctFrom seen rest
  | .ok row :: rest =>
    if seen.any (sameRow row) then distinctFrom seen rest
    else .ok row :: distinctFrom (row :: seen) rest

/-- Drops a row that equals the row kept before it. -/
def reduceFrom (last : Option Binding) : Rows → Rows
  | [] => []
  | .error e :: rest => .error e :: reduceFrom last rest
  | .ok row :: rest =>
    if last.any (sameRow row) then reduceFrom last rest
    else .ok row :: reduceFrom (some row) rest

def slice (start : Nat) (length : Option Nat) (rows : Rows) : Rows :=
  match length with
  | some n => (rows.drop start).take n
  | none => rows.drop start

/-- Two rows as one, if they are compatible. -/
def combine? (a b : Binding) : Option Binding := if a.compatible b then some (a.merge b) else none

/-- The rows of a table, each on top of `row`. -/
def ofTable (xs : List Variable) (table : List (List (Option GroundTerm))) (row : Binding) : Rows :=
  ofBindings (table.filterMap fun cells =>
    combine? row (Binding.ofList ((xs.zip cells).filterMap fun c =>
      c.2.map fun t => (c.1, t.toTerm.canonical))))

/-- All pairs of compatible rows; the failures of both sides come first. -/
def join (left right : Rows) : Rows :=
  if left.isEmpty then []
  else left.failures ++ right.continueWith fun r =>
    ofBindings (left.bindings.filterMap (combine? · r)).reverse

/-- For each left row the rows found for it or, if there are none, the row itself. -/
def optionally (left : Rows) (found : Binding → Rows) : Rows :=
  left.continueWith fun row =>
    let rows := found row
    if rows.isEmpty then [.ok row] else rows.reverse

def matching (right : Rows) (row : Binding) : Rows :=
  ofBindings (right.bindings.filterMap (combine? row))

def sharesVariable (a b : Binding) : Bool := a.vars.any b.contains

def minus (left right : Rows) : Rows :=
  let removed := right.bindings
  left.filter fun
    | .ok row => !removed.any fun r => row.compatible r && sharesVariable row r
    | .error _ => true

/-- The rows of a selection: its own variables, added to the row outside. -/
def project (xs : List Variable) (outer : Binding) (rows : Rows) : Rows :=
  rows.filterMap fun
    | .ok row => (combine? outer ⟨row.entries.filter fun e => xs.contains e.1⟩).map .ok
    | .error e => some (.error e)

/-! ## Order -/

/-- The values a row is ordered by, and whether each is compared backwards. -/
abbrev SortKey := List (Bool × Option Value)

def compareKeys : SortKey → SortKey → Ordering
  | (backwards, a) :: as, (_, b) :: bs =>
    let first := if backwards then Value.order b a else Value.order a b
    first.then (compareKeys as bs)
  | _, _ => .eq

def orderBy (key : Binding → SortKey) (rows : Rows) : Rows :=
  let keyed := rows.bindings.map fun row => (key row, row)
  rows.failures ++
    ofBindings ((keyed.mergeSort fun a b => compareKeys a.1 b.1 != .gt).map (·.2))

/-! ## Groups -/

def addToGroup (key : List (Option Term)) (row : Binding) :
    List (List (Option Term) × List Binding) → List (List (Option Term) × List Binding)
  | [] => [(key, [row])]
  | g :: rest => if g.1 = key then (g.1, g.2 ++ [row]) :: rest else g :: addToGroup key row rest

/-- The rows by the values of the keys. Without keys there is one group, even without rows. -/
def groups (keys : List Variable) (rows : List Binding) :
    List (List (Option Term) × List Binding) :=
  rows.foldl (fun gs row => addToGroup (keys.map row.get?) row gs) (if keys.isEmpty then [([], [])] else [])

def setAll (row : Binding) (xs : List Variable) (values : List (Option Term)) : Binding :=
  (xs.zip values).foldl (fun row c => (c.2.map fun t => row.set c.1 t).getD row) row

def group (keys : List Variable) (outer : Binding)
    (summary : List Binding → List (Variable × Option Value)) (rows : Rows) : Rows :=
  rows.failures ++ ofBindings ((groups keys rows.bindings).map fun g =>
    let row := setAll outer keys g.1
    (summary g.2).foldl (fun row c => (c.2.map fun v => row.set c.1 v.toTerm).getD row) row)

def distinctRows (rows : List Binding) : List Binding := (distinctFrom [] (ofBindings rows)).bindings

end Rows

/-! ## Services -/

def serviceFailure (name : NamePattern) (row : Binding) : EngineError :=
  match name.toTermPattern.value? row with
  | some (.iri i) => .unsupportedService i
  | some t => .other (Chance.termText t ++ " is not a valid service name")
  | none => .other "The variable encoding the service name is unbound"

/-! ## Operators -/

/-- The conjunction and disjunction of two truths, of which either may be missing. -/
def logical? (op : BinaryOp) (a b : Option Bool) : Option Bool :=
  match op, a, b with
  | .or, some true, _ => some true
  | .or, _, some true => some true
  | .or, some false, some false => some false
  | .and, some false, _ => some false
  | .and, _, some false => some false
  | .and, some true, some true => some true
  | _, _, _ => none

def comparison? (accepted : List Ordering) (a b : Value) : Option Value :=
  (Value.compare? a b).map fun o => .boolean (accepted.contains o)

def BinaryOp.value? (op : BinaryOp) (a b : Option Value) : Option Value :=
  match op with
  | .or => (logical? .or (a.bind Value.truth?) (b.bind Value.truth?)).map .boolean
  | .and => (logical? .and (a.bind Value.truth?) (b.bind Value.truth?)).map .boolean
  | op => do
    let a ← a
    let b ← b
    match op with
    | .equal => (Value.equal? a b).map .boolean
    | .sameTerm => some (.boolean (a.sameTerm b))
    | .greater => comparison? [.gt] a b
    | .greaterOrEqual => comparison? [.gt, .eq] a b
    | .less => comparison? [.lt] a b
    | .lessOrEqual => comparison? [.lt, .eq] a b
    | .add => Value.add? a b
    | .subtract => Value.subtract? a b
    | .multiply => Value.multiply? a b
    | .divide => Value.divide? a b
    | .or => none
    | .and => none

def UnaryOp.value? (op : UnaryOp) (a : Value) : Option Value :=
  match op with
  | .plus => a.plus?
  | .minus => a.minus?
  | .not => a.truth?.map fun b => .boolean (!b)

/-- Whether a value equals one of the candidates: an error counts only when none of them does. -/
def oneOf? (a : Option Value) (candidates : List (Option Value)) : Option Value :=
  let truths := candidates.map fun b => do Value.equal? (← a) (← b)
  match candidates with
  | [] => (a.bind Value.truth?).map fun _ => .boolean false
  | _ =>
    if truths.contains (some true) then some (.boolean true)
    else if truths.contains none then none
    else some (.boolean false)

def Function.value? (c : FunctionContext) (f : Function) (arguments : List (Option Value)) :
    Option Value := do
  let arguments ← arguments.mapM id
  match f with
  | .builtIn f => f.value? c arguments
  | .custom f =>
    match Value.constructor? f, arguments with
    | some construct, [v] => construct v
    | _, _ => none

/-! ## Patterns -/

/-- Whether a pattern may be evaluated once for each row of what it is joined to. -/
def Pattern.isLeaf : Pattern → Bool
  | .bgp _ => true
  | .path .. => true
  | .values .. => true
  | _ => false

mutual

/-- The value of an expression on a row in a graph. -/
def Expr.value? (s : Surroundings) : Expr → Option NamePattern → Binding → Option Value
  | .constant t, _, _ => some (.ofTerm t.toTerm)
  | .var x, _, row => (row.get? x).map .ofTerm
  | .binary op a b, g, row => op.value? (a.value? s g row) (b.value? s g row)
  | .unary op a, g, row => (a.value? s g row).bind op.value?
  | .oneOf a candidates, g, row => oneOf? (a.value? s g row) (Expr.values s candidates g row)
  | .existence p, g, row => some (.boolean !(p.rows s g row).isEmpty)
  | .bound x, _, row => some (.boolean (row.contains x))
  | .cond c a b, g, row =>
    match (c.value? s g row).bind Value.truth? with
    | some true => a.value? s g row
    | some false => b.value? s g row
    | none => none
  | .coalesce arguments, g, row => ((Expr.values s arguments g row).find? Option.isSome).join
  | .call f arguments, g, row =>
    f.value? { s.functions with chance := s.functions.chance.forRow row }
      (Expr.values s arguments g row)

def Expr.values (s : Surroundings) : List Expr → Option NamePattern → Binding → List (Option Value)
  | [], _, _ => []
  | e :: rest, g, row => e.value? s g row :: Expr.values s rest g row

def OrderKey.value (s : Surroundings) : OrderKey → Option NamePattern → Binding → Bool × Option Value
  | .ascending e, g, row => (false, e.value? s g row)
  | .descending e, g, row => (true, e.value? s g row)

def OrderKey.values (s : Surroundings) :
    List OrderKey → Option NamePattern → Binding → Rows.SortKey
  | [], _, _ => []
  | k :: rest, g, row => k.value s g row :: OrderKey.values s rest g row

def Aggregate.value (s : Surroundings) :
    Aggregate → Option NamePattern → List Binding → Variable × Option Value
  | .countAll x distinct, _, rows =>
    (x, some (.integer (if distinct then Rows.distinctRows rows else rows).length))
  | .apply x f distinct e, g, rows => (x, f.apply distinct (rows.map fun row => e.value? s g row))

def Aggregate.values (s : Surroundings) :
    List Aggregate → Option NamePattern → List Binding → List (Variable × Option Value)
  | [], _, _ => []
  | a :: rest, g, rows => a.value s g rows :: Aggregate.values s rest g rows

/-- The rows that a pattern in a graph adds to a row. -/
def Pattern.rows (s : Surroundings) : Pattern → Option NamePattern → Binding → Rows
  | .bgp triples, g, row => Rows.ofBindings (s.dataset.matchBasic g triples row)
  | .path subject p object, g, row => Rows.ofBindings (s.dataset.matchPath g subject p object row)
  | .join l r, g, row =>
    if r.isLeaf then (l.rows s g row).continueWith fun row => r.rows s g row
    else Rows.join (l.rows s g row) (r.rows s g row)
  | .leftJoin l r none, g, row =>
    let right : Rows := if r.isLeaf then [] else r.rows s g row
    right.failures ++ (l.rows s g row).optionally fun row =>
      if r.isLeaf then r.rows s g row else right.matching row
  | .leftJoin l r (some e), g, row =>
    let holds : Except EngineError Binding → Bool
      | .ok row => (e.value? s g row).bind Value.truth? = some true
      | .error _ => true
    let right : Rows := if r.isLeaf then [] else r.rows s g row
    right.failures ++ (l.rows s g row).optionally fun row =>
      (if r.isLeaf then r.rows s g row else right.matching row).filter holds
  | .lateral l r, g, row => (l.rows s g row).continueWith fun row => r.rows s g row
  | .filter e p, g, row => (p.rows s g row).filter fun
    | .ok row => (e.value? s g row).bind Value.truth? = some true
    | .error _ => true
  | .union l r, g, row => l.rows s g row ++ r.rows s g row
  | .graph name p, _, row => p.rows s (some name) row
  | .extend p x e, g, row => (p.rows s g row).continueWith fun row =>
    match e.value? s g row with
    | some v => [.ok (row.set x v.toTerm)]
    | none => [.ok row]
  | .minus l r, g, row => Rows.minus (l.rows s g row) (r.rows s g row)
  | .values xs table, _, row => Rows.ofTable xs table row
  | .orderBy p keys, g, row =>
    (p.rows s g row).orderBy fun row => OrderKey.values s keys g row
  | .project p xs, g, row =>
    (p.rows s (g.map (·.hide xs)) ⟨row.entries.filter fun e => xs.contains e.1⟩).project xs row
  | .distinct p, g, row => Rows.distinctFrom [] (p.rows s g row)
  | .reduced p, g, row => Rows.reduceFrom none (p.rows s g row)
  | .slice p start length, g, row => (p.rows s g row).slice start length
  | .group p keys aggregates, g, row =>
    (p.rows s g row).group keys row fun rows => Aggregate.values s aggregates g rows
  | .service name _ silent, _, row =>
    if silent then [.ok row] else [.error (serviceFailure name row)]

end

end SparqlBind
