import SparqlBind.Sparql.GroupReader

/-!
# Reading queries

Selections with their grouping, ordering and slicing, the four query forms, and the entry point
`Query.parse`. The nested readers are tied here: a text of `n` characters nests less than `n` times,
so as many levels are enough for it.
-/

namespace SparqlBind.QueryReader

open Reader

inductive SelectedItem
  | var (x : Variable)
  | computed (expression : Expr) (target : Variable)

inductive Duplicates
  | kept
  | distinct
  | reduced

structure Selection where
  duplicates : Duplicates
  /-- `none` stands for all variables in scope. -/
  items : Option (List SelectedItem)

/-- What follows the pattern of a query. -/
structure Modifiers where
  groupKeys : Option (List Variable × List (Expr × Variable))
  having : Option Expr
  order : Option (List OrderKey)
  slice : Option (Nat × Option Nat)
  values : Option Pattern

/-- Whether a group gives a value to every variable an expression asks for. Tests for being bound
and alternatives ask for none. -/
def boundIn (visible : List Variable) : Expr → Bool
  | .constant _ => true
  | .var x => visible.contains x
  | .binary _ a b => boundIn visible a && boundIn visible b
  | .unary _ a => boundIn visible a
  | .oneOf a bs => boundIn visible a && allBound bs
  | .existence _ => true
  | .bound _ => true
  | .cond a b c => boundIn visible a && boundIn visible b && boundIn visible c
  | .coalesce _ => true
  | .call _ as => allBound as
where
  allBound : List Expr → Bool
    | [] => true
    | e :: es => boundIn visible e && allBound es

structure Projected where
  pattern : Pattern
  columns : List Variable

/-- Adds one selected item. A computed one may not set a visible variable, and under grouping every
variable has to be visible. -/
def selectItem? (grouped : Bool) (visible : List Variable) (p : Projected) (item : SelectedItem) :
    Option Projected :=
  let add (pattern : Pattern) (x : Variable) : Option Projected :=
    if p.columns.contains x then none else some ⟨pattern, p.columns ++ [x]⟩
  match item with
  | .var x => if grouped && !visible.contains x then none else add p.pattern x
  | .computed e x =>
    if visible.contains x then none
    else if grouped && !boundIn visible e then none
    else add (.extend p.pattern x e) x

def insertSorted (x : Variable) : List Variable → List Variable
  | [] => [x]
  | y :: rest => if x.name ≤ y.name then x :: y :: rest else y :: insertSorted x rest

def sortVariables (xs : List Variable) : List Variable := xs.foldr insertSorted []

def project? (selection : Selection) (grouped : Bool) (pattern : Pattern) : Option Projected :=
  match selection.items with
  | some items => items.foldlM (selectItem? grouped pattern.mentions) ⟨pattern, []⟩
  | none => if grouped then none else some ⟨pattern, sortVariables pattern.inScope⟩

def duplicates : Duplicates → Pattern → Pattern
  | .kept, p => p
  | .distinct, p => .distinct p
  | .reduced, p => .reduced p

/-- The pattern of a selection: grouping, `HAVING`, `VALUES`, the computed columns, the order, the
projection and the slice, from the inside to the outside. -/
def build? (selection : Selection) (pattern : Pattern) (m : Modifiers) (aggregates : List Aggregate) :
    Option Pattern := do
  let groupKeys := m.groupKeys.or (if aggregates.isEmpty then none else some ([], []))
  let grouped := match groupKeys with
    | some (keys, computed) =>
      .group (computed.foldl (fun p c => .extend p c.2 c.1) pattern) keys aggregates
    | none => pattern
  let restricted := match m.having with
    | some e => .filter e grouped
    | none => grouped
  let joined := match m.values with
    | some table => GroupReader.joinPatterns restricted table
    | none => restricted
  let projected ← project? selection groupKeys.isSome joined
  let ordered := match m.order with
    | some keys => .orderBy projected.pattern keys
    | none => projected.pattern
  let all := duplicates selection.duplicates (.project ordered projected.columns)
  pure (match m.slice with
    | some (start, length) => .slice all start length
    | none => all)

/-! ## Modifiers -/

def groupKey (inner : Nested) : Reader (Expr × Option Variable) := do
  let key ← firstOf [
    do pure (← ExpressionReader.builtIn inner, none),
    do pure (← ExpressionReader.functionCall inner, none),
    (do
      sign "("
      let e ← inner.expression
      blanks
      let x ← option (do word "AS"; let x ← queryVariable; blanks; pure x)
      exact ")"
      pure (e, x)),
    do pure (.var (← queryVariable), none)]
  blanks
  pure key

/-- The variable of a key, and how to compute it when it is none of the pattern. -/
def keyVariable : Expr × Option Variable → Reader (Variable × Option (Expr × Variable))
  | (.var x, _) => pure (x, none)
  | (e, some x) => pure (x, some (e, x))
  | (e, none) => do
    let x ← freshVariable
    pure (x, some (e, x))

def groupClause (inner : Nested) : Reader (List Variable × List (Expr × Variable)) := do
  word "GROUP"
  word "BY"
  let keys ← (← many1 (groupKey inner)).mapM keyVariable
  pure (keys.map (·.1), keys.filterMap (·.2))

def havingClause (inner : Nested) : Reader Expr := do
  word "HAVING"
  match ← many1 (do let e ← ExpressionReader.constraint inner; blanks; pure e) with
  | first :: rest => pure (rest.foldl (.binary .and) first)
  | [] => fail

def orderKey (inner : Nested) : Reader OrderKey := do
  let key ← firstOf [
    do word "ASC"; pure (.ascending (← ExpressionReader.bracketed inner)),
    do word "DESC"; pure (.descending (← ExpressionReader.bracketed inner)),
    do pure (.ascending (← ExpressionReader.constraint inner)),
    do pure (.ascending (.var (← queryVariable)))]
  blanks
  pure key

def orderClause (inner : Nested) : Reader (List OrderKey) := do
  word "ORDER"
  word "BY"
  many1 (orderKey inner)

def count (name : String) : Reader Nat := do
  word name
  let n := (← digits1).foldl (fun n d => 10 * n + (d.toNat - 48)) 0
  require (n < 0x10000000000000000)
  blanks
  pure n

def sliceClause : Reader (Nat × Option Nat) :=
  either
    (do
      let length ← count "LIMIT"
      pure ((← option (count "OFFSET")).getD 0, some length))
    (do
      let start ← count "OFFSET"
      pure (start, ← option (count "LIMIT")))

def modifiers (inner : Nested) : Reader Modifiers := do
  blanks
  let groupKeys ← option (groupClause inner)
  blanks
  let having ← option (havingClause inner)
  let order ← option (orderClause inner)
  let slice ← option sliceClause
  let values ← option (do word "VALUES"; GroupReader.table)
  pure ⟨groupKeys, having, order, slice, values⟩

/-! ## Selections -/

def selectedItem (inner : Nested) : Reader SelectedItem :=
  either (do pure (.var (← queryVariable))) do
    sign "("
    let e ← inner.expression
    blanks
    word "AS"
    let x ← queryVariable
    blanks
    exact ")"
    pure (.computed e x)

/-- Opens a list of aggregates, which `closeSelection` takes away. -/
def selectClause (inner : Nested) : Reader Selection := do
  word "SELECT"
  modify fun s => { s with aggregates := [] :: s.aggregates }
  let duplicates ← firstOf [do word "DISTINCT"; pure Duplicates.distinct,
    do word "REDUCED"; pure .reduced, pure .kept]
  let items ← either (do exact "*"; pure none)
    (do pure (some (← many1 (do let i ← selectedItem inner; blanks; pure i))))
  blanks
  pure ⟨duplicates, items⟩

def everything : Selection := ⟨.kept, none⟩

def closeSelection (selection : Selection) (pattern : Pattern) (m : Modifiers) : Reader Pattern := do
  let s ← get
  set { s with aggregates := s.aggregates.drop 1 }
  ofOption (build? selection pattern m (s.aggregates.headD []))

def whereClause (inner : Nested) : Reader Pattern := do
  let _ ← option (word "WHERE")
  inner.group

def subselect (inner : Nested) : Reader Pattern := do
  let selection ← selectClause inner
  let pattern ← whereClause inner
  closeSelection selection pattern (← modifiers inner)

/-- A group in braces: elements, or a selection. Labels of blank nodes hold between braces. -/
def group (inner : Nested) : Reader Pattern :=
  let braces (r : Reader Pattern) : Reader Pattern := do
    sign "\x7b"
    closeLabels
    let p ← r
    closeLabels
    blanks
    exact "\x7d"
    pure p
  either (braces (GroupReader.content inner)) (braces (subselect inner))

def noNested : Nested := ⟨fail, fail, fail, fun _ => fail⟩

def nested : Nat → Nested
  | 0 => noNested
  | n + 1 =>
    { expression := fun s => ExpressionReader.disjunction (nested n) s
      group := fun s => group (nested n) s
      path := fun s => TripleReader.pathAlternative (nested n) s
      node := fun paths s => TripleReader.node paths (nested n) s }

/-! ## Query forms -/

def baseDeclaration : Reader Unit := do
  word "BASE"
  let base ← iriReference
  blanks
  modify fun s => { s with base := some base }

def setPrefix (name iri : String) (declared : List (String × String)) : List (String × String) :=
  (name, iri) :: declared.filter (·.1 != name)

def prefixDeclaration : Reader Unit := do
  word "PREFIX"
  let name ← namespaceName
  blanks
  let iri ← iriReference
  blanks
  modify fun s => { s with prefixes := setPrefix name iri.text s.prefixes }

def prologue : Reader Unit := do
  let _ ← many (either baseDeclaration prefixDeclaration)

/-- A graph of the dataset, and whether it is a named one. -/
def fromClause : Reader (Bool × Iri) := do
  word "FROM"
  let named := (← option (word "NAMED")).isSome
  let graph ← iri
  blanks
  pure (named, graph)

def datasetClause : Reader (Option DatasetClause) := do
  let graphs ← many fromClause
  pure (if graphs.isEmpty then none else
    some ⟨(graphs.filter fun g => !g.1).map (·.2), some ((graphs.filter (·.1)).map (·.2))⟩)

def finish (form : QueryForm) (dataset : Option DatasetClause) (pattern : Pattern) : Reader Query := do
  pure ⟨form, pattern, dataset, (← get).base⟩

def selectQuery (inner : Nested) : Reader Query := do
  let selection ← selectClause inner
  let dataset ← datasetClause
  let pattern ← whereClause inner
  finish .select dataset (← closeSelection selection pattern (← modifiers inner))

def constructTemplate (inner : Nested) : Reader Query := do
  word "CONSTRUCT"
  let template ← TripleReader.template inner
  blanks
  let dataset ← datasetClause
  let pattern ← whereClause inner
  finish (.construct template) dataset (← closeSelection everything pattern (← modifiers inner))

/-- The short form, whose template is its pattern. -/
def constructPattern (inner : Nested) : Reader Query := do
  word "CONSTRUCT"
  let dataset ← datasetClause
  word "WHERE"
  let template ← TripleReader.template inner
  finish (.construct template) dataset
    (← closeSelection everything (.bgp template) (← modifiers inner))

def describedItem : Reader SelectedItem := do
  let item ← GroupReader.variableOrIri
  blanks
  match item with
  | .var x => pure (.var x)
  | .iri i => do pure (.computed (.iri i) (← freshVariable))

def describeAll (inner : Nested) : Reader Query := do
  word "DESCRIBE"
  sign "*"
  let dataset ← datasetClause
  let pattern ← whereClause inner
  finish .describe dataset (← closeSelection everything pattern (← modifiers inner))

def describeItems (inner : Nested) : Reader Query := do
  word "DESCRIBE"
  let items ← many1 describedItem
  let dataset ← datasetClause
  let pattern ← option (whereClause inner)
  finish .describe dataset
    (← closeSelection ⟨.kept, some items⟩ (pattern.getD (.bgp [])) (← modifiers inner))

def askQuery (inner : Nested) : Reader Query := do
  word "ASK"
  let dataset ← datasetClause
  let pattern ← whereClause inner
  finish .ask dataset (← closeSelection everything pattern (← modifiers inner))

def query (inner : Nested) : Reader Query := do
  blanks
  prologue
  let q ← firstOf [selectQuery inner, constructTemplate inner, constructPattern inner,
    describeAll inner, describeItems inner, askQuery inner]
  blanks
  require (← peek).isEmpty
  pure q

end SparqlBind.QueryReader

namespace SparqlBind

/-- The query a text stands for, seen from a base IRI and with prefixes declared beforehand. -/
def Query.parse? (text : String) (base : Option Iri) (prefixes : List (String × String)) :
    Option Query :=
  let input := Reader.unescapeCodePoints text.toList
  let start : ReaderState :=
    { input := input, size := input.length, base := base, prefixes := prefixes, usedLabels := [],
      currentLabels := [], aggregates := [], fresh := 0 }
  (QueryReader.query (QueryReader.nested (input.length + 1)) start).map (·.1)

end SparqlBind
