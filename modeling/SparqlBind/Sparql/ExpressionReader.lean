import SparqlBind.Sparql.Reader
import SparqlBind.Sparql.Equality

/-!
# Reading expressions

Expressions of a query text, from operators of the lowest rank down to calls, constants and
aggregates. Whatever nests is read by the readers of `Nested`, so nothing here recurses; the readers
of one level of nesting are built from those of the next in `Sparql.QueryReader`.
-/

namespace SparqlBind

/-- A step of a triple or path pattern that has been read. -/
inductive Link
  | triple (triple : TriplePattern)
  | path (subject : TermPattern) (path : PropertyPath) (object : TermPattern)

/-- A node and the patterns that describe it. -/
structure Described where
  node : TermPattern
  links : List Link

/-- The readers of the parts that nest. -/
structure Nested where
  expression : Reader Expr
  group : Reader Pattern
  path : Reader PropertyPath
  /-- An object, with property paths allowed inside it or not. -/
  node : Bool → Reader Described

namespace ExpressionReader

open Reader

def bracketed (inner : Nested) : Reader Expr := do
  sign "("
  let e ← inner.expression
  blanks
  exact ")"
  pure e

/-- The items of a list in brackets, which may be empty. -/
def expressionList (inner : Nested) : Reader (List Expr) :=
  either
    (do
      sign "("
      let items ← separated (sign ",") (do let e ← inner.expression; blanks; pure e)
      exact ")"
      pure items)
    (do emptyList; pure [])

/-- The aggregate's variable; the same aggregate has the same variable throughout a selection. -/
def shareAggregate (build : Variable → Aggregate) : Reader Expr := do
  let s ← get
  match s.aggregates with
  | [] => fail
  | known :: outer =>
    match known.find? fun a => (build a.target).same a with
    | some a => pure (.var a.target)
    | none =>
      let x ← freshVariable
      modify fun s => { s with aggregates := (known ++ [build x]) :: outer }
      pure (.var x)

def distinctMark : Reader Bool := do pure (← option (word "DISTINCT")).isSome

def aggregateOver (inner : Nested) (function : AggregateFunction) : Reader Expr := do
  sign "("
  let distinct ← distinctMark
  let e ← inner.expression
  blanks
  exact ")"
  shareAggregate fun x => .apply x function distinct e

def countAll : Reader Expr := do
  sign "("
  let distinct ← distinctMark
  sign "*"
  exact ")"
  shareAggregate fun x => .countAll x distinct

def groupConcat (inner : Nested) : Reader Expr := do
  sign "("
  let distinct ← distinctMark
  let e ← inner.expression
  blanks
  let separator ← option do
    sign ";"
    word "SEPARATOR"
    sign "="
    let text ← string
    blanks
    pure text
  exact ")"
  shareAggregate fun x => .apply x (.groupConcat separator) distinct e

def aggregate (inner : Nested) : String → Option (Reader Expr)
  | "COUNT" => some (either countAll (aggregateOver inner .count))
  | "SUM" => some (aggregateOver inner .sum)
  | "AVG" => some (aggregateOver inner .avg)
  | "MIN" => some (aggregateOver inner .min)
  | "MAX" => some (aggregateOver inner .max)
  | "SAMPLE" => some (aggregateOver inner .sample)
  | "GROUP_CONCAT" => some (groupConcat inner)
  | _ => none

/-- How many arguments a function takes, at least and at most. -/
def arity : BuiltIn → Nat × Nat
  | .rand => (0, 0)
  | .now => (0, 0)
  | .uuid => (0, 0)
  | .strUuid => (0, 0)
  | .bnode => (0, 1)
  | .langMatches => (2, 2)
  | .contains => (2, 2)
  | .strStarts => (2, 2)
  | .strEnds => (2, 2)
  | .strBefore => (2, 2)
  | .strAfter => (2, 2)
  | .strLang => (2, 2)
  | .strDatatype => (2, 2)
  | .adjust => (2, 2)
  | .subStr => (2, 3)
  | .regex => (2, 3)
  | .replace => (3, 4)
  | .concat => (0, 1000000000)
  | _ => (1, 1)

def functionNamed? : String → Option BuiltIn
  | "URI" => some .iri
  | "ISURI" => some .isIri
  | name => BuiltIn.ofName? name

def builtInCall (inner : Nested) (name : String) : Reader Expr := do
  let arguments (least most : Nat) : Reader (List Expr) := do
    let arguments ← expressionList inner
    require (least ≤ arguments.length && arguments.length ≤ most)
    pure arguments
  match name with
  | "BOUND" =>
    sign "("
    let x ← queryVariable
    blanks
    exact ")"
    pure (.bound x)
  | "IF" =>
    match ← arguments 3 3 with
    | [c, a, b] => pure (.cond c a b)
    | _ => fail
  | "COALESCE" => pure (.coalesce (← expressionList inner))
  | "SAMETERM" =>
    match ← arguments 2 2 with
    | [a, b] => pure (.binary .sameTerm a b)
    | _ => fail
  | name =>
    let function ← ofOption (functionNamed? name)
    let (least, most) := arity function
    pure (.call (.builtIn function) (← arguments least most))

def isNamePart (c : Char) : Bool := c.isAlphanum || c == '_'

def namedCall (inner : Nested) : Reader Expr := do
  let name := (String.ofList (← takeWhile isNamePart)).toUpper
  blanks
  match aggregate inner name with
  | some r => r
  | none => builtInCall inner name

def existenceTest (inner : Nested) : Reader Expr := do
  word "EXISTS"
  pure (.existence (← inner.group))

def absenceTest (inner : Nested) : Reader Expr := do
  word "NOT"
  pure (.not (← existenceTest inner))

def builtIn (inner : Nested) : Reader Expr :=
  firstOf [existenceTest inner, absenceTest inner, namedCall inner]

def functionCall (inner : Nested) : Reader Expr := do
  let function ← iri
  blanks
  pure (.call (.custom function) (← expressionList inner))

/-- A condition of a filter. -/
def constraint (inner : Nested) : Reader Expr :=
  firstOf [bracketed inner, functionCall inner, builtIn inner]

def primary (inner : Nested) : Reader Expr :=
  firstOf [bracketed inner, functionCall inner, do pure (.iri (← iri)),
    do pure (.var (← queryVariable)), do pure (.literal (← literal)), builtIn inner]

def unary (inner : Nested) : Reader Expr :=
  let marked (mark : String) (op : UnaryOp) : Reader Expr := do
    sign mark
    pure (.unary op (← primary inner))
  firstOf [marked "!" .not, marked "+" .plus, marked "-" .minus, primary inner]

def operator (signs : List (String × BinaryOp)) : Reader BinaryOp :=
  firstOf (signs.map fun o => do sign o.1; pure o.2)

/-- Operands joined by operators of one rank, grouped from the left. -/
def chain (signs : List (String × BinaryOp)) (operand : Reader Expr) : Reader Expr := do
  let first ← operand
  blanks
  let rest ← many do
    let op ← operator signs
    let e ← operand
    blanks
    pure (op, e)
  pure (rest.foldl (fun left r => .binary r.1 left r.2) first)

def multiplicative (inner : Nested) : Reader Expr :=
  chain [("*", .multiply), ("/", .divide)] (unary inner)

def additive (inner : Nested) : Reader Expr :=
  chain [("+", .add), ("-", .subtract)] (multiplicative inner)

def membership (inner : Nested) (value : Expr) : Reader Expr := do
  word "IN"
  pure (.oneOf value (← expressionList inner))

def comparison (inner : Nested) (left : Expr) : Reader Expr := do
  let op ← operator [("=", .equal), (">=", .greaterOrEqual), (">", .greater),
    ("<=", .lessOrEqual), ("<", .less)]
  pure (.binary op left (← additive inner))

def relational (inner : Nested) : Reader Expr := do
  let left ← additive inner
  blanks
  firstOf [comparison inner left,
    (do sign "!="; pure (.not (.binary .equal left (← additive inner)))),
    membership inner left,
    (do word "NOT"; pure (.not (← membership inner left))),
    pure left]

def conjunction (inner : Nested) : Reader Expr := chain [("&&", .and)] (relational inner)

def disjunction (inner : Nested) : Reader Expr := chain [("||", .or)] (conjunction inner)

end ExpressionReader

end SparqlBind
