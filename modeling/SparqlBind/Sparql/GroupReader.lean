import SparqlBind.Sparql.TripleReader

/-!
# Reading group graph patterns

The elements of a group and how they combine from left to right: filters are collected and hold for
the whole group, a `BIND` extends what stands before it and may not set a variable again, and all
else is joined. Empty triple blocks leave no trace in a join.
-/

namespace SparqlBind.GroupReader

open Reader

/-- The join of two patterns: triple blocks and blocks of the same graph flow together. -/
def joinPatterns (left right : Pattern) : Pattern :=
  match left, right with
  | .bgp [], r => r
  | l, .bgp [] => l
  | .bgp a, .bgp b => .bgp (a ++ b)
  | .graph n l, .graph m r => if n = m then .graph n (joinPatterns l r) else .join (.graph n l) (.graph m r)
  | l, r => .join l r

def appendTriple (parts : List Pattern) (t : TriplePattern) : List Pattern :=
  match parts with
  | .bgp ts :: rest => .bgp (ts ++ [t]) :: rest
  | parts => .bgp [t] :: parts

/-- Adds a link to the parts so far, of which the last comes first. -/
def addLink (parts : List Pattern) : Link → List Pattern
  | .triple t => appendTriple parts t
  | .path s p o => .path s p o :: parts

def joinAll : List Pattern → Pattern
  | [] => .bgp []
  | first :: rest => rest.foldl joinPatterns first

def linkPattern (links : List Link) : Pattern := joinAll (links.foldl addLink []).reverse

inductive Element
  | optionally (pattern : Pattern)
  | laterally (pattern : Pattern)
  | without (pattern : Pattern)
  | bind (expression : Expr) (target : Variable)
  | filter (condition : Expr)
  | joined (pattern : Pattern)

/-- Variables that a pattern sets by `AS` or `VALUES`. -/
def definedVariables : Pattern → List Variable
  | .bgp _ => []
  | .path .. => []
  | .join l r => definedVariables l ++ definedVariables r
  | .leftJoin l r _ => definedVariables l ++ definedVariables r
  | .lateral l r => definedVariables l ++ definedVariables r
  | .union l r => definedVariables l ++ definedVariables r
  | .minus l r => definedVariables l ++ definedVariables r
  | .filter _ p => definedVariables p
  | .graph _ p => definedVariables p
  | .extend p x _ => x :: definedVariables p
  | .values xs _ => xs
  | .orderBy p _ => definedVariables p
  | .project p xs => (definedVariables p).filter (xs.contains ·)
  | .distinct p => definedVariables p
  | .reduced p => definedVariables p
  | .slice p _ _ => definedVariables p
  | .group p keys aggregates =>
    aggregates.map Aggregate.target ++ (definedVariables p).filter (keys.contains ·)
  | .service _ p _ => definedVariables p

/-- A group while it is put together: what its elements give so far, and its filters. -/
structure Draft where
  pattern : Pattern
  condition : Option Expr

def Draft.add? (d : Draft) : Element → Option Draft
  | .optionally (.filter e p) => some { d with pattern := .leftJoin d.pattern p (some e) }
  | .optionally p => some { d with pattern := .leftJoin d.pattern p none }
  | .laterally p =>
    if (definedVariables p).any (d.pattern.mentions.contains ·) then none
    else some { d with pattern := .lateral d.pattern p }
  | .without p => some { d with pattern := .minus d.pattern p }
  | .bind e x =>
    if d.pattern.mentions.contains x then none
    else some { d with pattern := .extend d.pattern x e }
  | .filter e =>
    some { d with condition := some (match d.condition with
      | some c => .binary .and c e
      | none => e) }
  | .joined p => some { d with pattern := joinPatterns d.pattern p }

def Draft.finish (d : Draft) : Pattern :=
  match d.condition with
  | some e => .filter e d.pattern
  | none => d.pattern

/-! ## Tables of values -/

def tableCell : Reader (Option GroundTerm) :=
  firstOf [do pure (some (.iri (← iri))), do pure (some (.literal (← literal))),
    do keyword "UNDEF"; pure none]

def cells : Reader (List (Option GroundTerm)) := many (do let c ← tableCell; blanks; pure c)

def singleColumn : Reader Pattern := do
  let x ← queryVariable
  blanks
  sign "\x7b"
  let cells ← cells
  exact "\x7d"
  pure (.values [x] (cells.map ([·])))

def tableRow (width : Nat) : Reader (List (Option GroundTerm)) := do
  sign "("
  let row ← cells
  sign ")"
  require (row.length == width)
  pure row

def manyColumns : Reader Pattern := do
  sign "("
  let columns ← many (do let x ← queryVariable; blanks; pure x)
  sign ")"
  sign "\x7b"
  let rows ← many (tableRow columns.length)
  exact "\x7d"
  pure (.values columns rows)

def table : Reader Pattern := either singleColumn manyColumns

/-! ## Elements -/

def variableOrIri : Reader NamePattern :=
  either (do pure (.iri (← iri))) (do pure (.var (← queryVariable)))

def groupAfter (words : List String) (inner : Nested) : Reader Pattern := do
  words.forM word
  inner.group

def namedGroup (inner : Nested) : Reader Element := do
  word "GRAPH"
  let name ← variableOrIri
  blanks
  pure (.joined (.graph name (← inner.group)))

def serviceGroup (inner : Nested) : Reader Element := do
  word "SERVICE"
  let silent := (← option (word "SILENT")).isSome
  let name ← variableOrIri
  blanks
  pure (.joined (.service name (← inner.group) silent))

def binding (inner : Nested) : Reader Element := do
  word "BIND"
  sign "("
  let e ← inner.expression
  blanks
  word "AS"
  let x ← queryVariable
  blanks
  exact ")"
  pure (.bind e x)

def unionOfGroups (inner : Nested) : Reader Element := do
  let first ← inner.group
  let rest ← many do
    blanks
    word "UNION"
    inner.group
  pure (.joined (rest.foldl .union first))

def element (inner : Nested) : Reader Element :=
  firstOf [unionOfGroups inner,
    do pure (.optionally (← groupAfter ["OPTIONAL"] inner)),
    do pure (.laterally (← groupAfter ["LATERAL"] inner)),
    do pure (.without (← groupAfter ["MINUS"] inner)),
    namedGroup inner, serviceGroup inner,
    do word "FILTER"; pure (.filter (← ExpressionReader.constraint inner)),
    binding inner,
    do word "VALUES"; pure (.joined (← table))]

/-- An element, and the triples after it. -/
def elementAndTriples (inner : Nested) : Reader (List Element) := do
  let e ← element inner
  blanks
  let _ ← option (sign ".")
  let links ← option (TripleReader.triples true inner)
  blanks
  pure (e :: (links.map fun l => .joined (linkPattern l)).toList)

def content (inner : Nested) : Reader Pattern := do
  let links ← option (TripleReader.triples true inner)
  blanks
  let elements ← many (elementAndTriples inner)
  let draft ← ofOption (elements.flatten.foldlM Draft.add? ⟨linkPattern (links.getD []), none⟩)
  pure draft.finish

end SparqlBind.GroupReader
