import SparqlBind.Sparql.Algebra

/-!
# Simplified patterns

What can be said of a pattern before it is evaluated: which variables its rows bind, which
expressions are constant and which parts have no rows. Parts that cannot matter are dropped, so what
stands in them is never looked at; the rows of the pattern stay the same.
-/

namespace SparqlBind

/-- Variables that some rows bind, and variables that all rows bind. -/
structure Scope where
  possible : List Variable
  certain : List Variable

inductive Presence
  | never | maybe | always
deriving DecidableEq

namespace Scope

def empty : Scope := ⟨[], []⟩

def all (xs : List Variable) : Scope := ⟨xs, xs⟩

def presence (s : Scope) (x : Variable) : Presence :=
  if s.certain.contains x then .always else if s.possible.contains x then .maybe else .never

def both (s t : Scope) : Scope := ⟨s.possible ++ t.possible, s.certain ++ t.certain⟩

/-- The scope of rows of either kind. -/
def either (s t : Scope) : Scope :=
  ⟨s.possible ++ t.possible, s.certain.filter t.certain.contains⟩

def optional (s t : Scope) : Scope := ⟨s.possible ++ t.possible, s.certain⟩

def restrict (s : Scope) (xs : List Variable) : Scope :=
  ⟨s.possible.filter xs.contains, s.certain.filter xs.contains⟩

end Scope

/-! ## Expressions -/

/-- Whether an expression has a value. -/
def Expr.presence (s : Scope) : Expr → Presence
  | .constant _ => .always
  | .existence _ => .always
  | .bound _ => .always
  | .var x => s.presence x
  | .cond _ a b => if a.presence s = .never && b.presence s = .never then .never else .maybe
  | .coalesce arguments => anyPresence arguments
  | .call (.builtIn .bnode) [] => .always
  | .call (.builtIn .rand) _ => .always
  | .call (.builtIn .now) _ => .always
  | .call (.builtIn .uuid) _ => .always
  | .call (.builtIn .strUuid) _ => .always
  | _ => .maybe
where
  anyPresence : List Expr → Presence
    | [] => .never
    | e :: rest =>
      match e.presence s, anyPresence rest with
      | .always, _ => .always
      | .never, p => p
      | .maybe, .always => .always
      | .maybe, _ => .maybe

namespace Literal

/-- The truth of a constant that is a boolean or a plain text. -/
def constantTruth? : Literal → Option Bool
  | .plain s => some (!s.isEmpty)
  | .tagged _ _ => none
  | .typed s d =>
    if d = Iri.xsdBoolean then
      if s == "true" || s == "1" then some true else if s == "false" || s == "0" then some false else none
    else none

end Literal

namespace Expr

def ofBool (b : Bool) : Expr := literal (.ofBool b)

def truth? : Expr → Option Bool
  | .constant (.literal l) => l.constantTruth?
  | _ => none

/-- Whether two constants are known to be equal or not. -/
def constantEqual? : Expr → Expr → Option Bool
  | .constant (.iri i), .constant (.iri j) => some (i = j)
  | .constant (.literal l), .constant (.literal m) => if l = m then some true else none
  | _, _ => none

def simpleBinary (op : BinaryOp) (a b : Expr) : Expr :=
  match op with
  | .or =>
    if a.truth? = some true || b.truth? = some true then ofBool true
    else if a.truth? = some false && b.truth? = some false then ofBool false
    else .binary .or a b
  | .and =>
    if a.truth? = some false || b.truth? = some false then ofBool false
    else if a.truth? = some true && b.truth? = some true then ofBool true
    else .binary .and a b
  | .equal => ((constantEqual? a b).map ofBool).getD (.binary .equal a b)
  | .sameTerm => ((constantEqual? a b).map ofBool).getD (.binary .sameTerm a b)
  | op => .binary op a b

def simpleUnary (op : UnaryOp) (a : Expr) : Expr :=
  match op, a.truth? with
  | .not, some b => ofBool (!b)
  | op, _ => .unary op a

def simpleOneOf (a : Expr) (candidates : List Expr) : Expr :=
  match candidates with
  | [] => if a.truth?.isSome then ofBool false else .oneOf a []
  | candidates =>
    if candidates.any fun c => constantEqual? a c = some true then ofBool true
    else .oneOf a candidates

def simpleCond (c a b : Expr) : Expr :=
  match c.truth? with
  | some true => a
  | some false => b
  | none => .cond c a b

end Expr

/-! ## Patterns -/

namespace NamePattern

/-- A graph variable that a selection does not give to the outside. -/
def hide (xs : List Variable) : NamePattern → NamePattern
  | var x => if xs.contains x then var x else var ⟨"?" ++ x.name⟩
  | iri i => iri i

end NamePattern

namespace Pattern

def empty : Pattern := .values [] []

/-- The pattern with one row that binds nothing. -/
def unit : Pattern := .values [] [[]]

def isEmpty : Pattern → Bool
  | .values _ [] => true
  | _ => false

def isUnit : Pattern → Bool
  | .values _ [row] => row.all Option.isNone
  | _ => false

def rowScope : List Variable → List (Option GroundTerm) → Scope
  | x :: xs, some _ :: cells => Scope.both (.all [x]) (rowScope xs cells)
  | _ :: xs, none :: cells => rowScope xs cells
  | _, _ => .empty

def tableScope (xs : List Variable) : List (List (Option GroundTerm)) → Scope
  | [] => .empty
  | [row] => rowScope xs row
  | row :: rows => (rowScope xs row).either (tableScope xs rows)

def graphVariables (graph : Option NamePattern) : List Variable :=
  (graph.map NamePattern.vars).getD []

def scope (graph : Option NamePattern) : Pattern → Scope
  | .bgp triples => .all (graphVariables graph ++ triples.flatMap TriplePattern.vars)
  | .path s _ o => .all (graphVariables graph ++ s.vars ++ o.vars)
  | .join l r => (l.scope graph).both (r.scope graph)
  | .lateral l r => (l.scope graph).both (r.scope graph)
  | .leftJoin l r _ => (l.scope graph).optional (r.scope graph)
  | .filter _ p => p.scope graph
  | .union l r => (l.scope graph).either (r.scope graph)
  | .graph name p => p.scope (some name)
  | .extend p x e =>
    let s := p.scope graph
    match e.presence s with
    | .never => s
    | .maybe => s.both ⟨[x], []⟩
    | .always => s.both (.all [x])
  | .minus l _ => l.scope graph
  | .values xs rows => tableScope xs rows
  | .orderBy p _ => p.scope graph
  | .project p xs => (p.scope (graph.map (·.hide xs))).restrict xs
  | .distinct p => p.scope graph
  | .reduced p => p.scope graph
  | .slice p _ _ => p.scope graph
  | .group p keys aggregates =>
    ((p.scope graph).restrict keys).both ⟨aggregates.map Aggregate.target, []⟩
  | .service _ p _ => ⟨p.mentions, []⟩

def simpleJoin (l r : Pattern) : Pattern :=
  if l.isEmpty || r.isEmpty then empty
  else if l.isUnit then r
  else if r.isUnit then l
  else .join l r

def simpleLateral (l r : Pattern) : Pattern :=
  if l.isEmpty || r.isEmpty then empty
  else if l.isUnit then r
  else if r.isUnit then l
  else .lateral l r

def simpleLeftJoin (l r : Pattern) (condition : Option Expr) : Pattern :=
  if l.isEmpty then empty
  else if r.isEmpty || r.isUnit || condition.bind Expr.truth? = some false then l
  else .leftJoin l r condition

def simpleMinus (l r : Pattern) : Pattern :=
  if l.isEmpty then empty else if r.isEmpty then l else .minus l r

def simpleUnion (l r : Pattern) : Pattern :=
  if l.isEmpty then r else if r.isEmpty then l else .union l r

def simpleFilter (s : Scope) (e : Expr) (p : Pattern) : Pattern :=
  if p.isEmpty then empty
  else if e.presence s = .never then empty
  else
    match e.truth? with
    | some true => p
    | some false => empty
    | none => .filter e p

def simpleExtend (s : Scope) (p : Pattern) (x : Variable) (e : Expr) : Pattern :=
  if p.isEmpty then empty else if e.presence s = .never then p else .extend p x e

/-- An operator that has no rows when its child has none. -/
def simpleUnary (operator : Pattern → Pattern) (p : Pattern) : Pattern :=
  if p.isEmpty then empty else operator p

end Pattern

mutual

/-- Simplifies an expression on rows of the given scope. -/
def Expr.simplify : Expr → Scope → Option NamePattern → Expr
  | .constant t, _, _ => .constant t
  | .var x, _, _ => .var x
  | .binary op a b, s, g => Expr.simpleBinary op (a.simplify s g) (b.simplify s g)
  | .unary op a, s, g => Expr.simpleUnary op (a.simplify s g)
  | .oneOf a candidates, s, g => Expr.simpleOneOf (a.simplify s g) (Expr.simplifyAll candidates s g)
  | .existence p, s, g =>
    let p := p.simplify s g
    if p.isEmpty then .ofBool false else if p.isUnit then .ofBool true else .existence p
  | .bound x, s, _ =>
    match s.presence x with
    | .never => .ofBool false
    | .maybe => .bound x
    | .always => .ofBool true
  | .cond c a b, s, g => Expr.simpleCond (c.simplify s g) (a.simplify s g) (b.simplify s g)
  | .coalesce arguments, s, g => .coalesce (Expr.simplifyAll arguments s g)
  | .call f arguments, s, g => .call f (Expr.simplifyAll arguments s g)

def Expr.simplifyAll : List Expr → Scope → Option NamePattern → List Expr
  | [], _, _ => []
  | e :: rest, s, g => e.simplify s g :: Expr.simplifyAll rest s g

def OrderKey.simplify : OrderKey → Scope → Option NamePattern → OrderKey
  | .ascending e, s, g => .ascending (e.simplify s g)
  | .descending e, s, g => .descending (e.simplify s g)

def OrderKey.simplifyAll : List OrderKey → Scope → Option NamePattern → List OrderKey
  | [], _, _ => []
  | k :: rest, s, g => k.simplify s g :: OrderKey.simplifyAll rest s g

def Aggregate.simplify : Aggregate → Scope → Option NamePattern → Aggregate
  | .countAll x d, _, _ => .countAll x d
  | .apply x f d e, s, g => .apply x f d (e.simplify s g)

def Aggregate.simplifyAll : List Aggregate → Scope → Option NamePattern → List Aggregate
  | [], _, _ => []
  | a :: rest, s, g => a.simplify s g :: Aggregate.simplifyAll rest s g

/-- Simplifies a pattern in a graph, on top of rows of the given scope. -/
def Pattern.simplify : Pattern → Scope → Option NamePattern → Pattern
  | .bgp triples, _, g => if triples.isEmpty && g.isNone then .unit else .bgp triples
  | .path s p o, _, _ => .path s p o
  | .join l r, s, g => .simpleJoin (l.simplify s g) (r.simplify s g)
  | .lateral l r, s, g =>
    let l := l.simplify s g
    .simpleLateral l (r.simplify (s.both (l.scope g)) g)
  | .leftJoin l r none, s, g => .simpleLeftJoin (l.simplify s g) (r.simplify s g) none
  | .leftJoin l r (some e), s, g =>
    let l := l.simplify s g
    let r := r.simplify s g
    .simpleLeftJoin l r (some (e.simplify (s.both ((l.scope g).both (r.scope g))) g))
  | .filter e p, s, g =>
    let p := p.simplify s g
    let inner := s.both (p.scope g)
    .simpleFilter inner (e.simplify inner g) p
  | .union l r, s, g => .simpleUnion (l.simplify s g) (r.simplify s g)
  | .graph name p, s, _ =>
    let p := p.simplify s (some name)
    if p.isEmpty then .empty else .graph name p
  | .extend p x e, s, g =>
    let p := p.simplify s g
    let inner := s.both (p.scope g)
    .simpleExtend inner p x (e.simplify inner g)
  | .minus l r, s, g => .simpleMinus (l.simplify s g) (r.simplify s g)
  | .values xs rows, _, _ => if rows.isEmpty then .empty else .values xs rows
  | .orderBy p keys, s, g =>
    let p := p.simplify s g
    .simpleUnary (.orderBy · (OrderKey.simplifyAll keys (s.both (p.scope g)) g)) p
  | .project p xs, s, g => .project (p.simplify (s.restrict xs) (g.map (·.hide xs))) xs
  | .distinct p, s, g => .simpleUnary .distinct (p.simplify s g)
  | .reduced p, s, g => .simpleUnary .reduced (p.simplify s g)
  | .slice p start length, s, g => .simpleUnary (.slice · start length) (p.simplify s g)
  | .group p keys aggregates, s, g =>
    let p := p.simplify s g
    .group p keys (Aggregate.simplifyAll aggregates (s.both (p.scope g)) g)
  | .service name p silent, _, _ => .service name p silent

end

end SparqlBind
