import SparqlBind.Rdf.Term

/-!
# Query algebra

Expressions, property paths, graph patterns and queries as data, with their in-scope variables and
their structural equality. What a pattern means is said by an engine; nothing is evaluated here.
-/

namespace SparqlBind

/-- A subject or object of a triple pattern. -/
inductive TermPattern
  | term (term : Term)
  | var (x : Variable)
deriving DecidableEq, Inhabited

/-- A predicate, or the name of a graph or service. -/
inductive NamePattern
  | iri (iri : Iri)
  | var (x : Variable)
deriving DecidableEq, Inhabited

namespace TermPattern

def vars : TermPattern → List Variable
  | term _ => []
  | var x => [x]

end TermPattern

namespace NamePattern

def vars : NamePattern → List Variable
  | iri _ => []
  | var x => [x]

def toTermPattern : NamePattern → TermPattern
  | iri i => .term (.iri i)
  | var x => .var x

end NamePattern

structure TriplePattern where
  subject : TermPattern
  predicate : NamePattern
  object : TermPattern
deriving DecidableEq, Inhabited

namespace TriplePattern

def vars (t : TriplePattern) : List Variable :=
  t.subject.vars ++ t.predicate.vars ++ t.object.vars

end TriplePattern

inductive PropertyPath
  | iri (iri : Iri)
  | inverse (path : PropertyPath)
  | sequence (first second : PropertyPath)
  | alternative (left right : PropertyPath)
  | zeroOrMore (path : PropertyPath)
  | oneOrMore (path : PropertyPath)
  | zeroOrOne (path : PropertyPath)
  | negated (iris : List Iri)
deriving DecidableEq, Inhabited

inductive BinaryOp
  | or | and | equal | sameTerm | greater | greaterOrEqual | less | lessOrEqual
  | add | subtract | multiply | divide
deriving DecidableEq, Inhabited

inductive UnaryOp
  | plus | minus | not
deriving DecidableEq, Inhabited

/-- The functions that have a name of their own in the query language. -/
inductive BuiltIn
  | str | lang | langMatches | datatype | iri | bnode | rand | abs | ceil | floor | round | concat
  | subStr | strLen | replace | upper | lower | encodeForUri | contains | strStarts | strEnds
  | strBefore | strAfter | year | month | day | hours | minutes | seconds | timezone | tz | now
  | uuid | strUuid | md5 | sha1 | sha256 | sha384 | sha512 | strLang | strDatatype | isIri | isBlank
  | isLiteral | isNumeric | regex | adjust
deriving DecidableEq, Inhabited

namespace BuiltIn

def names : List (BuiltIn × String) :=
  [(str, "STR"), (lang, "LANG"), (langMatches, "LANGMATCHES"), (datatype, "DATATYPE"), (iri, "IRI"),
    (bnode, "BNODE"), (rand, "RAND"), (abs, "ABS"), (ceil, "CEIL"), (floor, "FLOOR"),
    (round, "ROUND"), (concat, "CONCAT"), (subStr, "SUBSTR"), (strLen, "STRLEN"),
    (replace, "REPLACE"), (upper, "UCASE"), (lower, "LCASE"), (encodeForUri, "ENCODE_FOR_URI"),
    (contains, "CONTAINS"), (strStarts, "STRSTARTS"), (strEnds, "STRENDS"),
    (strBefore, "STRBEFORE"), (strAfter, "STRAFTER"), (year, "YEAR"), (month, "MONTH"),
    (day, "DAY"), (hours, "HOURS"), (minutes, "MINUTES"), (seconds, "SECONDS"),
    (timezone, "TIMEZONE"), (tz, "TZ"), (now, "NOW"), (uuid, "UUID"), (strUuid, "STRUUID"),
    (md5, "MD5"), (sha1, "SHA1"), (sha256, "SHA256"), (sha384, "SHA384"), (sha512, "SHA512"),
    (strLang, "STRLANG"), (strDatatype, "STRDT"), (isIri, "ISIRI"), (isBlank, "ISBLANK"),
    (isLiteral, "ISLITERAL"), (isNumeric, "ISNUMERIC"), (regex, "REGEX"), (adjust, "ADJUST")]

def name (f : BuiltIn) : String := (names.lookup f).getD ""

def ofName? (name : String) : Option BuiltIn := (names.find? fun p => p.2 == name).map (·.1)

end BuiltIn

inductive Function
  | builtIn (f : BuiltIn)
  | custom (iri : Iri)
deriving DecidableEq, Inhabited

inductive AggregateFunction
  | count | sum | avg | min | max | sample
  | groupConcat (separator : Option String)
deriving DecidableEq, Inhabited

mutual

inductive Expr
  | constant (value : GroundTerm)
  | var (x : Variable)
  | binary (op : BinaryOp) (left right : Expr)
  | unary (op : UnaryOp) (argument : Expr)
  | oneOf (value : Expr) (candidates : List Expr)
  | existence (pattern : Pattern)
  | bound (x : Variable)
  | cond (condition whenTrue whenFalse : Expr)
  | coalesce (arguments : List Expr)
  | call (function : Function) (arguments : List Expr)

inductive OrderKey
  | ascending (key : Expr)
  | descending (key : Expr)

/-- What a group computes for each of its keys, and the variable that holds it. -/
inductive Aggregate
  | countAll (target : Variable) (distinct : Bool)
  | apply (target : Variable) (function : AggregateFunction) (distinct : Bool) (argument : Expr)

inductive Pattern
  | bgp (triples : List TriplePattern)
  | path (subject : TermPattern) (path : PropertyPath) (object : TermPattern)
  | join (left right : Pattern)
  | leftJoin (left right : Pattern) (condition : Option Expr)
  | lateral (left right : Pattern)
  | filter (condition : Expr) (inner : Pattern)
  | union (left right : Pattern)
  | graph (name : NamePattern) (inner : Pattern)
  | extend (inner : Pattern) (target : Variable) (expression : Expr)
  | minus (left right : Pattern)
  | values (vars : List Variable) (rows : List (List (Option GroundTerm)))
  | orderBy (inner : Pattern) (keys : List OrderKey)
  | project (inner : Pattern) (vars : List Variable)
  | distinct (inner : Pattern)
  | reduced (inner : Pattern)
  | slice (inner : Pattern) (start : Nat) (length : Option Nat)
  | group (inner : Pattern) (keys : List Variable) (aggregates : List Aggregate)
  | service (name : NamePattern) (inner : Pattern) (silent : Bool)

end

instance : Inhabited Expr := ⟨.constant default⟩
instance : Inhabited Pattern := ⟨.bgp []⟩

namespace Aggregate

def target : Aggregate → Variable
  | countAll x _ => x
  | apply x _ _ _ => x

def rename (y : Variable) : Aggregate → Aggregate
  | countAll _ d => countAll y d
  | apply _ f d e => apply y f d e

end Aggregate

namespace Expr

def iri (i : Iri) : Expr := .constant (.iri i)

def literal (l : Literal) : Expr := .constant (.literal l)

def not (e : Expr) : Expr := .unary .not e

def isVar : Expr → Bool
  | var _ => true
  | _ => false

end Expr

/-- Adds `x` at the end unless it is there. -/
def addVariable (xs : List Variable) (x : Variable) : List Variable :=
  if x ∈ xs then xs else xs ++ [x]

/-- `left`, followed by the variables of `right` that it lacks. -/
def unionVariables (left right : List Variable) : List Variable := right.foldl addVariable left

namespace Pattern

/-- The variables a row of the pattern can bind, in the order they are met, with repetitions. -/
def mentions : Pattern → List Variable
  | bgp triples => triples.flatMap TriplePattern.vars
  | path s _ o => s.vars ++ o.vars
  | join l r => l.mentions ++ r.mentions
  | leftJoin l r _ => l.mentions ++ r.mentions
  | lateral l r => l.mentions ++ r.mentions
  | filter _ p => p.mentions
  | union l r => l.mentions ++ r.mentions
  | graph name p => name.vars ++ p.mentions
  | extend p x _ => x :: p.mentions
  | minus l _ => l.mentions
  | values xs _ => xs
  | orderBy p _ => p.mentions
  | project _ xs => xs
  | distinct p => p.mentions
  | reduced p => p.mentions
  | slice p _ _ => p.mentions
  | group _ keys aggregates => keys ++ aggregates.map Aggregate.target
  | service _ p _ => p.mentions

def inScope (p : Pattern) : List Variable := unionVariables [] p.mentions

end Pattern

/-- Where a query looks: the graphs merged into its default graph and its named graphs. -/
structure DatasetClause where
  default : List Iri
  named : Option (List Iri)
deriving DecidableEq, Inhabited

inductive QueryForm
  | select
  | construct (template : List TriplePattern)
  | describe
  | ask
deriving DecidableEq, Inhabited

structure Query where
  form : QueryForm
  pattern : Pattern
  dataset : Option DatasetClause
  base : Option Iri

namespace Query

/-- The name of the algebra root. -/
def algebraName (q : Query) : String :=
  match q.form with
  | .select => "SelectQuery"
  | .construct _ => "ConstructQuery"
  | .ask => "AskQuery"
  | .describe => "DescribeQuery"

end Query

end SparqlBind
