import SparqlBind.Sparql.Algebra

/-!
# Bind expressions

The expression of a `BIND` is either a call of a function named by an IRI or left to the engine.
The constructors of XML Schema datatypes are named by IRIs too and are left to the engine.
-/

namespace SparqlBind

inductive BindExpression
  | functionCall (function : Iri) (arguments : List Expr)
  | builtIn (expression : Expr)

namespace BindExpression

instance : Inhabited BindExpression := ⟨.builtIn default⟩

def isDatatypeConstructor (function : Iri) : Bool :=
  Iri.xsdNamespace.toList.isPrefixOf function.text.toList

def ofExpr : Expr → BindExpression
  | .call (.custom f) arguments =>
    if isDatatypeConstructor f then builtIn (.call (.custom f) arguments)
    else functionCall f arguments
  | e => builtIn e

def toExpr : BindExpression → Expr
  | functionCall f arguments => .call (.custom f) arguments
  | builtIn e => e

/-- The function called, unless the engine evaluates the expression. -/
def function? : BindExpression → Option Iri
  | functionCall f _ => some f
  | builtIn _ => none

end BindExpression

/-- A `BIND`: the solutions of `inner`, each with `target` set to the value of `expression`. -/
structure ExtendNode where
  inner : Pattern
  target : Variable
  expression : BindExpression

namespace ExtendNode

def toPattern (n : ExtendNode) : Pattern := .extend n.inner n.target n.expression.toExpr

end ExtendNode

/-- A node of the algebra as the evaluation of `BIND` sees it. -/
inductive AlgebraNode
  | extend (node : ExtendNode)
  | other (pattern : Pattern)

namespace AlgebraNode

def ofPattern : Pattern → AlgebraNode
  | .extend inner x e => extend ⟨inner, x, .ofExpr e⟩
  | p => other p

def toPattern : AlgebraNode → Pattern
  | extend n => n.toPattern
  | other p => p

def patternName : Pattern → String
  | .bgp _ => "BGP"
  | .path .. => "Path"
  | .join .. => "Join"
  | .leftJoin .. => "LeftJoin"
  | .lateral .. => "Unknown"
  | .filter .. => "Filter"
  | .union .. => "Union"
  | .graph .. => "Graph"
  | .extend .. => "Extend"
  | .minus .. => "Minus"
  | .values .. => "Values"
  | .orderBy .. => "OrderBy"
  | .project .. => "Project"
  | .distinct _ => "Distinct"
  | .reduced _ => "Reduced"
  | .slice .. => "Slice"
  | .group .. => "Group"
  | .service .. => "Service"

/-- The name of the operator. -/
def name : AlgebraNode → String
  | extend _ => "Extend"
  | other p => patternName p

end AlgebraNode

end SparqlBind
