import SparqlBind.Extension.Registry

/-!
# Scalar functions

A function from the values of its arguments to one value, made into an extension function. A
variable is looked up in the solution, a constant is used as it is, and any other argument is
evaluated by the engine. The arguments are taken in order, and the first one without value fails the
call.
-/

namespace SparqlBind

/-- A function of terms that refuses some arguments with a message. -/
structure ScalarFunction where
  iri : Iri
  value : List Term → Except String Term

namespace ScalarFunction

def argument? (context : EvaluationContext) (b : Binding) : Expr → Evaluation (Option Term)
  | .var x => pure (b.get? x)
  | .constant t => pure (some t.toTerm)
  | e => context.evaluateExpression e b

/-- The values of the arguments, of which the first has the given position. -/
def arguments (f : ScalarFunction) (context : EvaluationContext) (b : Binding) :
    Nat → List Expr → Evaluation (List Term)
  | _, [] => pure []
  | position, e :: rest => do
    match ← argument? context b e with
    | some t => pure (t :: (← f.arguments context b (position + 1) rest))
    | none => throw (.invalidArgument f.iri position)

def argumentExprs : BindExpression → List Expr
  | .functionCall _ arguments => arguments
  | .builtIn _ => []

def call (f : ScalarFunction) (terms : List Term) : Evaluation Term :=
  match f.value terms with
  | .ok t => pure t
  | .error message => throw (.function f.iri message)

def toExtension (f : ScalarFunction) : ExtensionFunction where
  apply state b := do
    let terms ← f.arguments state.context b 0 (argumentExprs state.node.expression)
    let value ← f.call terms
    pure (state.push (b.set state.node.target value))

/-- A term as a message shows it, if it is not a literal. -/
def nonLiteralText : Term → String
  | .iri i => "<" ++ i.text ++ ">"
  | .blank label => "_:" ++ label
  | .literal l => l.value

/-- The texts of the literals put together as one plain literal. -/
def concatText : List Term → Except String String
  | [] => pure ""
  | .literal l :: rest => do pure (l.value ++ (← concatText rest))
  | t :: _ => throw (nonLiteralText t ++ " is not a literal")

def concat (terms : List Term) : Except String Term := do
  pure (.literal (.plain (← concatText terms)))

end ScalarFunction

end SparqlBind
