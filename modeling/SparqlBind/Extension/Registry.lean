import SparqlBind.Extension.BindExpression
import SparqlBind.Extension.Context
import SparqlBind.Text.Quoted

/-!
# Extension functions

A function is called once for every solution below a `BIND`. It gets the state of the evaluation so
far and the solution and gives the state to go on with, usually with one more binding. A registry
holds one function for an IRI and lists the IRIs in order.
-/

namespace SparqlBind

/-- The evaluation of a `BIND` so far. -/
structure ExtendState where
  results : Array Binding
  context : EvaluationContext
  node : ExtendNode

namespace ExtendState

def start (context : EvaluationContext) (node : ExtendNode) : ExtendState := ⟨#[], context, node⟩

def push (s : ExtendState) (b : Binding) : ExtendState := { s with results := s.results.push b }

end ExtendState

structure ExtensionFunction where
  apply : ExtendState → Binding → Evaluation ExtendState

/-- Functions by the text of their IRIs, which are strictly increasing. -/
structure Registry where
  entries : List (String × ExtensionFunction)

namespace Registry

def empty : Registry := ⟨[]⟩

def lookup (r : Registry) (i : Iri) : Option ExtensionFunction := r.entries.lookup i.text

def contains (r : Registry) (i : Iri) : Bool := (r.lookup i).isSome

def insert (name : String) (f : ExtensionFunction) :
    List (String × ExtensionFunction) → List (String × ExtensionFunction)
  | [] => [(name, f)]
  | e :: rest =>
    if name = e.1 then (name, f) :: rest
    else if name < e.1 then (name, f) :: e :: rest
    else e :: insert name f rest

/-- The registry with `f` at `i`, and the function it replaces. -/
def register (r : Registry) (i : Iri) (f : ExtensionFunction) :
    Registry × Option ExtensionFunction :=
  (⟨insert i.text f r.entries⟩, r.lookup i)

def functionNames (r : Registry) : List Iri := r.entries.map fun e => ⟨e.1⟩

def size (r : Registry) : Nat := r.entries.length

def isEmpty (r : Registry) : Bool := r.entries.isEmpty

/-- The set of the IRIs as a text. -/
def render (r : Registry) : String :=
  "\x7b" ++ ", ".intercalate (r.functionNames.map fun i => Quoted.encode i.text) ++ "\x7d"

end Registry

end SparqlBind
