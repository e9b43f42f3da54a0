import SparqlBind.Evaluation.Engine
import SparqlBind.Extension.Inlining
import SparqlBind.Extension.ScalarFunction

/-!
# Registries of scalar functions

A registry made of a list of scalar functions, looked up like the list. The sample at the end is a
small one, with the names, the function and the queries on which results about inlining are shown.
-/

namespace SparqlBind

abbrev ScalarFunctions := List (String × ScalarFunction)

def Registry.ofScalars (functions : ScalarFunctions) : Registry :=
  ⟨functions.map fun e => (e.1, e.2.toExtension)⟩

theorem Registry.lookup_ofScalars (functions : ScalarFunctions) (i : Iri) :
    (Registry.ofScalars functions).lookup i =
      (functions.lookup i.text).map ScalarFunction.toExtension := by
  unfold lookup ofScalars
  induction functions with
  | nil => rfl
  | cons e rest ih =>
    rw [List.map_cons, List.lookup_cons, List.lookup_cons]
    cases i.text == e.1 with
    | true => rfl
    | false => exact ih

def ScalarFunction.result? (f : ScalarFunction) (terms : List Term) : Option Term :=
  (f.value terms).toOption

/-! ## A sample -/

namespace Sample

def subject : Variable := ⟨"s"⟩

def object : Variable := ⟨"o"⟩

def target : Variable := ⟨"x"⟩

def predicate : Iri := ⟨"http://example.com/name"⟩

def concat : Iri := ⟨"http://example.com/concat"⟩

def functions : ScalarFunctions := [(concat.text, ⟨concat, ScalarFunction.concat⟩)]

def evaluator : ExtensionEvaluator := ⟨.ofScalars functions⟩

/-- An IRI that looks like the blank node `_:n`. -/
def reserved : Iri := ⟨Skolem.namespaceText ++ "n"⟩

/-- A name in a graph. -/
def named (s : Resource) (name : String) (graph : Option Resource) : Quad :=
  ⟨s, predicate, .literal (.plain name), graph⟩

def stored (quads : List Quad) : EvaluationContext := .ofStore (.standard default "") ⟨quads⟩

def select (p : Pattern) : Query := ⟨.select, p, none, none⟩

def text (t : String) : GroundTerm := .literal (.plain t)

/-- A table with one cell. -/
def cell (x : Variable) (t : GroundTerm) : Pattern := .values [x] [[some t]]

def names : Pattern := .bgp [⟨.var subject, .iri predicate, .var object⟩]

/-- A call that ignores the row. -/
def concatText (t : String) : Expr := .call (.custom concat) [.literal (.plain t)]

/-- The name in upper case and with an exclamation mark. -/
def shout : Expr :=
  .call (.custom concat) [.call (.builtIn .upper) [.var object], .literal (.plain "!")]

end Sample

end SparqlBind
