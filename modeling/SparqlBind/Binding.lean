import SparqlBind.Rdf.Term

/-!
# Bindings

A partial solution is a finite map from variables to terms that remembers the order in which its
variables came. Setting a variable keeps its place; a new one goes last. The functions are given
here; that variables stay distinct under them is a theorem and not part of the type.
-/

namespace SparqlBind

/-- A row as an evaluator reports it: every column, bound or not. -/
structure Solution where
  columns : List (Variable × Option Term)
deriving DecidableEq, Inhabited

namespace Solution

def bound (s : Solution) : List (Variable × Term) :=
  s.columns.filterMap fun c => c.2.map (c.1, ·)

def get? (s : Solution) (x : Variable) : Option Term :=
  (s.columns.find? fun c => c.1 = x).bind (·.2)

end Solution

structure Binding where
  entries : List (Variable × Term)
deriving DecidableEq, Inhabited

namespace Binding

def empty : Binding := ⟨[]⟩

def get? (b : Binding) (x : Variable) : Option Term := b.entries.lookup x

def contains (b : Binding) (x : Variable) : Bool := (b.get? x).isSome

def setEntries (x : Variable) (t : Term) : List (Variable × Term) → List (Variable × Term)
  | [] => [(x, t)]
  | e :: rest => if e.1 = x then (x, t) :: rest else e :: setEntries x t rest

/-- The binding with `x` set to `t`, in its old place or else last. -/
def set (b : Binding) (x : Variable) (t : Term) : Binding := ⟨setEntries x t b.entries⟩

def forget (b : Binding) (x : Variable) : Binding := ⟨b.entries.filter fun e => e.1 ≠ x⟩

def vars (b : Binding) : List Variable := b.entries.map (·.1)

def terms (b : Binding) : List Term := b.entries.map (·.2)

def size (b : Binding) : Nat := b.entries.length

def isEmpty (b : Binding) : Bool := b.entries.isEmpty

/-- Sets the pairs one after the other: the last term of a variable at its first place. -/
def ofList (entries : List (Variable × Term)) : Binding :=
  entries.foldl (fun b e => b.set e.1 e.2) empty

/-- Forgets the unbound columns of a row. -/
def ofSolution (s : Solution) : Binding := ofList s.bound

def mapTerms (f : Term → Term) (b : Binding) : Binding :=
  ofList (b.entries.map fun e => (e.1, f e.2))

/-- Two bindings are compatible when they give no variable two terms. -/
def compatible (left right : Binding) : Bool :=
  left.entries.all fun e =>
    match right.get? e.1 with
    | some other => other = e.2
    | none => true

/-- `left` with the entries of `right` set on top of it. -/
def merge (left right : Binding) : Binding :=
  right.entries.foldl (fun b e => b.set e.1 e.2) left

end Binding

end SparqlBind
