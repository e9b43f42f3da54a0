import SparqlBind.Xsd.Value

/-!
# Quad stores

A store is a set of quads, kept in the order of their insertion. Objects are kept with the canonical
text of their values, and inserting a quad that is there changes nothing.
-/

namespace SparqlBind

structure Store where
  quads : List Quad
deriving Inhabited

namespace Store

def empty : Store := ⟨[]⟩

def contains (s : Store) (q : Quad) : Bool := s.quads.contains q

def canonical (q : Quad) : Quad := { q with object := q.object.canonical }

def insert (s : Store) (q : Quad) : Store :=
  if s.contains (canonical q) then s else ⟨s.quads ++ [canonical q]⟩

def insertAll (s : Store) (quads : List Quad) : Store := quads.foldl insert s

/-- How many quads the store holds. -/
def size (s : Store) : Nat := s.quads.length

/-- The triples of one graph, the default one being `none`. -/
def graph (s : Store) (name : Option Resource) : List Triple :=
  (s.quads.filter fun q => q.graph = name).map Quad.triple

/-- The names of the graphs that hold a quad, each once. -/
def graphNames (s : Store) : List Resource :=
  (s.quads.filterMap (·.graph)).eraseDups

end Store

end SparqlBind
