import SparqlBind.Text.CharClass

/-!
# Kinds of operation

The name of an algebra root becomes a label by putting a space between a word character and the
capital after it. Matches are found from the left and do not overlap, so the second character of a
match never starts another one. Four labels are kinds of query; any other label is kept as it is.
-/

namespace SparqlBind

/-- Separates each matched pair of a word character and a capital. -/
def separateCapitals : List Char → List Char
  | a :: b :: rest =>
    if CharClass.isWord a && CharClass.isCapital b then a :: ' ' :: b :: separateCapitals rest
    else a :: separateCapitals (b :: rest)
  | rest => rest

inductive OperationKind
  | select
  | construct
  | ask
  | describe
  | other (label : String)
deriving DecidableEq, Inhabited

namespace OperationKind

def ofLabel : String → OperationKind
  | "Select Query" => select
  | "Construct Query" => construct
  | "Ask Query" => ask
  | "Describe Query" => describe
  | label => other label

def ofAlgebraName (name : String) : OperationKind :=
  ofLabel (String.ofList (separateCapitals name.toList))

def label : OperationKind → String
  | select => "Select Query"
  | construct => "Construct Query"
  | ask => "Ask Query"
  | describe => "Describe Query"
  | other l => l

end OperationKind

end SparqlBind
