import SparqlBind.Evaluation.Arithmetic
import SparqlBind.Evaluation.Text
import SparqlBind.Sparql.Algebra

/-!
# Aggregates

What an aggregate makes of the values of its expression on the rows of a group, in their order, where
`none` stands for an error. Counting passes over errors; of the other aggregates only `SAMPLE` of a
first value survives one.
-/

namespace SparqlBind.AggregateFunction

def sum? (values : List Value) : Option Value := values.foldlM Value.add? (.integer 0)

def avg? (values : List Value) : Option Value :=
  if values.isEmpty then some (.integer 0)
  else (sum? values).bind fun total => total.divide? (.integer values.length)

/-- The first value that none of the others precedes. -/
def extreme? (before : Ordering) : List Value → Option Value
  | [] => none
  | v :: rest => some (rest.foldl (fun best w =>
      if Value.order (some w) (some best) = before then w else best) v)

def joinTexts (separator : String) (values : List Value) : Option Value := do
  let parts ← values.mapM Value.worded?
  let language := (parts.head?.map (·.2)).getD none
  let text := separator.intercalate (parts.map (·.1))
  pure (if parts.all (·.2 = language) then Value.ofWorded text language else .string text)

def sameValue (a b : Option Value) : Bool := a.map Value.toTerm == b.map Value.toTerm

/-- The values without those that are the same term as an earlier one. -/
def distinctValues : List (Option Value) → List (Option Value) → List (Option Value)
  | _, [] => []
  | seen, v :: rest =>
    if seen.any (sameValue v) then distinctValues seen rest
    else v :: distinctValues (v :: seen) rest

/-- Every value, unless one is missing. -/
def complete? (values : List (Option Value)) : Option (List Value) := values.mapM id

def apply (f : AggregateFunction) (distinct : Bool) (values : List (Option Value)) : Option Value :=
  let values := if distinct then distinctValues [] values else values
  match f with
  | count => some (.integer (values.filter Option.isSome).length)
  | sum => (complete? values).bind sum?
  | avg => (complete? values).bind avg?
  | min => (complete? values).bind (extreme? .lt)
  | max => (complete? values).bind (extreme? .gt)
  | sample => values.head?.join
  | groupConcat separator => (complete? values).bind (joinTexts (separator.getD " "))

end SparqlBind.AggregateFunction
