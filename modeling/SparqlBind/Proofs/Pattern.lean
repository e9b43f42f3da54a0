import SparqlBind.Extension.BindExpression

/-!
# Patterns as trees

Induction on patterns alone, and the functions that the reachable `BIND`s of a pattern call. A
`BIND` is reachable when no `LATERAL`, `SERVICE` or expression stands between it and the root.
-/

namespace SparqlBind

namespace BindExpression

theorem toExpr_ofExpr (e : Expr) : (ofExpr e).toExpr = e := by
  unfold ofExpr
  split
  · split <;> rfl
  · rfl

theorem eq_of_ofExpr_builtIn {e e' : Expr} (h : ofExpr e = builtIn e') : e' = e := by
  have hback := toExpr_ofExpr e
  rwa [h] at hback

end BindExpression

namespace Pattern

/-- Induction on the operators of a pattern. Nothing is assumed of the patterns in expressions. -/
@[elab_as_elim, induction_eliminator]
theorem induction {motive : Pattern → Prop}
    (bgp : ∀ triples, motive (.bgp triples))
    (path : ∀ s p o, motive (.path s p o))
    (join : ∀ l r, motive l → motive r → motive (.join l r))
    (leftJoin : ∀ l r e, motive l → motive r → motive (.leftJoin l r e))
    (lateral : ∀ l r, motive l → motive r → motive (.lateral l r))
    (filter : ∀ e p, motive p → motive (.filter e p))
    (union : ∀ l r, motive l → motive r → motive (.union l r))
    (graph : ∀ name p, motive p → motive (.graph name p))
    (extend : ∀ p x e, motive p → motive (.extend p x e))
    (minus : ∀ l r, motive l → motive r → motive (.minus l r))
    (values : ∀ xs rows, motive (.values xs rows))
    (orderBy : ∀ p keys, motive p → motive (.orderBy p keys))
    (project : ∀ p xs, motive p → motive (.project p xs))
    (distinct : ∀ p, motive p → motive (.distinct p))
    (reduced : ∀ p, motive p → motive (.reduced p))
    (slice : ∀ p start length, motive p → motive (.slice p start length))
    (group : ∀ p keys aggregates, motive p → motive (.group p keys aggregates))
    (service : ∀ name p silent, motive p → motive (.service name p silent))
    (p : Pattern) : motive p := by
  refine @Pattern.rec (fun _ => True) (fun _ => True) (fun _ => True) motive (fun _ => True)
    (fun _ => True) (fun _ => True) (fun _ => True) ?_ ?_ ?_ ?_ ?_ ?_ ?_ ?_ ?_ ?_ ?_ ?_ ?_ ?_
    bgp path join (fun l r e ihl ihr _ => leftJoin l r e ihl ihr) lateral
    (fun e p _ ih => filter e p ih) union graph (fun p x e ih _ => extend p x e ih) minus values
    (fun p keys ih _ => orderBy p keys ih) project distinct reduced slice
    (fun p keys aggregates ih _ => group p keys aggregates ih) service
    ?_ ?_ ?_ ?_ ?_ ?_ ?_ ?_ p
  all_goals intros; trivial

/-- The IRIs that the reachable `BIND`s call, children before parents and left before right. -/
def extensionCalls : Pattern → List Iri
  | .join l r => l.extensionCalls ++ r.extensionCalls
  | .leftJoin l r _ => l.extensionCalls ++ r.extensionCalls
  | .filter _ p => p.extensionCalls
  | .union l r => l.extensionCalls ++ r.extensionCalls
  | .graph _ p => p.extensionCalls
  | .extend p _ e => p.extensionCalls ++ (BindExpression.ofExpr e).function?.toList
  | .minus l r => l.extensionCalls ++ r.extensionCalls
  | .orderBy p _ => p.extensionCalls
  | .project p _ => p.extensionCalls
  | .distinct p => p.extensionCalls
  | .reduced p => p.extensionCalls
  | .slice p _ _ => p.extensionCalls
  | .group p _ _ => p.extensionCalls
  | .bgp _ => []
  | .path .. => []
  | .values .. => []
  | .lateral .. => []
  | .service .. => []

end Pattern

end SparqlBind
