import SparqlBind.Sparql.Algebra

/-!
# Equality of expressions

Whether two expressions or patterns are the same tree, decided by walking both.
-/

namespace SparqlBind

mutual

def Expr.same : Expr → Expr → Bool
  | .constant a, .constant b => a == b
  | .var x, .var y => x == y
  | .binary o a b, .binary o' a' b' => o == o' && a.same a' && b.same b'
  | .unary o a, .unary o' a' => o == o' && a.same a'
  | .oneOf a as, .oneOf b bs => a.same b && Expr.allSame as bs
  | .existence p, .existence q => p.same q
  | .bound x, .bound y => x == y
  | .cond a b c, .cond a' b' c' => a.same a' && b.same b' && c.same c'
  | .coalesce as, .coalesce bs => Expr.allSame as bs
  | .call f as, .call g bs => f == g && Expr.allSame as bs
  | _, _ => false

def Expr.allSame : List Expr → List Expr → Bool
  | [], [] => true
  | a :: as, b :: bs => a.same b && Expr.allSame as bs
  | _, _ => false

def OrderKey.same : OrderKey → OrderKey → Bool
  | .ascending a, .ascending b => a.same b
  | .descending a, .descending b => a.same b
  | _, _ => false

def OrderKey.allSame : List OrderKey → List OrderKey → Bool
  | [], [] => true
  | a :: as, b :: bs => a.same b && OrderKey.allSame as bs
  | _, _ => false

def Aggregate.same : Aggregate → Aggregate → Bool
  | .countAll x d, .countAll y e => x == y && d == e
  | .apply x f d a, .apply y g e b => x == y && f == g && d == e && a.same b
  | _, _ => false

def Aggregate.allSame : List Aggregate → List Aggregate → Bool
  | [], [] => true
  | a :: as, b :: bs => a.same b && Aggregate.allSame as bs
  | _, _ => false

def Pattern.same : Pattern → Pattern → Bool
  | .bgp a, .bgp b => a == b
  | .path s p o, .path s' p' o' => s == s' && p == p' && o == o'
  | .join a b, .join a' b' => a.same a' && b.same b'
  | .leftJoin a b c, .leftJoin a' b' c' =>
    a.same a' && b.same b' &&
      match c, c' with
      | none, none => true
      | some e, some e' => e.same e'
      | _, _ => false
  | .lateral a b, .lateral a' b' => a.same a' && b.same b'
  | .filter e a, .filter e' a' => e.same e' && a.same a'
  | .union a b, .union a' b' => a.same a' && b.same b'
  | .graph n a, .graph n' a' => n == n' && a.same a'
  | .extend a x e, .extend a' x' e' => a.same a' && x == x' && e.same e'
  | .minus a b, .minus a' b' => a.same a' && b.same b'
  | .values xs rows, .values xs' rows' => xs == xs' && rows == rows'
  | .orderBy a ks, .orderBy a' ks' => a.same a' && OrderKey.allSame ks ks'
  | .project a xs, .project a' xs' => a.same a' && xs == xs'
  | .distinct a, .distinct a' => a.same a'
  | .reduced a, .reduced a' => a.same a'
  | .slice a s n, .slice a' s' n' => a.same a' && s == s' && n == n'
  | .group a ks gs, .group a' ks' gs' => a.same a' && ks == ks' && Aggregate.allSame gs gs'
  | .service n a s, .service n' a' s' => n == n' && a.same a' && s == s'
  | _, _ => false

end

end SparqlBind
