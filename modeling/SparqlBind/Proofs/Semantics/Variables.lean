import SparqlBind.Proofs.Binding
import SparqlBind.Proofs.Pattern

/-!
# Variables of expressions and patterns

All variables that occur in a pattern, in scope or not, and the expressions that an evaluator can be
expected to evaluate row by row: those without `EXISTS` and with no function it does not know.
-/

namespace SparqlBind

mutual

/-- The variables of an expression outside of `EXISTS`. -/
def Expr.vars : Expr → List Variable
  | .constant _ => []
  | .var x => [x]
  | .binary _ a b => a.vars ++ b.vars
  | .unary _ a => a.vars
  | .oneOf a candidates => a.vars ++ Expr.allVars candidates
  | .existence _ => []
  | .bound x => [x]
  | .cond c a b => c.vars ++ a.vars ++ b.vars
  | .coalesce arguments => Expr.allVars arguments
  | .call _ arguments => Expr.allVars arguments

def Expr.allVars : List Expr → List Variable
  | [] => []
  | e :: rest => e.vars ++ Expr.allVars rest

end

mutual

/-- No `EXISTS` and only functions with `known`. -/
def Expr.isPlain (known : Function → Bool) : Expr → Bool
  | .constant _ => true
  | .var _ => true
  | .binary _ a b => a.isPlain known && b.isPlain known
  | .unary _ a => a.isPlain known
  | .oneOf a candidates => a.isPlain known && Expr.arePlain known candidates
  | .existence _ => false
  | .bound _ => true
  | .cond c a b => c.isPlain known && a.isPlain known && b.isPlain known
  | .coalesce arguments => Expr.arePlain known arguments
  | .call f arguments => known f && Expr.arePlain known arguments

def Expr.arePlain (known : Function → Bool) : List Expr → Bool
  | [] => true
  | e :: rest => e.isPlain known && Expr.arePlain known rest

end

theorem Expr.mem_allVars {es : List Expr} {x : Variable} :
    x ∈ Expr.allVars es ↔ ∃ e ∈ es, x ∈ e.vars := by
  induction es with
  | nil => simp [Expr.allVars]
  | cons e rest ih => simp [Expr.allVars, ih]

/-- The variables of an argument are variables of the call. -/
theorem vars_of_argument {e a : Expr} {f : Iri} {arguments : List Expr} {x : Variable}
    (he : BindExpression.ofExpr e = .functionCall f arguments) (ha : a ∈ arguments)
    (hx : x ∈ a.vars) : x ∈ e.vars := by
  have hcall : (BindExpression.ofExpr e).toExpr = e := BindExpression.toExpr_ofExpr e
  rw [he] at hcall
  rw [← hcall]
  exact Expr.mem_allVars.mpr ⟨a, ha, hx⟩

namespace OrderKey

def expr : OrderKey → Expr
  | ascending e => e
  | descending e => e

end OrderKey

namespace Aggregate

def vars : Aggregate → List Variable
  | countAll x _ => [x]
  | apply x _ _ e => x :: e.vars

/-- Nothing depends on the order of the rows of a group. -/
def isPlain (known : Function → Bool) : Aggregate → Bool
  | countAll _ _ => true
  | apply _ .sample _ _ => false
  | apply _ (.groupConcat _) _ _ => false
  | apply _ _ _ e => e.isPlain known

end Aggregate

namespace Pattern

def vars : Pattern → List Variable
  | bgp triples => triples.flatMap TriplePattern.vars
  | path s _ o => s.vars ++ o.vars
  | join l r => l.vars ++ r.vars
  | leftJoin l r e => l.vars ++ r.vars ++ (e.map Expr.vars).getD []
  | lateral l r => l.vars ++ r.vars
  | filter e p => e.vars ++ p.vars
  | union l r => l.vars ++ r.vars
  | graph name p => name.vars ++ p.vars
  | extend p x e => x :: (e.vars ++ p.vars)
  | minus l r => l.vars ++ r.vars
  | values xs _ => xs
  | orderBy p keys => keys.flatMap (·.expr.vars) ++ p.vars
  | project p xs => xs ++ p.vars
  | distinct p => p.vars
  | reduced p => p.vars
  | slice p _ _ => p.vars
  | group p keys aggregates => keys ++ aggregates.flatMap Aggregate.vars ++ p.vars
  | service name p _ => name.vars ++ p.vars

theorem mem_vars_of_mentions {p : Pattern} {x : Variable} (h : x ∈ p.mentions) :
    x ∈ p.vars := by
  induction p with
  | bgp triples => exact h
  | path s p o => exact h
  | join l r ihl ihr => exact List.mem_append.mpr ((List.mem_append.mp h).imp ihl ihr)
  | leftJoin l r e ihl ihr =>
    exact List.mem_append_left _ (List.mem_append.mpr ((List.mem_append.mp h).imp ihl ihr))
  | lateral l r ihl ihr => exact List.mem_append.mpr ((List.mem_append.mp h).imp ihl ihr)
  | filter e p ih => exact List.mem_append_right _ (ih h)
  | union l r ihl ihr => exact List.mem_append.mpr ((List.mem_append.mp h).imp ihl ihr)
  | graph name p ih => exact List.mem_append.mpr ((List.mem_append.mp h).imp id ih)
  | extend p x e ih =>
    rcases List.mem_cons.mp h with rfl | h
    · exact List.mem_cons_self
    · exact List.mem_cons_of_mem _ (List.mem_append_right _ (ih h))
  | minus l r ihl ihr => exact List.mem_append_left _ (ihl h)
  | values xs rows => exact h
  | orderBy p keys ih => exact List.mem_append_right _ (ih h)
  | project p xs ih => exact List.mem_append_left _ h
  | distinct p ih => exact ih h
  | reduced p ih => exact ih h
  | slice p start length ih => exact ih h
  | group p keys aggregates ih =>
    refine List.mem_append_left _ (List.mem_append.mpr ((List.mem_append.mp h).imp id ?_))
    intro h
    obtain ⟨a, ha, rfl⟩ := List.mem_map.mp h
    refine List.mem_flatMap.mpr ⟨a, ha, ?_⟩
    cases a <;> exact List.mem_cons_self
  | service name p silent ih => exact List.mem_append_right _ (ih h)

/-! ## Parts -/

/-- What stands directly below an operator that is inlined, expressions apart. -/
def children : Pattern → List Pattern
  | join l r => [l, r]
  | leftJoin l r _ => [l, r]
  | union l r => [l, r]
  | minus l r => [l, r]
  | filter _ p => [p]
  | graph _ p => [p]
  | extend p _ _ => [p]
  | orderBy p _ => [p]
  | project p _ => [p]
  | distinct p => [p]
  | reduced p => [p]
  | slice p _ _ => [p]
  | group p _ _ => [p]
  | bgp _ => []
  | path .. => []
  | values .. => []
  | lateral .. => []
  | service .. => []

/-- The pattern itself and all that stands below its operators. -/
inductive Part : Pattern → Pattern → Prop
  | refl (p : Pattern) : Part p p
  | step {p q r : Pattern} : Part p q → r ∈ q.children → Part p r

theorem Part.of_child {p q r : Pattern} (hq : q ∈ p.children) (h : Part q r) : Part p r := by
  induction h with
  | refl => exact .step (.refl p) hq
  | step _ hr ih => exact .step ih hr

theorem Part.eq_or_child {p q : Pattern} (h : Part p q) :
    q = p ∨ ∃ r ∈ p.children, Part r q := by
  induction h with
  | refl => exact .inl rfl
  | @step q r _ hr ih =>
    rcases ih with rfl | ⟨p', hp', h⟩
    · exact .inr ⟨r, hr, .refl r⟩
    · exact .inr ⟨p', hp', .step h hr⟩

theorem Part.eq_of_leaf {p q : Pattern} (hp : p.children = []) (h : Part p q) : q = p := by
  refine h.eq_or_child.resolve_right ?_
  rintro ⟨c, hc, _⟩
  rw [hp] at hc
  exact List.not_mem_nil hc

/-- The parts of an operator on one pattern. -/
theorem Part.eq_or_part {p q r : Pattern} (hp : p.children = [q]) (h : Part p r) :
    r = p ∨ Part q r := by
  refine h.eq_or_child.imp id ?_
  rintro ⟨c, hc, h⟩
  rw [hp] at hc
  exact List.mem_singleton.mp hc ▸ h

theorem vars_of_child {p q : Pattern} (hq : q ∈ p.children) {x : Variable} (hx : x ∈ q.vars) :
    x ∈ p.vars := by
  have pair {l r : Pattern} (h : q ∈ [l, r]) : x ∈ l.vars ++ r.vars := by
    rcases List.mem_cons.mp h with rfl | h
    · exact List.mem_append_left _ hx
    · exact List.mem_append_right _ (List.mem_singleton.mp h ▸ hx)
  cases p with
  | join l r => exact pair hq
  | union l r => exact pair hq
  | minus l r => exact pair hq
  | leftJoin l r e => exact List.mem_append_left _ (pair hq)
  | distinct p => exact List.mem_singleton.mp hq ▸ hx
  | reduced p => exact List.mem_singleton.mp hq ▸ hx
  | slice p start length => exact List.mem_singleton.mp hq ▸ hx
  | filter e p => exact List.mem_append_right _ (List.mem_singleton.mp hq ▸ hx)
  | graph name p => exact List.mem_append_right _ (List.mem_singleton.mp hq ▸ hx)
  | orderBy p keys => exact List.mem_append_right _ (List.mem_singleton.mp hq ▸ hx)
  | project p xs => exact List.mem_append_right _ (List.mem_singleton.mp hq ▸ hx)
  | group p keys aggregates => exact List.mem_append_right _ (List.mem_singleton.mp hq ▸ hx)
  | extend p y e =>
    exact List.mem_cons_of_mem _ (List.mem_append_right _ (List.mem_singleton.mp hq ▸ hx))
  | bgp triples => exact absurd hq List.not_mem_nil
  | path s p o => exact absurd hq List.not_mem_nil
  | values xs rows => exact absurd hq List.not_mem_nil
  | lateral l r => exact absurd hq List.not_mem_nil
  | service name p silent => exact absurd hq List.not_mem_nil

/-- A variable of a part is a variable of the pattern. -/
theorem Part.vars {p q : Pattern} (h : Part p q) {x : Variable} (hx : x ∈ q.vars) : x ∈ p.vars := by
  induction h with
  | refl => exact hx
  | step _ hr ih => exact ih (vars_of_child hr hx)

end Pattern

end SparqlBind
