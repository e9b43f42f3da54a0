import SparqlBind.Proofs.Scalars
import SparqlBind.Proofs.Semantics.Basic

/-!
# The reference evaluation

The rows of a pattern in which a `BIND` may call a scalar function, computed from the rows of its
parts. A call without a value on some row fails the evaluation, as does a function that is not
registered; so does a built-in expression with an error on some row, unless it only copies a
variable. Below it stand the conditions under which presenting blank nodes as IRIs does not show.
-/

noncomputable section

open scoped Classical

namespace SparqlBind

namespace Semantics

/-- Where a pattern is evaluated: the rows of its leaves, and columns that no projection drops. -/
structure Setting where
  leaf : Pattern → Bag
  kept : List Variable

variable (sem : Semantics)

def inGraph (graph : Option Term) : Setting := ⟨sem.rows graph, []⟩

/-- All graphs of a name at once: each leaf is put into them, and projections keep the name. -/
def under (name : Option NamePattern) : Setting :=
  ⟨fun p => sem.rows none (Inlined.inGraph name p), Pattern.graphVariables name⟩

def arguments? (arguments : List Expr) (μ : Mapping) : Option (List Term) :=
  arguments.mapM fun e => sem.value e μ

variable (functions : ScalarFunctions)

/-- A `BIND` on the rows of its child. -/
def bind? (x : Variable) (A : Bag) : BindExpression → Option Bag
  | .functionCall f arguments => (functions.lookup f.text).bind fun f =>
    A.extend? x fun μ => (sem.arguments? arguments μ).bind f.result?
  | .builtIn e => if e.isVar then some (A.extend x (sem.value e)) else A.extend? x (sem.value e)

def reference (s : Setting) : Pattern → Option Bag
  | .join l r => (reference s l).bind fun A => (reference s r).bind fun B => some (A.join B)
  | .leftJoin l r e => (reference s l).bind fun A => (reference s r).bind fun B =>
    some (A.leftJoin (sem.condition e) B)
  | .minus l r => (reference s l).bind fun A => (reference s r).bind fun B => some (A.minus B)
  | .union l r => (reference s l).bind fun A => (reference s r).bind fun B => some (A + B)
  | .filter e p => (reference s p).bind fun A => some (A.select (sem.holds e))
  | .extend p x e => (reference s p).bind fun A =>
    sem.bind? functions x A (BindExpression.ofExpr e)
  | .orderBy p _ => reference s p
  | .project p xs => (reference s p).bind fun A => some (A.project (xs ++ s.kept))
  | .distinct p => (reference s p).bind fun A => some A.distinct
  | .group p keys aggregates =>
    (reference s p).bind fun A => some (A.group keys (sem.summarize aggregates))
  | p => some (s.leaf p)

/-- The reference evaluation of a pattern in a graph. -/
def evaluate (graph : Option Term) (p : Pattern) : Option Bag :=
  sem.reference functions (sem.inGraph graph) p

/-! ## Patterns with a reference evaluation -/

/-- The patterns that are inlined operator by operator. In row-wise ones no operator looks at several
rows of a part at once, but for `DISTINCT`. A built-in `BIND` has a target that is not in scope. -/
inductive Inlinable (rowWise : Bool) : Pattern → Prop
  | bgp (triples : List TriplePattern) : Inlinable rowWise (.bgp triples)
  | path (s : TermPattern) (p : PropertyPath) (o : TermPattern) : Inlinable rowWise (.path s p o)
  | values (xs : List Variable) (table : List (List (Option GroundTerm))) :
      Inlinable rowWise (.values xs table)
  | join {l r : Pattern} : Inlinable rowWise l → Inlinable rowWise r →
      Inlinable rowWise (.join l r)
  | leftJoin {l r : Pattern} {e : Option Expr} : e.all (·.isPlain sem.known) = true →
      Inlinable rowWise l → Inlinable rowWise r → Inlinable rowWise (.leftJoin l r e)
  | union {l r : Pattern} : Inlinable rowWise l → Inlinable rowWise r →
      Inlinable rowWise (.union l r)
  | filter {e : Expr} {p : Pattern} : e.isPlain sem.known = true → Inlinable rowWise p →
      Inlinable rowWise (.filter e p)
  | call {p : Pattern} {x : Variable} {e : Expr} {f : Iri} {arguments : List Expr} :
      BindExpression.ofExpr e = .functionCall f arguments →
      (∀ a ∈ arguments, a.isPlain sem.known = true) → Inlinable rowWise p →
      Inlinable rowWise (.extend p x e)
  | builtIn {p : Pattern} {x : Variable} {e : Expr} : BindExpression.ofExpr e = .builtIn e →
      e.isPlain sem.known = true → (e.isVar = false → x ∉ p.mentions) → Inlinable rowWise p →
      Inlinable rowWise (.extend p x e)
  | project {p : Pattern} (xs : List Variable) : Inlinable rowWise p →
      Inlinable rowWise (.project p xs)
  | distinct {p : Pattern} : Inlinable rowWise p → Inlinable rowWise (.distinct p)
  | minus {l r : Pattern} : rowWise = false → Inlinable rowWise l → Inlinable rowWise r →
      Inlinable rowWise (.minus l r)
  | orderBy {p : Pattern} {keys : List OrderKey} : rowWise = false →
      keys.all (·.expr.isPlain sem.known) = true → Inlinable rowWise p →
      Inlinable rowWise (.orderBy p keys)
  | group {p : Pattern} {keys : List Variable} {aggregates : List Aggregate} : rowWise = false →
      aggregates.all (·.isPlain sem.known) = true → Inlinable rowWise p →
      Inlinable rowWise (.group p keys aggregates)

variable {sem functions}

theorem Inlinable.of_child {rowWise : Bool} {p q : Pattern} (h : sem.Inlinable rowWise p)
    (hq : q ∈ p.children) : sem.Inlinable rowWise q := by
  have pair {l r : Pattern} (hl : sem.Inlinable rowWise l) (hr : sem.Inlinable rowWise r)
      (hq : q ∈ [l, r]) : sem.Inlinable rowWise q := by
    rcases List.mem_cons.mp hq with rfl | hq
    · exact hl
    · exact List.mem_singleton.mp hq ▸ hr
  cases h with
  | join hl hr => exact pair hl hr hq
  | leftJoin _ hl hr => exact pair hl hr hq
  | union hl hr => exact pair hl hr hq
  | minus _ hl hr => exact pair hl hr hq
  | filter _ hp => exact List.mem_singleton.mp hq ▸ hp
  | call _ _ hp => exact List.mem_singleton.mp hq ▸ hp
  | builtIn _ _ _ hp => exact List.mem_singleton.mp hq ▸ hp
  | project _ hp => exact List.mem_singleton.mp hq ▸ hp
  | distinct hp => exact List.mem_singleton.mp hq ▸ hp
  | orderBy _ _ hp => exact List.mem_singleton.mp hq ▸ hp
  | group _ _ hp => exact List.mem_singleton.mp hq ▸ hp
  | bgp triples => exact absurd hq List.not_mem_nil
  | path s p o => exact absurd hq List.not_mem_nil
  | values xs table => exact absurd hq List.not_mem_nil

theorem Inlinable.of_part {rowWise : Bool} {p q : Pattern} (h : sem.Inlinable rowWise p)
    (hq : p.Part q) : sem.Inlinable rowWise q := by
  induction hq with
  | refl => exact h
  | step _ hr ih => exact ih.of_child hr

/-- Without calls such a pattern can be left to an evaluator. -/
theorem Inlinable.isPlain {rowWise : Bool} {p : Pattern} (h : sem.Inlinable rowWise p)
    (hcalls : p.extensionCalls = []) : p.isPlain sem.known = true := by
  induction h with
  | bgp triples => rfl
  | path s p o => rfl
  | values xs table => rfl
  | join _ _ ihl ihr =>
    obtain ⟨hl, hr⟩ := List.append_eq_nil_iff.mp hcalls
    simp [Pattern.isPlain, ihl hl, ihr hr]
  | leftJoin he _ _ ihl ihr =>
    obtain ⟨hl, hr⟩ := List.append_eq_nil_iff.mp hcalls
    simp [Pattern.isPlain, ihl hl, ihr hr, he]
  | union _ _ ihl ihr =>
    obtain ⟨hl, hr⟩ := List.append_eq_nil_iff.mp hcalls
    simp [Pattern.isPlain, ihl hl, ihr hr]
  | filter he _ ih => simp [Pattern.isPlain, he, ih hcalls]
  | call he _ _ ih =>
    simp [Pattern.extensionCalls, he, BindExpression.function?] at hcalls
  | builtIn he hplain _ _ ih =>
    obtain ⟨hp, _⟩ := List.append_eq_nil_iff.mp hcalls
    simp [Pattern.isPlain, hplain, ih hp]
  | project xs _ ih => exact ih hcalls
  | distinct _ ih => exact ih hcalls
  | minus _ _ _ ihl ihr =>
    obtain ⟨hl, hr⟩ := List.append_eq_nil_iff.mp hcalls
    simp [Pattern.isPlain, ihl hl, ihr hr]
  | orderBy _ hkeys _ ih => simp only [Pattern.isPlain, hkeys, ih hcalls, Bool.and_self]
  | group _ ha _ ih => simp only [Pattern.isPlain, ha, ih hcalls, Bool.and_self]

/-! ## What the evaluation says of its result -/

theorem arguments?_congr {arguments : List Expr} {μ ν : Mapping}
    (h : ∀ a ∈ arguments, sem.value a μ = sem.value a ν) :
    sem.arguments? arguments μ = sem.arguments? arguments ν := by
  unfold arguments?
  induction arguments with
  | nil => rfl
  | cons a rest ih =>
    rw [List.mapM_cons, List.mapM_cons, h a List.mem_cons_self,
      ih fun b hb => h b (List.mem_cons_of_mem _ hb)]

/-- A `BIND` that succeeds extends every row. -/
theorem eq_extend_of_bind? {x : Variable} {A B : Bag} {e : BindExpression}
    (h : sem.bind? functions x A e = some B) : ∃ f, B = A.extend x f := by
  cases e with
  | functionCall f arguments =>
    obtain ⟨f, _, h⟩ := Option.bind_eq_some_iff.mp h
    exact ⟨_, (Bag.extend?_eq_some_iff.mp h).2⟩
  | builtIn e =>
    rw [bind?] at h
    split at h
    · exact ⟨_, (Option.some.inj h).symm⟩
    · exact ⟨_, (Bag.extend?_eq_some_iff.mp h).2⟩

theorem bind?_builtIn (x : Variable) (A : Bag) (e : Expr) :
    sem.bind? functions x A (.builtIn e) =
      if e.isVar then some (A.extend x (sem.value e)) else A.extend? x (sem.value e) := rfl

theorem bind?_call_singleton {x : Variable} {μ : Mapping} {i : Iri} {arguments : List Expr}
    {f : ScalarFunction} {t : Term} (hf : functions.lookup i.text = some f)
    (ht : (sem.arguments? arguments μ).bind f.result? = some t) :
    sem.bind? functions x {μ} (.functionCall i arguments) = some {μ.set x t} := by
  rw [bind?, hf, Option.bind_some]
  exact Bag.extend?_singleton ht

theorem bind?_call_eq_none {x : Variable} {A : Bag} {μ : Mapping} {i : Iri}
    {arguments : List Expr} {f : ScalarFunction} (hf : functions.lookup i.text = some f)
    (hμ : μ ∈ A) (h : (sem.arguments? arguments μ).bind f.result? = none) :
    sem.bind? functions x A (.functionCall i arguments) = none := by
  rw [bind?, hf, Option.bind_some]
  exact Bag.extend?_eq_none hμ h

theorem eq_extend_of_bind?_builtIn {x : Variable} {A B : Bag} {e : Expr}
    (h : sem.bind? functions x A (.builtIn e) = some B) : B = A.extend x (sem.value e) := by
  rw [bind?] at h
  split at h
  · exact (Option.some.inj h).symm
  · exact (Bag.extend?_eq_some_iff.mp h).2

theorem exists_of_bind {a : Option Bag} {F : Bag → Bag} {C : Bag}
    (h : (a.bind fun A => some (F A)) = some C) : ∃ A, a = some A ∧ F A = C := by
  obtain ⟨A, hA, h⟩ := Option.bind_eq_some_iff.mp h
  exact ⟨A, hA, Option.some.inj h⟩

theorem exists_of_bind₂ {a b : Option Bag} {F : Bag → Bag → Bag} {C : Bag}
    (h : (a.bind fun A => b.bind fun B => some (F A B)) = some C) :
    ∃ A B, a = some A ∧ b = some B ∧ F A B = C := by
  obtain ⟨A, hA, h⟩ := Option.bind_eq_some_iff.mp h
  obtain ⟨B, hB, h⟩ := exists_of_bind h
  exact ⟨A, B, hA, hB, h⟩

/-- Where no function is called a reference evaluation gives the rows of the pattern. -/
theorem rows_eq_of_evaluate {graph : Option Term} {p : Pattern} {A : Bag}
    (hcalls : p.extensionCalls = []) (h : sem.evaluate functions graph p = some A) :
    A = sem.rows graph p := by
  induction p generalizing A with
  | join l r ihl ihr =>
    obtain ⟨hl, hr⟩ := List.append_eq_nil_iff.mp hcalls
    obtain ⟨B, C, hB, hC, rfl⟩ := exists_of_bind₂ h
    rw [ihl hl hB, ihr hr hC, rows]
  | leftJoin l r e ihl ihr =>
    obtain ⟨hl, hr⟩ := List.append_eq_nil_iff.mp hcalls
    obtain ⟨B, C, hB, hC, rfl⟩ := exists_of_bind₂ h
    rw [ihl hl hB, ihr hr hC, rows]
  | minus l r ihl ihr =>
    obtain ⟨hl, hr⟩ := List.append_eq_nil_iff.mp hcalls
    obtain ⟨B, C, hB, hC, rfl⟩ := exists_of_bind₂ h
    rw [ihl hl hB, ihr hr hC, rows]
  | union l r ihl ihr =>
    obtain ⟨hl, hr⟩ := List.append_eq_nil_iff.mp hcalls
    obtain ⟨B, C, hB, hC, rfl⟩ := exists_of_bind₂ h
    rw [ihl hl hB, ihr hr hC, rows]
  | filter e p ih =>
    obtain ⟨B, hB, rfl⟩ := exists_of_bind h
    rw [ih hcalls hB, rows]
  | extend p x e ih =>
    obtain ⟨hp, he⟩ := List.append_eq_nil_iff.mp hcalls
    obtain ⟨B, hB, h⟩ := Option.bind_eq_some_iff.mp h
    cases hform : BindExpression.ofExpr e with
    | functionCall f arguments => simp [hform, BindExpression.function?] at he
    | builtIn e' =>
      obtain rfl := BindExpression.eq_of_ofExpr_builtIn hform
      rw [hform] at h
      rw [eq_extend_of_bind?_builtIn h, ih hp hB, rows]
  | orderBy p keys ih => exact ih hcalls h
  | project p xs ih =>
    obtain ⟨B, hB, rfl⟩ := exists_of_bind h
    rw [ih hcalls hB, rows, inGraph, List.append_nil]
  | distinct p ih =>
    obtain ⟨B, hB, rfl⟩ := exists_of_bind h
    rw [ih hcalls hB, rows]
  | group p keys aggregates ih =>
    obtain ⟨B, hB, rfl⟩ := exists_of_bind h
    rw [ih hcalls hB, rows]
  | bgp triples => exact (Option.some.inj h).symm
  | path s p o => exact (Option.some.inj h).symm
  | values xs table => exact (Option.some.inj h).symm
  | lateral l r ihl ihr => exact (Option.some.inj h).symm
  | graph name p ih => exact (Option.some.inj h).symm
  | reduced p ih => exact (Option.some.inj h).symm
  | slice p start length ih => exact (Option.some.inj h).symm
  | service name p silent ih => exact (Option.some.inj h).symm

/-- The leaves bind variables in scope and kept ones only. -/
def Setting.Scoped (s : Setting) : Prop :=
  ∀ p : Pattern, (s.leaf p).Within fun x => x ∈ p.mentions ∨ x ∈ s.kept

theorem scoped_inGraph (graph : Option Term) : (sem.inGraph graph).Scoped :=
  fun p => (sem.rows_within p graph).mono fun _ => .inl

theorem scoped_under (name : Option NamePattern) : (sem.under name).Scoped := by
  intro p
  refine (sem.rows_within (Inlined.inGraph name p) none).mono fun x hx => ?_
  cases name with
  | none => exact .inl hx
  | some n => exact (List.mem_append.mp hx).symm

/-- In a scoped setting the rows of every pattern bind variables in scope and kept ones only. -/
theorem Setting.Scoped.reference_within {s : Setting} (hs : s.Scoped) {p : Pattern} {A : Bag}
    (h : sem.reference functions s p = some A) :
    A.Within fun x => x ∈ p.mentions ∨ x ∈ s.kept := by
  induction p generalizing A with
  | join l r ihl ihr =>
    obtain ⟨B, C, hB, hC, rfl⟩ := exists_of_bind₂ h
    exact ((ihl hB).mono fun _ => Or.imp_left (List.mem_append_left _)).join
      ((ihr hC).mono fun _ => Or.imp_left (List.mem_append_right _))
  | leftJoin l r e ihl ihr =>
    obtain ⟨B, C, hB, hC, rfl⟩ := exists_of_bind₂ h
    exact ((ihl hB).mono fun _ => Or.imp_left (List.mem_append_left _)).leftJoin
      ((ihr hC).mono fun _ => Or.imp_left (List.mem_append_right _))
  | minus l r ihl ihr =>
    obtain ⟨B, C, hB, _, rfl⟩ := exists_of_bind₂ h
    exact (ihl hB).minus C
  | union l r ihl ihr =>
    obtain ⟨B, C, hB, hC, rfl⟩ := exists_of_bind₂ h
    exact ((ihl hB).mono fun _ => Or.imp_left (List.mem_append_left _)).add
      ((ihr hC).mono fun _ => Or.imp_left (List.mem_append_right _))
  | filter e p ih =>
    obtain ⟨B, hB, rfl⟩ := exists_of_bind h
    exact (ih hB).select
  | extend p x e ih =>
    obtain ⟨B, hB, h⟩ := Option.bind_eq_some_iff.mp h
    obtain ⟨f, rfl⟩ := eq_extend_of_bind? h
    exact ((ih hB).mono fun _ => Or.imp_left (List.mem_cons_of_mem _)).extend
      (.inl List.mem_cons_self) f
  | orderBy p keys ih => exact ih h
  | project p xs ih =>
    obtain ⟨B, _, rfl⟩ := exists_of_bind h
    exact (Bag.within_project _ B).mono fun _ => List.mem_append.mp
  | distinct p ih =>
    obtain ⟨B, hB, rfl⟩ := exists_of_bind h
    exact (ih hB).distinct
  | group p keys aggregates ih =>
    obtain ⟨B, _, rfl⟩ := exists_of_bind h
    refine Bag.within_group (fun A κ hκ => ?_) B
    exact (sem.summarize_within A hκ).mono fun _ => .inl
  | bgp triples => exact Option.some.inj h ▸ hs _
  | path s p o => exact Option.some.inj h ▸ hs _
  | values xs table => exact Option.some.inj h ▸ hs _
  | lateral l r ihl ihr => exact Option.some.inj h ▸ hs _
  | graph name p ih => exact Option.some.inj h ▸ hs _
  | reduced p ih => exact Option.some.inj h ▸ hs _
  | slice p start length ih => exact Option.some.inj h ▸ hs _
  | service name p silent ih => exact Option.some.inj h ▸ hs _

/-- An evaluation that succeeds has looked up all functions that are called. -/
theorem registered_of_reference {rowWise : Bool} {s : Setting} {p : Pattern} {A : Bag}
    (hp : sem.Inlinable rowWise p) (h : sem.reference functions s p = some A) :
    ∀ f ∈ p.extensionCalls, (functions.lookup f.text).isSome = true := by
  induction hp generalizing A with
  | bgp triples => simp [Pattern.extensionCalls]
  | path s p o => simp [Pattern.extensionCalls]
  | values xs table => simp [Pattern.extensionCalls]
  | join _ _ ihl ihr =>
    obtain ⟨B, C, hB, hC, _⟩ := exists_of_bind₂ h
    exact fun f hf => (List.mem_append.mp hf).elim (ihl hB f) (ihr hC f)
  | leftJoin _ _ _ ihl ihr =>
    obtain ⟨B, C, hB, hC, _⟩ := exists_of_bind₂ h
    exact fun f hf => (List.mem_append.mp hf).elim (ihl hB f) (ihr hC f)
  | union _ _ ihl ihr =>
    obtain ⟨B, C, hB, hC, _⟩ := exists_of_bind₂ h
    exact fun f hf => (List.mem_append.mp hf).elim (ihl hB f) (ihr hC f)
  | minus _ _ _ ihl ihr =>
    obtain ⟨B, C, hB, hC, _⟩ := exists_of_bind₂ h
    exact fun f hf => (List.mem_append.mp hf).elim (ihl hB f) (ihr hC f)
  | call he _ _ ih =>
    obtain ⟨B, hB, h⟩ := Option.bind_eq_some_iff.mp h
    rw [he] at h
    obtain ⟨g, hg, _⟩ := Option.bind_eq_some_iff.mp h
    intro f hf
    rcases List.mem_append.mp hf with hf | hf
    · exact ih hB f hf
    · simp only [he, BindExpression.function?, Option.toList_some, List.mem_singleton] at hf
      rw [hf, hg, Option.isSome_some]
  | builtIn he _ _ _ ih =>
    obtain ⟨B, hB, _⟩ := Option.bind_eq_some_iff.mp h
    intro f hf
    rcases List.mem_append.mp hf with hf | hf
    · exact ih hB f hf
    · simp [he, BindExpression.function?] at hf
  | filter _ _ ih => exact ih (exists_of_bind h).choose_spec.1
  | project _ _ ih => exact ih (exists_of_bind h).choose_spec.1
  | distinct _ ih => exact ih (exists_of_bind h).choose_spec.1
  | orderBy _ _ _ ih => exact ih h
  | group _ _ _ ih => exact ih (exists_of_bind h).choose_spec.1

end Semantics

end SparqlBind

end
