import SparqlBind.Proofs.Inlining.Presented
import SparqlBind.Proofs.Semantics.Forgetting

/-!
# A call added to a group

The pattern of a group is built around a part of it, layer by layer: the part is combined with
another one, or stands under a condition or a `BIND`. A call that is put on the part is carried
upwards through the layers. Each of them is then applied to evaluated rows, and when its expression
is the same on the rows as a table holds them, its rows are the rows without the call but for the
target. In a group that is inlined operator by operator every layer is of this kind.
-/

noncomputable section

open scoped Classical

namespace SparqlBind

/-- The operators that put two parts of a group together. -/
inductive Pairing
  | join
  | leftJoin (condition : Option Expr)
  | minus
  | union

namespace Pairing

def pattern : Pairing → Pattern → Pattern → Pattern
  | join => .join
  | leftJoin e => (.leftJoin · · e)
  | minus => .minus
  | union => .union

def exprs : Pairing → List Expr
  | leftJoin e => e.toList
  | _ => []

def rows (sem : Semantics) : Pairing → Bag → Bag → Bag
  | join, A, B => A.join B
  | leftJoin e, A, B => A.leftJoin (sem.condition e) B
  | minus, A, B => A.minus B
  | union, A, B => A + B

def tables (context : EvaluationContext) : Pairing → Table → Table → Evaluation Table
  | join, s, t => pure ⟨unionVariables s.vars t.vars, Join.join s.rows t.rows⟩
  | leftJoin e, s, t => do
    pure ⟨unionVariables s.vars t.vars, ← Join.leftJoin context s.rows t.rows e⟩
  | minus, s, t => pure ⟨s.vars, Join.minus s.rows t.rows⟩
  | union, s, t => pure ⟨unionVariables s.vars t.vars, s.rows ++ t.rows⟩

variable {context : EvaluationContext} {sem : Semantics} {functions : ScalarFunctions}
variable {op : Pairing} {l r : Pattern} {s t : Table} {A B : Bag} {x : Variable}

theorem inlinePattern_pattern (ev : ExtensionEvaluator) (name : Option NamePattern) :
    ev.inlinePattern context name (op.pattern l r) = (do
      let i ← ev.inlinePattern context name l
      let j ← ev.inlinePattern context name r
      Inlined.combine context name op.pattern (op.tables context) i j) := by
  cases op <;> rfl

theorem reference_pattern (setting : Semantics.Setting) :
    sem.reference functions setting (op.pattern l r) =
      (sem.reference functions setting l).bind fun A =>
        (sem.reference functions setting r).bind fun B => some (op.rows sem A B) := by
  cases op <;> rfl

theorem children_pattern : (op.pattern l r).children = [l, r] := by
  cases op <;> rfl

/-- The tables of two parts are put together like their rows. -/
theorem represents_tables (hd : context.deadline = none)
    (hevaluates : ∀ e ∈ op.exprs, context.Evaluates sem e)
    (hrow : ∀ e ∈ op.exprs, sem.Ignores Join.rowVariable e)
    (hinsensitive : ∀ e, op = leftJoin e → ∀ μ ∈ A, ∀ ν ∈ B, μ.Compatible ν →
      sem.condition e (μ.merge ν).presented = sem.condition e (μ.merge ν))
    (hs : s.Represents A) (ht : t.Represents B) :
    ∃ u, op.tables context s t = pure u ∧ u.Represents (op.rows sem A B) := by
  cases op with
  | join => exact ⟨_, rfl, hs.join ht⟩
  | minus => exact ⟨_, rfl, hs.minus ht⟩
  | union => exact ⟨_, rfl, hs.union ht⟩
  | leftJoin e =>
    obtain ⟨rows, hrows, hrep⟩ := hs.leftJoin hd
      (fun c hc => hevaluates c (Option.mem_toList.mpr hc))
      (fun c hc => hrow c (Option.mem_toList.mpr hc)) (hinsensitive e rfl) ht
    exact ⟨_, by rw [tables, hrows, pure_bind], hrep⟩

theorem forget_rows (hignores : ∀ e ∈ op.exprs, sem.Ignores x e) (h : Bag.Apart x A B) :
    (op.rows sem A B).forget x = op.rows sem (A.forget x) (B.forget x) := by
  cases op with
  | join => exact Bag.forget_join h
  | minus => exact Bag.forget_minus h
  | union => exact Bag.forget_add A B
  | leftJoin e =>
    exact Bag.forget_leftJoin h fun μ =>
      Semantics.condition_forget (fun c hc => hignores c (Option.mem_toList.mpr hc)) μ

end Pairing

/-! ## Layers -/

/-- What stands directly around a part of a group. -/
inductive Layer
  | left (op : Pairing) (r : Pattern)
  | right (op : Pairing) (l : Pattern)
  | filter (e : Expr)
  | extend (y : Variable) (e : Expr)

namespace Layer

def around : Layer → Pattern → Pattern
  | left op r, p => op.pattern p r
  | right op l, p => op.pattern l p
  | filter e, p => .filter e p
  | extend y e, p => .extend p y e

/-- The part beside. -/
def aside : Layer → List Pattern
  | left _ r => [r]
  | right _ l => [l]
  | _ => []

/-- The expressions that have a value on rows. -/
def exprs : Layer → List Expr
  | left op _ => op.exprs
  | right op _ => op.exprs
  | filter e => [e]
  | extend _ e => (BindExpression.ofExpr e).exprs

/-- The first layer is the outermost. -/
def wrap (layers : List Layer) (p : Pattern) : Pattern := layers.foldr around p

theorem mem_children (layer : Layer) (p : Pattern) : p ∈ (layer.around p).children := by
  cases layer with
  | left op r => simp [around, Pairing.children_pattern]
  | right op l => simp [around, Pairing.children_pattern]
  | filter e => exact List.mem_cons_self
  | extend y e => exact List.mem_cons_self

end Layer

/-- The part is evaluated to a table with the rows of the bag, but for the variable. -/
def Inlined.Carries (x : Variable) (i : Inlined) (A : Bag) : Prop :=
  ∃ (t : Table) (B : Bag), i = .solutions t ∧ t.Represents B ∧ B.forget x = A

/-- The part has rows in the reference evaluation, and is evaluated to a table of them. -/
def Evaluated (functions : ScalarFunctions) (context : EvaluationContext) (sem : Semantics)
    (name : Option NamePattern) (p : Pattern) : Prop :=
  ∃ (t : Table) (A : Bag), sem.reference functions (sem.under name) p = some A ∧
    (ExtensionEvaluator.mk (.ofScalars functions)).evaluatePattern context name p = pure t ∧
    t.Represents A

/-- A pattern that is inlined operator by operator is evaluated to its rows. -/
theorem evaluated_of_inlinable {context : EvaluationContext} {sem : Semantics}
    {functions : ScalarFunctions} {name : Option NamePattern} {rowWise : Bool} {p : Pattern} {A : Bag}
    (hf : context.Follows sem) (hd : context.deadline = none) (hname : rowWise = true ∨ name = none)
    (hp : sem.Inlinable rowWise p) (hs : sem.Suitable functions name p)
    (hA : sem.reference functions (sem.under name) p = some A) (hfree : A.Unreserved) :
    Evaluated functions context sem name p := by
  have hagrees := @ExtensionEvaluator.agrees_inlinePattern _ _ functions _ _ hf hd hname _ hp hs
  rw [hA] at hagrees
  obtain ⟨i, hi, hrep⟩ := hagrees
  obtain ⟨t, ht, htA⟩ := hrep.evaluate hf hd hname hp hs hfree hA
  refine ⟨t, A, hA, ?_, htA⟩
  rw [ExtensionEvaluator.evaluatePattern, hi, pure_bind, ht]

/-- The layer may stand around a part with a call for the variable: it makes no use of the variable,
and its expressions do not show that rows have IRIs for their blank nodes. -/
structure Layer.Fits (functions : ScalarFunctions) (context : EvaluationContext) (sem : Semantics)
    (name : Option NamePattern) (x : Variable) (layer : Layer) (p : Pattern) : Prop where
  aside : ∀ r ∈ layer.aside, Evaluated functions context sem name r
  unreserved : ∀ q ∈ (layer.around p).children, ∀ μ,
    sem.RowOf functions (sem.under name) q μ → μ.Unreserved
  insensitive : sem.Insensitive functions (sem.under name) (layer.around p)
  evaluates : ∀ e ∈ layer.exprs, context.Evaluates sem e
  ignores : ∀ e ∈ layer.exprs, sem.Ignores x e
  ignoresRow : ∀ e ∈ layer.exprs, sem.Ignores Join.rowVariable e
  target : ∀ y e, layer = .extend y e → BindExpression.ofExpr e = .builtIn e → e.isVar = false →
    y ∉ p.mentions ∧ y ∉ Pattern.graphVariables name

/-- Each layer fits around the part inside it. -/
def Layer.AllFit (functions : ScalarFunctions) (context : EvaluationContext) (sem : Semantics)
    (name : Option NamePattern) (x : Variable) : List Layer → Pattern → Prop
  | [], _ => True
  | layer :: rest, p => layer.Fits functions context sem name x (wrap rest p) ∧
    AllFit functions context sem name x rest p

/-- The variables that the evaluation and the call need for themselves. -/
structure Spared (name : Option NamePattern) (x : Variable) (p : Pattern) : Prop where
  target : x ∉ p.vars
  targetNamed : x ∉ Pattern.graphVariables name
  valueFree : EvaluationContext.valueVariable ∉ p.vars
  valueNamed : EvaluationContext.valueVariable ∉ Pattern.graphVariables name
  value : EvaluationContext.valueVariable ≠ x

namespace Spared

variable {sem : Semantics} {functions : ScalarFunctions} {name : Option NamePattern}
variable {x : Variable} {p q : Pattern} {A : Bag} {μ : Mapping}

theorem of_child (h : Spared name x p) (hq : q ∈ p.children) : Spared name x q :=
  ⟨fun hx => h.target (Pattern.vars_of_child hq hx), h.targetNamed,
    fun hx => h.valueFree (Pattern.vars_of_child hq hx), h.valueNamed, h.value⟩

theorem unbound {y : Variable} (hy : y ∉ p.mentions) (hname : y ∉ Pattern.graphVariables name)
    (hA : sem.reference functions (sem.under name) p = some A) (hμ : μ ∈ A) : μ y = none := by
  by_contra hne
  exact ((Semantics.scoped_under name).reference_within hA μ hμ y hne).elim hy hname

theorem call_unbound (h : Spared name x p)
    (hA : sem.reference functions (sem.under name) p = some A) : ∀ μ ∈ A, μ x = none :=
  fun _ => unbound (mt Pattern.mem_vars_of_mentions h.target) h.targetNamed hA

theorem value_unbound (h : Spared name x p)
    (hA : sem.reference functions (sem.under name) p = some A) :
    ∀ μ ∈ A, μ EvaluationContext.valueVariable = none :=
  fun _ => unbound (mt Pattern.mem_vars_of_mentions h.valueFree) h.valueNamed hA

end Spared

section Forgotten
variable {sem : Semantics} {x y : Variable} {e : Expr} {μ : Mapping} {A B : Bag}

theorem Semantics.Ignores.value_presented (h : sem.Ignores x e)
    (hforget : (sem.value e (μ.forget x).presented).map Skolem.decode =
      sem.value e (μ.forget x)) :
    (sem.value e μ.presented).map Skolem.decode = sem.value e μ := by
  rw [← h.value_forget, ← h.value_forget μ, ← hforget, Mapping.presented_forget]

theorem Semantics.condition_presented {c : Option Expr} (h : ∀ e ∈ c, sem.Ignores x e)
    (hforget : sem.condition c (μ.forget x).presented = sem.condition c (μ.forget x)) :
    sem.condition c μ.presented = sem.condition c μ := by
  rw [← Semantics.condition_forget h, ← Semantics.condition_forget h μ, ← hforget,
    Mapping.presented_forget]

end Forgotten

section Steps
variable {context : EvaluationContext} {sem : Semantics} {functions : ScalarFunctions}
variable {name : Option NamePattern} {x : Variable} {A B C : Bag} {t : Table}
variable (hd : context.deadline = none)
include hd

/-- Two parts, of which one has the call. -/
theorem Pairing.agrees_combine {op : Pairing} {i j : Inlined} {s t : Table}
    (hevaluates : ∀ e ∈ op.exprs, context.Evaluates sem e)
    (hrow : ∀ e ∈ op.exprs, sem.Ignores Join.rowVariable e)
    (hignores : ∀ e ∈ op.exprs, sem.Ignores x e)
    (hinsensitive : ∀ e, op = leftJoin e → ∀ μ ∈ B.forget x, ∀ ν ∈ C.forget x, μ.Compatible ν →
      sem.condition e (μ.merge ν).presented = sem.condition e (μ.merge ν))
    (hapart : Bag.Apart x B C) (htable : (∃ t, i = .solutions t) ∨ ∃ t, j = .solutions t)
    (hi : i.evaluate context name = pure s) (hj : j.evaluate context name = pure t)
    (hs : s.Represents B) (ht : t.Represents C) :
    Evaluation.Agrees (Inlined.combine context name op.pattern (op.tables context) i j)
      (some (op.rows sem (B.forget x) (C.forget x))) (Inlined.Carries x) := by
  have hrows : ∀ e, op = leftJoin e → ∀ μ ∈ B, ∀ ν ∈ C, μ.Compatible ν →
      sem.condition e (μ.merge ν).presented = sem.condition e (μ.merge ν) := by
    rintro e rfl μ hμ ν hν hc
    refine Semantics.condition_presented (fun c hc => hignores c (Option.mem_toList.mpr hc)) ?_
    rw [Mapping.forget_merge]
    exact hinsensitive e rfl _ (Multiset.mem_map_of_mem _ hμ) _ (Multiset.mem_map_of_mem _ hν)
      ((Mapping.compatible_forget (hapart μ hμ ν hν)).mpr hc)
  obtain ⟨u, hu, hrep⟩ := represents_tables hd hevaluates hrow hrows hs ht
  rw [Inlined.combine_eq htable, hi, pure_bind, hj, pure_bind, hu, pure_bind]
  exact Evaluation.agrees_pure ⟨u, _, rfl, hrep, forget_rows hignores hapart⟩

theorem Table.Represents.filter_carries {e : Expr} (he : context.Evaluates sem e)
    (hignores : sem.Ignores x e) (hfree : (B.forget x).Unreserved)
    (hinsensitive : ∀ μ ∈ B.forget x, sem.holds e μ.presented = sem.holds e μ)
    (ht : t.Represents B) :
    ∃ i, (Inlined.solutions t).apply context (.filter e) = pure i ∧
      i.Carries x ((B.forget x).select (sem.holds e)) := by
  obtain ⟨rows, hrows, hrep⟩ := EvaluationContext.rows_operator hd ht.covers (he _ (.filter t))
    (F := fun C => C.select (sem.holds e)) rfl
  rw [ht.rows] at hrep
  refine ⟨.solutions ⟨(Pattern.filter e t.toPattern).inScope, rows⟩, ?_, _, _, rfl, hrep, ?_⟩
  · rw [Inlined.apply, hrows, pure_bind]
  · rw [Bag.forget_decoded, Bag.forget_select fun μ _ => hignores.holds_forget μ,
      Bag.forget_presented, Bag.select_presented hfree hinsensitive]

theorem Table.Represents.extendBuiltIn_carries {y : Variable} {e : Expr} (hy : y ≠ x)
    (he : context.Evaluates sem e) (hignores : sem.Ignores x e) (hfree : (B.forget x).Unreserved)
    (hinsensitive : ∀ μ ∈ B.forget x,
      (sem.value e μ.presented).map Skolem.decode = sem.value e μ)
    (hunbound : e.isVar = false → ∀ μ ∈ B.forget x, μ y = none) (ht : t.Represents B) :
    Evaluation.Agrees ((Inlined.solutions t).extendBuiltIn context name y e)
      (sem.bind? functions y (B.forget x) (.builtIn e)) (Inlined.Carries x) := by
  -- the call may give a reserved IRI, which is read as a blank node now: its column is left out
  have hforget : Bag.forget x (B.presented.extend y (sem.value e)).decoded =
      (B.forget x).extend y (sem.value e) := by
    rw [Bag.forget_decoded, Bag.forget_extend hy fun μ _ => hignores.value_forget μ,
      Bag.forget_presented, Bag.extend_presented_eq hfree, Bag.extend_congr hinsensitive]
  have hbind : sem.bind? functions y (B.forget x) (.builtIn e) =
      (if e.isVar then some (B.presented.extend y (sem.value e)).decoded
        else (B.presented.extend y (sem.value e)).decoded.binding? y).bind
          fun D => some (D.forget x) := by
    rw [Semantics.bind?_builtIn]
    cases hvar : e.isVar with
    | true => simp [hforget]
    | false =>
      rw [if_neg Bool.false_ne_true, if_neg Bool.false_ne_true,
        Bag.extend?_eq_binding? (hunbound hvar), ← hforget, ← Bag.forget_binding? hy,
        Option.map_eq_bind]
      rfl
  rw [hbind]
  refine (ht.extendBuiltIn_decoded hd he rfl).bind_some ?_
  rintro i D ⟨u, rfl, hu⟩
  exact ⟨u, D, rfl, hu, rfl⟩

theorem Table.Represents.call_carries {p : Pattern} {y : Variable} {f : Iri}
    {arguments : List Expr} (hy : y ≠ x) (hevaluates : ∀ a ∈ arguments, context.Evaluates sem a)
    (hignores : ∀ a ∈ arguments, sem.Ignores x a)
    (hinsensitive : ∀ μ ∈ B.forget x, ∀ a ∈ arguments, Semantics.isDirect a = false →
      (sem.value a μ.presented).map Skolem.decode = sem.value a μ)
    (hvalue : EvaluationContext.valueVariable ≠ x)
    (hunbound : ∀ μ ∈ B.forget x, μ EvaluationContext.valueVariable = none)
    (ht : t.Represents B) :
    Evaluation.Agrees
      ((ExtensionEvaluator.mk (.ofScalars functions)).callFunction context name
        ⟨p, y, .functionCall f arguments⟩ (.solutions t))
      (sem.bind? functions y (B.forget x) (.functionCall f arguments)) (Inlined.Carries x) := by
  have hcallable : ∀ b ∈ t.rows, ScalarFunction.Callable context sem arguments b := by
    intro b hb
    have hrow : b.mapping.forget x ∈ B.forget x :=
      Multiset.mem_map_of_mem _ (ht.rows ▸ Bag.mem_ofRows.mpr ⟨b, hb, rfl⟩)
    have hfree : b.mapping EvaluationContext.valueVariable = none := by
      have hnone := hunbound _ hrow
      rwa [Mapping.forget_apply, if_neg hvalue] at hnone
    exact ⟨ht.distinctVars b hb, hfree, fun a ha _ => hevaluates a ha, fun a ha hdirect =>
      (hignores a ha).value_presented (hinsensitive _ hrow a ha hdirect)⟩
  have hcall := ExtensionEvaluator.agrees_bind? hd functions (p := p) (x := y) (i := f) hcallable
  rw [ht.rows] at hcall
  rw [← Semantics.forget_bind? (b := .functionCall f arguments) hy hignores]
  have hresult : Evaluation.Agrees
      ((ExtensionEvaluator.mk (.ofScalars functions)).callFunction context name
        ⟨p, y, .functionCall f arguments⟩ (.solutions t))
      (sem.bind? functions y B (.functionCall f arguments))
      fun i D => ∃ u, i = .solutions u ∧ u.Represents D := by
    refine hcall.map ?_
    rintro rows D _ ⟨hbag, hdistinct⟩
    exact ⟨_, rfl, ht.called y hbag hdistinct⟩
  refine Evaluation.Agrees.bind_some hresult ?_
  rintro i D ⟨u, rfl, hu⟩
  exact ⟨u, D, rfl, hu, rfl⟩

theorem Layer.Fits.agrees_extend {p p' : Pattern} {y : Variable} {e : Expr}
    (h : Layer.Fits functions context sem name x (.extend y e) p)
    (hspared : Spared name x (.extend p y e))
    (hp : Evaluation.Agrees
      ((ExtensionEvaluator.mk (.ofScalars functions)).inlinePattern context name p')
      (sem.reference functions (sem.under name) p) (Inlined.Carries x)) :
    Evaluation.Agrees
      ((ExtensionEvaluator.mk (.ofScalars functions)).inlinePattern context name (.extend p' y e))
      (sem.reference functions (sem.under name) (.extend p y e)) (Inlined.Carries x) := by
  have hy : y ≠ x := fun hyx => hspared.target (hyx ▸ List.mem_cons_self)
  have hchild : p ∈ (Pattern.extend p y e).children := List.mem_cons_self
  rw [ExtensionEvaluator.inlinePattern, Semantics.reference]
  refine hp.bind ?_
  rintro _ A hA ⟨t, B, rfl, ht, rfl⟩
  have hfree : (B.forget x).Unreserved := fun μ hμ =>
    h.unreserved p List.mem_cons_self μ ⟨_, hA, hμ⟩
  have hinsensitive : ∀ μ ∈ B.forget x, ∀ a ∈ Semantics.evaluated (.ofExpr e),
      (sem.value a μ.presented).map Skolem.decode = sem.value a μ := fun μ hμ =>
    h.insensitive μ ⟨_, hA, hμ⟩
  have hevaluates := h.evaluates
  have hignores := h.ignores
  cases hform : BindExpression.ofExpr e with
  | functionCall f arguments =>
    rw [Layer.exprs, hform] at hevaluates hignores
    rw [hform] at hinsensitive
    refine ht.call_carries hd hy hevaluates hignores (fun μ hμ a ha hdirect => ?_) hspared.value
      ((hspared.of_child hchild).value_unbound hA)
    exact hinsensitive μ hμ a (List.mem_filter.mpr ⟨ha, by simp [hdirect]⟩)
  | builtIn e' =>
    obtain rfl := BindExpression.eq_of_ofExpr_builtIn hform
    rw [Layer.exprs, hform] at hevaluates hignores
    rw [hform] at hinsensitive
    refine ht.extendBuiltIn_carries hd hy (hevaluates _ List.mem_cons_self)
      (hignores _ List.mem_cons_self) hfree
      (fun μ hμ => hinsensitive μ hμ _ List.mem_cons_self) fun hvar μ hμ => ?_
    obtain ⟨hmentions, hname⟩ := h.target y _ rfl hform hvar
    exact Spared.unbound hmentions hname hA hμ

/-- One layer: what carries the rows of a part carries the rows of the layer around it. -/
theorem Layer.Fits.agrees {layer : Layer} {p p' : Pattern}
    (h : layer.Fits functions context sem name x p) (hspared : Spared name x (layer.around p))
    (hp : Evaluation.Agrees
      ((ExtensionEvaluator.mk (.ofScalars functions)).inlinePattern context name p')
      (sem.reference functions (sem.under name) p) (Inlined.Carries x)) :
    Evaluation.Agrees
      ((ExtensionEvaluator.mk (.ofScalars functions)).inlinePattern context name (layer.around p'))
      (sem.reference functions (sem.under name) (layer.around p)) (Inlined.Carries x) := by
  cases layer with
  | left op r =>
    obtain ⟨t, C, hC, ht, hrep⟩ := h.aside r List.mem_cons_self
    obtain ⟨j, hj, ht⟩ := ExtensionEvaluator.exists_of_evaluatePattern ht
    have hchild : r ∈ (op.pattern p r).children := by simp [Pairing.children_pattern]
    have hunbound : ∀ ν ∈ C, ν x = none := (hspared.of_child hchild).call_unbound hC
    rw [around, around, Pairing.inlinePattern_pattern, Pairing.reference_pattern, hC]
    refine hp.bind ?_
    rintro _ A hA ⟨s, B, rfl, hs, rfl⟩
    have hforget : C.forget x = C := Bag.forget_of_eq_none hunbound
    have hinsensitive : ∀ e, op = .leftJoin e → ∀ μ ∈ B.forget x, ∀ ν ∈ C.forget x,
        μ.Compatible ν → sem.condition e (μ.merge ν).presented = sem.condition e (μ.merge ν) := by
      rintro e rfl μ hμ ν hν hc
      exact h.insensitive μ ν ⟨_, hA, hμ⟩ ⟨_, hC, hforget ▸ hν⟩ hc
    have hrows := Pairing.agrees_combine hd h.evaluates h.ignoresRow h.ignores hinsensitive
      (fun _ _ ν hν => .inr (hunbound ν hν)) (.inl ⟨s, rfl⟩) rfl ht hs hrep
    rw [hforget] at hrows
    rw [hj, pure_bind]
    exact hrows
  | right op l =>
    obtain ⟨s, B, hB, hs, hrep⟩ := h.aside l List.mem_cons_self
    obtain ⟨i, hi, hs⟩ := ExtensionEvaluator.exists_of_evaluatePattern hs
    have hchild : l ∈ (op.pattern l p).children := by simp [Pairing.children_pattern]
    have hunbound : ∀ μ ∈ B, μ x = none := (hspared.of_child hchild).call_unbound hB
    rw [around, around, Pairing.inlinePattern_pattern, Pairing.reference_pattern, hB, hi, pure_bind]
    refine hp.bind ?_
    rintro _ A hA ⟨t, C, rfl, ht, rfl⟩
    have hforget : B.forget x = B := Bag.forget_of_eq_none hunbound
    have hinsensitive : ∀ e, op = .leftJoin e → ∀ μ ∈ B.forget x, ∀ ν ∈ C.forget x,
        μ.Compatible ν → sem.condition e (μ.merge ν).presented = sem.condition e (μ.merge ν) := by
      rintro e rfl μ hμ ν hν hc
      exact h.insensitive μ ν ⟨_, hB, hforget ▸ hμ⟩ ⟨_, hA, hν⟩ hc
    have hrows := Pairing.agrees_combine hd h.evaluates h.ignoresRow h.ignores hinsensitive
      (fun μ hμ _ _ => .inl (hunbound μ hμ)) (.inr ⟨t, rfl⟩) hs rfl hrep ht
    rw [hforget] at hrows
    exact hrows
  | filter e =>
    refine hp.bind ?_
    rintro _ A hA ⟨t, B, rfl, ht, rfl⟩
    have hfree : (B.forget x).Unreserved := fun μ hμ =>
      h.unreserved p List.mem_cons_self μ ⟨_, hA, hμ⟩
    obtain ⟨i, hi, hcarries⟩ := ht.filter_carries hd (h.evaluates e List.mem_cons_self)
      (h.ignores e List.mem_cons_self) hfree fun μ hμ => h.insensitive μ ⟨_, hA, hμ⟩
    rw [hi]
    exact Evaluation.agrees_pure hcarries
  | extend y e => exact h.agrees_extend hd hspared hp

/-- The call itself: its rows are those of the part and the target. -/
theorem Evaluated.agrees_call {p : Pattern} {e : Expr} {i : Iri} {f : ScalarFunction} {v : Term}
    (hform : BindExpression.ofExpr e = .functionCall i []) (hf : functions.lookup i.text = some f)
    (hv : f.result? [] = some v) (hp : Evaluated functions context sem name p)
    (hspared : Spared name x p) :
    Evaluation.Agrees
      ((ExtensionEvaluator.mk (.ofScalars functions)).inlinePattern context name (.extend p x e))
      (sem.reference functions (sem.under name) p) (Inlined.Carries x) := by
  obtain ⟨t, A, hA, ht, hrep⟩ := hp
  obtain ⟨inlined, hinlined, ht⟩ := ExtensionEvaluator.exists_of_evaluatePattern ht
  have hcallable : ∀ b ∈ t.rows, ScalarFunction.Callable context sem [] b := by
    intro b hb
    have hrow : b.mapping ∈ A := hrep.rows ▸ Bag.mem_ofRows.mpr ⟨b, hb, rfl⟩
    exact ⟨hrep.distinctVars b hb, hspared.value_unbound hA _ hrow,
      fun _ ha => absurd ha List.not_mem_nil, fun _ ha => absurd ha List.not_mem_nil⟩
  have hcall := ExtensionEvaluator.agrees_bind? hd functions (p := p) (x := x) (i := i) hcallable
  have hbind : sem.bind? functions x A (.functionCall i []) =
      some (A.extend x fun _ => some v) := by
    rw [Semantics.bind?, hf, Option.bind_some]
    have hvalue : (fun μ => (sem.arguments? [] μ).bind f.result?) = fun _ => some v :=
      funext fun _ => hv
    rw [hvalue]
    exact Bag.extend?_eq_some fun _ _ => Option.some_ne_none v
  rw [hrep.rows, hbind] at hcall
  obtain ⟨rows, hrows, hbag, hdistinct⟩ := hcall
  rw [ExtensionEvaluator.inlinePattern, hinlined, pure_bind, hA]
  simp only [hform]
  unfold ExtensionEvaluator.callFunction
  rw [ht, pure_bind, hrows, pure_bind]
  exact Evaluation.agrees_pure ⟨_, _, rfl, hrep.called x hbag hdistinct,
    Bag.forget_extend_self (hspared.call_unbound hA)⟩

theorem Layer.agrees_wrap {e : Expr} {i : Iri} {f : ScalarFunction} {v : Term}
    (hform : BindExpression.ofExpr e = .functionCall i []) (hf : functions.lookup i.text = some f)
    (hv : f.result? [] = some v) {p : Pattern} (hp : Evaluated functions context sem name p)
    {layers : List Layer} (hlayers : AllFit functions context sem name x layers p)
    (hspared : Spared name x (wrap layers p)) :
    Evaluation.Agrees
      ((ExtensionEvaluator.mk (.ofScalars functions)).inlinePattern context name
        (wrap layers (.extend p x e)))
      (sem.reference functions (sem.under name) (wrap layers p)) (Inlined.Carries x) := by
  -- from the innermost layer outwards
  induction layers with
  | nil => exact hp.agrees_call hd hform hf hv hspared
  | cons layer rest ih =>
    have hchild : wrap rest p ∈ (layer.around (wrap rest p)).children := layer.mem_children _
    exact hlayers.1.agrees hd hspared (ih hlayers.2 (hspared.of_child hchild))

end Steps

/-! ## Groups that are inlined operator by operator -/

section Receptive
variable {context : EvaluationContext} {sem : Semantics} {functions : ScalarFunctions}
variable {name : Option NamePattern} {rowWise : Bool} {x : Variable} {e : Expr} {A : Bag}
variable {p q l r : Pattern} {op : Pairing} {layer : Layer}

/-- No part of the group shows that the rows below it have IRIs for their blank nodes, so that a call
can stand on any of them. -/
structure Semantics.Receptive (sem : Semantics) (functions : ScalarFunctions)
    (name : Option NamePattern) (rowWise : Bool) (p : Pattern) : Prop where
  inlinable : sem.Inlinable rowWise p
  suitable : sem.Suitable functions name p
  unreserved : ∀ q, p.Part q → ∀ μ, sem.RowOf functions (sem.under name) q μ → μ.Unreserved
  insensitive : ∀ q, p.Part q → sem.Insensitive functions (sem.under name) q

theorem Semantics.Receptive.of_child (h : sem.Receptive functions name rowWise p)
    (hq : q ∈ p.children) : sem.Receptive functions name rowWise q where
  inlinable := h.inlinable.of_child hq
  suitable := h.suitable.of_child hq
  unreserved r hr := h.unreserved r (.of_child hq hr)
  insensitive r hr := h.insensitive r (.of_child hq hr)

theorem Semantics.Receptive.evaluated (h : sem.Receptive functions name rowWise p)
    (hf : context.Follows sem) (hd : context.deadline = none) (hname : rowWise = true ∨ name = none)
    (hA : sem.reference functions (sem.under name) p = some A) :
    Evaluated functions context sem name p :=
  evaluated_of_inlinable hf hd hname h.inlinable h.suitable hA fun μ hμ =>
    h.unreserved p (.refl p) μ ⟨A, hA, hμ⟩

theorem Pairing.vars_of_exprs (he : e ∈ op.exprs) (hx : x ∈ e.vars) : x ∈ (op.pattern l r).vars := by
  cases op with
  | leftJoin c =>
    obtain rfl := Option.mem_toList.mp he
    exact List.mem_append_right _ hx
  | join | minus | union => exact absurd he List.not_mem_nil

theorem Layer.vars_of_exprs (he : e ∈ layer.exprs) (hx : x ∈ e.vars) :
    x ∈ (layer.around p).vars := by
  cases layer with
  | left op q | right op q => exact Pairing.vars_of_exprs he hx
  | filter c =>
    obtain rfl := List.mem_singleton.mp he
    exact List.mem_append_left _ hx
  | extend y c =>
    refine List.mem_cons_of_mem _ (List.mem_append_left _ ?_)
    rw [exprs] at he
    cases hform : BindExpression.ofExpr c with
    | functionCall f arguments =>
      rw [hform] at he
      exact vars_of_argument hform he hx
    | builtIn c' =>
      rw [hform] at he
      obtain rfl := List.mem_singleton.mp he
      exact BindExpression.eq_of_ofExpr_builtIn hform ▸ hx

theorem Pairing.isPlain_of_inlinable (h : sem.Inlinable rowWise (op.pattern l r))
    (he : e ∈ op.exprs) : e.isPlain sem.known = true := by
  cases op with
  | leftJoin c =>
    obtain rfl := Option.mem_toList.mp he
    cases h with
    | leftJoin hc _ _ => exact hc
  | join | minus | union => exact absurd he List.not_mem_nil

theorem Layer.isPlain_of_inlinable (h : sem.Inlinable rowWise (layer.around p))
    (he : e ∈ layer.exprs) : e.isPlain sem.known = true := by
  cases layer with
  | left op q | right op q => exact Pairing.isPlain_of_inlinable h he
  | filter c =>
    obtain rfl := List.mem_singleton.mp he
    cases h with
    | filter hc _ => exact hc
  | extend y c =>
    rw [exprs] at he
    cases h with
    | call hform harguments _ =>
      rw [hform] at he
      exact harguments e he
    | builtIn hform hc _ _ =>
      rw [hform] at he
      exact List.mem_singleton.mp he ▸ hc

/-- What stands below a layer has rows if the layer has. -/
theorem Layer.exists_reference
    (hA : sem.reference functions (sem.under name) (layer.around p) = some A)
    (hq : q ∈ (layer.around p).children) :
    ∃ B, sem.reference functions (sem.under name) q = some B := by
  have pair {l r : Pattern} {op : Pairing}
      (hA : sem.reference functions (sem.under name) (op.pattern l r) = some A)
      (hq : q ∈ (op.pattern l r).children) :
      ∃ B, sem.reference functions (sem.under name) q = some B := by
    rw [Pairing.reference_pattern] at hA
    obtain ⟨B, hB, hA⟩ := Option.bind_eq_some_iff.mp hA
    obtain ⟨C, hC, _⟩ := Option.bind_eq_some_iff.mp hA
    rw [Pairing.children_pattern] at hq
    rcases List.mem_cons.mp hq with rfl | hq
    · exact ⟨B, hB⟩
    · exact ⟨C, List.mem_singleton.mp hq ▸ hC⟩
  cases layer with
  | left op q | right op q => exact pair hA hq
  | filter c | extend y c =>
    rw [around, Semantics.reference] at hA
    obtain ⟨B, hB, _⟩ := Option.bind_eq_some_iff.mp hA
    exact ⟨B, List.mem_singleton.mp hq ▸ hB⟩

theorem Layer.mem_children_of_aside (hr : r ∈ layer.aside) (p : Pattern) :
    r ∈ (layer.around p).children := by
  cases layer with
  | left op q | right op q =>
    obtain rfl := List.mem_singleton.mp hr
    simp [around, Pairing.children_pattern]
  | filter c | extend y c => exact absurd hr List.not_mem_nil

theorem Layer.exists_reference_of_wrap {layers : List Layer}
    (hA : sem.reference functions (sem.under name) (wrap layers p) = some A) :
    ∃ B, sem.reference functions (sem.under name) p = some B := by
  induction layers generalizing A with
  | nil => exact ⟨A, hA⟩
  | cons layer rest ih =>
    obtain ⟨B, hB⟩ := exists_reference hA (layer.mem_children _)
    exact ih hB

theorem Layer.receptive_of_wrap {layers : List Layer}
    (h : sem.Receptive functions name rowWise (wrap layers p)) :
    sem.Receptive functions name rowWise p := by
  induction layers with
  | nil => exact h
  | cons layer rest ih => exact ih (h.of_child (layer.mem_children _))

section Follows
variable (hf : context.Follows sem) (hd : context.deadline = none)
  (hname : rowWise = true ∨ name = none)
include hf hd hname

theorem Layer.fits_of_receptive (h : sem.Receptive functions name rowWise (layer.around p))
    (hA : sem.reference functions (sem.under name) (layer.around p) = some A)
    (hx : x ∉ (layer.around p).vars) : layer.Fits functions context sem name x p where
  aside r hr := by
    have hchild := mem_children_of_aside hr p
    obtain ⟨B, hB⟩ := exists_reference hA hchild
    exact (h.of_child hchild).evaluated hf hd hname hB
  unreserved q hq := h.unreserved q (.of_child hq (.refl q))
  insensitive := h.insensitive _ (.refl _)
  evaluates e he := hf.evaluates (isPlain_of_inlinable h.inlinable he)
  ignores e he :=
    sem.ignores_of_isPlain (isPlain_of_inlinable h.inlinable he) (mt (vars_of_exprs he) hx)
  ignoresRow e he := sem.ignores_of_isPlain (isPlain_of_inlinable h.inlinable he)
    (mt (vars_of_exprs he) h.suitable.noRow)
  target y e hlayer hform hvar := by
    subst hlayer
    refine ⟨?_, h.suitable.fresh y List.mem_cons_self⟩
    cases h.inlinable with
    | call hcall _ _ => rw [hform] at hcall; cases hcall
    | builtIn _ _ hy _ => exact hy hvar

theorem Layer.allFit_of_receptive {layers : List Layer}
    (h : sem.Receptive functions name rowWise (wrap layers p))
    (hA : sem.reference functions (sem.under name) (wrap layers p) = some A)
    (hx : x ∉ (wrap layers p).vars) : AllFit functions context sem name x layers p := by
  induction layers generalizing A with
  | nil => trivial
  | cons layer rest ih =>
    have hchild : wrap rest p ∈ (layer.around (wrap rest p)).children := layer.mem_children _
    obtain ⟨B, hB⟩ := exists_reference hA hchild
    exact ⟨fits_of_receptive hf hd hname h hA hx,
      ih (h.of_child hchild) hB (mt (Pattern.vars_of_child hchild) hx)⟩

/-- In a group that is inlined operator by operator, a call without arguments on any part leaves the
rows of the group as they are but for the target. -/
theorem Layer.carries_of_receptive {layers : List Layer} {i : Iri} {f : ScalarFunction} {v : Term}
    (hform : BindExpression.ofExpr e = .functionCall i []) (hi : functions.lookup i.text = some f)
    (hv : f.result? [] = some v) (h : sem.Receptive functions name rowWise (wrap layers p))
    (hA : sem.reference functions (sem.under name) (wrap layers p) = some A)
    (hx : x ∉ (wrap layers p).vars) (hxname : x ∉ Pattern.graphVariables name)
    (hxvalue : EvaluationContext.valueVariable ≠ x) :
    ∃ inlined, (ExtensionEvaluator.mk (.ofScalars functions)).inlinePattern context name
        (wrap layers (.extend p x e)) = pure inlined ∧ inlined.Carries x A := by
  obtain ⟨B, hB⟩ := exists_reference_of_wrap hA
  have hp : Evaluated functions context sem name p :=
    (receptive_of_wrap h).evaluated hf hd hname hB
  have hspared : Spared name x (wrap layers p) :=
    ⟨hx, hxname, h.suitable.noValue, h.suitable.nameNotValue, hxvalue⟩
  have hagrees := agrees_wrap hd hform hi hv hp (allFit_of_receptive hf hd hname h hA hx) hspared
  rw [hA] at hagrees
  exact hagrees

end Follows

end Receptive

end SparqlBind

end
