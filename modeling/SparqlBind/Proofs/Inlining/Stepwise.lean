import SparqlBind.Proofs.Inlining.BuiltIns
import SparqlBind.Proofs.Semantics.Operators

/-!
# Operators one after the other

Above evaluated rows every operator is evaluated at once: its child is written as a table, and its
rows are read back. Between two operators blank nodes are thus shown as IRIs. The engine has them for
rows of a list semantics, which depend on the rows of the child only; then all operators can as well
be put to the engine in one pattern, unless one of them makes a blank node, which the operators after
it would see as an IRI only when they come one after the other.
-/

noncomputable section

open scoped Classical

namespace SparqlBind

namespace UnaryOperator

/-- Puts the operators on top one after the other; the first is the innermost. -/
def applyAll (context : EvaluationContext) : List UnaryOperator → Inlined → Evaluation Inlined
  | [], i => pure i
  | op :: ops, i => do applyAll context ops (← i.apply context op.apply)

/-- The terms of a kind in the rows of the operator come from the rows of its child. -/
def MakesNo (rows : Pattern → List Mapping) (kind : Term → Prop) (op : UnaryOperator) : Prop :=
  ∀ p, ∀ μ ∈ rows (op.apply p), ∀ x t, μ x = some t → kind t → ∃ ν ∈ rows p, ∃ y, ν y = some t

/-- One after the other and all at once, the operators give tables with the same columns, and the
same rows in the same order. -/
def InStep (context : EvaluationContext) (ops : List UnaryOperator) (t : Table) : Prop :=
  ∃ r s : Table,
    Evaluation.Reaches context.deadline (applyAll context ops (.solutions t)) (.ok (.solutions r)) ∧
    Evaluation.Reaches context.deadline ((Inlined.solutions t).apply context (stack ops))
      (.ok (.solutions s)) ∧
    r.vars = s.vars ∧ r.mappings = s.mappings

end UnaryOperator

open UnaryOperator (stack applyAll)

def Term.IsBlank (t : Term) : Prop := ∃ label, t = .blank label

theorem Mapping.presented_decoded {μ : Mapping} (h : ∀ x t, μ x = some t → ¬ t.IsBlank) :
    μ.decoded.presented = μ := by
  funext x
  unfold presented decoded mapTerms
  cases hx : μ x with
  | none => rfl
  | some t => exact congrArg some (Skolem.encode_decode fun label ht => h x t hx ⟨label, ht⟩)

theorem Mapping.not_isBlank_of_presented {μ : Mapping} {x : Variable} {t : Term}
    (h : μ.presented x = some t) : ¬ t.IsBlank := by
  obtain ⟨u, _, rfl⟩ := Option.map_eq_some_iff.mp h
  rintro ⟨label, hlabel⟩
  cases u <;> cases hlabel

namespace EvaluationContext

/-- The engine gives tables as they are written, as in `Engine.Tabular`, and for operators on top of
one it has rows that bind variables in scope and depend on the rows of the child only. -/
structure ListsBy (context : EvaluationContext) (rows : Pattern → List Mapping) : Prop where
  lists : ∀ ops (xs : List Variable) (cells : List (List (Option GroundTerm))), xs.Nodup →
    (∀ row ∈ cells, row.length = xs.length) →
    context.Lists (stack ops (.values xs cells)) (rows (stack ops (.values xs cells)))
  values : ∀ xs cells, rows (.values xs cells) = cells.map (Mapping.ofCells xs)
  congr : ∀ (op : UnaryOperator) p q, rows p = rows q → rows (op.apply p) = rows (op.apply q)
  within : ∀ ops xs cells, ∀ μ ∈ rows (stack ops (.values xs cells)),
    μ.Within (· ∈ (stack ops (.values xs cells)).mentions)

end EvaluationContext

variable {context : EvaluationContext} {rows : Pattern → List Mapping} {p : Pattern} {t : Table}

/-- The table has the scope of the pattern for columns, and written it has the rows of the pattern. -/
structure Table.Shows (rows : Pattern → List Mapping) (p : Pattern) (t : Table) : Prop where
  covers : t.Covers
  vars_eq : t.vars = p.inScope
  rows_eq : t.mappings.map Mapping.presented = rows p

namespace EvaluationContext.ListsBy

theorem shows_toPattern (h : context.ListsBy rows) (ht : t.Covers) : t.Shows rows t.toPattern where
  covers := ht
  vars_eq := (unionVariables_nil ht.nodup).symm
  rows_eq := by
    rw [Table.toPattern, h.values, ht.map_ofCells, Table.mappings, List.map_map]
    rfl

/-- Operators evaluated at once over a table. -/
theorem apply_stack (h : context.ListsBy rows) (ht : t.Covers) (ops : List UnaryOperator) :
    ∃ s : Table, Evaluation.Reaches context.deadline
        ((Inlined.solutions t).apply context (stack ops)) (.ok (.solutions s)) ∧
      s.Covers ∧ s.vars = (stack ops t.toPattern).inScope ∧
      s.mappings = (rows (stack ops t.toPattern)).map Mapping.decoded := by
  have hlength : ∀ row ∈ t.rows.map (Table.row t.vars), row.length = t.vars.length := by
    intro row hrow
    obtain ⟨b, _, rfl⟩ := List.mem_map.mp hrow
    exact List.length_map _
  obtain ⟨bs, hbs, hmappings⟩ := (h.lists ops t.vars _ ht.nodup hlength).rows
  refine ⟨⟨(stack ops t.toPattern).inScope, bs⟩, ?_, ⟨Pattern.nodup_inScope _, ?_⟩, rfl, hmappings⟩
  · exact hbs.bind_ok (Evaluation.reaches_pure _)
  · intro b hb x hx
    obtain ⟨μ, hμ, hbμ⟩ := List.mem_map.mp (hmappings ▸ List.mem_map_of_mem hb)
    refine Pattern.mem_inScope.mpr (h.within ops _ _ μ hμ x fun hnone => ?_)
    have hget : b.get? x = (μ x).map Skolem.decode := (congrFun hbμ x).symm
    rw [hnone, Option.map_none, Binding.get?_eq_none_iff, ← Binding.contains_iff_mem_vars] at hget
    exact hget hx

/-- One operator on a table that shows its child. -/
theorem apply (h : context.ListsBy rows) (ht : t.Shows rows p) (op : UnaryOperator) :
    ∃ r : Table, Evaluation.Reaches context.deadline
        ((Inlined.solutions t).apply context op.apply) (.ok (.solutions r)) ∧
      r.Covers ∧ r.vars = (op.apply p).inScope ∧
      r.mappings = (rows (op.apply p)).map Mapping.decoded := by
  obtain ⟨r, hr, hcovers, hvars, hmappings⟩ := h.apply_stack ht.covers [op]
  have hshows := h.shows_toPattern ht.covers
  refine ⟨r, hr, hcovers, ?_, ?_⟩
  · rw [hvars]
    exact op.inScope_congr (hshows.vars_eq.symm.trans ht.vars_eq)
  · rw [hmappings]
    exact congrArg _ (h.congr op _ _ (hshows.rows_eq.symm.trans ht.rows_eq))

/-- Rows without blank nodes of their own are written as they were read. -/
theorem rows_presented (ht : t.Shows rows p) {op : UnaryOperator}
    (hop : op.MakesNo rows Term.IsBlank) :
    ((rows (op.apply p)).map Mapping.decoded).map Mapping.presented = rows (op.apply p) := by
  rw [List.map_map]
  refine (List.map_congr_left fun μ hμ => Mapping.presented_decoded fun x u hx hu => ?_).trans
    (List.map_id _)
  obtain ⟨ν, hν, y, hy⟩ := hop p μ hμ x u hx hu
  rw [← ht.rows_eq] at hν
  obtain ⟨κ, _, rfl⟩ := List.mem_map.mp hν
  exact Mapping.not_isBlank_of_presented hy hu

theorem applyAll (h : context.ListsBy rows) (ht : t.Shows rows p) (op : UnaryOperator)
    (ops : List UnaryOperator) (hops : ∀ o ∈ op :: ops, o.MakesNo rows Term.IsBlank) :
    ∃ r : Table, Evaluation.Reaches context.deadline
        (applyAll context (op :: ops) (.solutions t)) (.ok (.solutions r)) ∧
      r.vars = (stack (op :: ops) p).inScope ∧
      r.mappings = (rows (stack (op :: ops) p)).map Mapping.decoded := by
  -- from the innermost operator outwards; what was read so far shows the pattern so far
  induction ops generalizing t p op with
  | nil =>
    obtain ⟨r, hr, _, hvars, hmappings⟩ := h.apply ht op
    exact ⟨r, hr.bind_ok (Evaluation.reaches_pure _), hvars, hmappings⟩
  | cons next ops ih =>
    obtain ⟨hop, hrest⟩ := List.forall_mem_cons.mp hops
    obtain ⟨r, hr, hcovers, hvars, hmappings⟩ := h.apply ht op
    have hshows : r.Shows rows (op.apply p) :=
      ⟨hcovers, hvars, hmappings ▸ rows_presented ht hop⟩
    obtain ⟨s, hs, hresult⟩ := ih hshows next hrest
    exact ⟨s, hr.bind_ok hs, hresult⟩

end EvaluationContext.ListsBy

/-- Operators one after the other, each on a new table of the rows before, give what they give in one
pattern, if none of them makes a blank node. -/
theorem UnaryOperator.inStep_of_listsBy (h : context.ListsBy rows) {ops : List UnaryOperator}
    (hops : ops ≠ []) (hblank : ∀ op ∈ ops, op.MakesNo rows Term.IsBlank) (ht : t.Covers) :
    UnaryOperator.InStep context ops t := by
  obtain ⟨op, rest, rfl⟩ := List.exists_cons_of_ne_nil hops
  obtain ⟨r, hr, hrvars, hrmappings⟩ := h.applyAll (h.shows_toPattern ht) op rest hblank
  obtain ⟨s, hs, _, hsvars, hsmappings⟩ := h.apply_stack ht (op :: rest)
  exact ⟨r, s, hr, hs, hrvars.trans hsvars.symm, hrmappings.trans hsmappings.symm⟩

/-! ## The engine of a list semantics -/

theorem Evaluation.Reaches.unique {α : Type} {m : Evaluation α} {r r' : Except EvaluationError α}
    (h : Reaches none m r) (h' : Reaches none m r') : r = r' := by
  have hrun := (h.run fun _ => default).resolve_right nofun
  have hrun' := (h'.run fun _ => default).resolve_right nofun
  exact hrun.symm.trans hrun'

/-- Answers selections with the rows of the list semantics. -/
def ListSemantics.engine (sem : Semantics) (lists : ListSemantics) : Engine where
  answer _ q :=
    match q.form with
    | .select => .ok (.solutions q.pattern.inScope ((listRows sem lists q.pattern).map fun μ =>
        .ok (.ofMapping q.pattern.inScope μ)))
    | _ => .error (.other "not a selection")

variable {sem : Semantics} {lists : ListSemantics}

theorem ListSemantics.listsBy_engine (h : context.engine = lists.engine sem) :
    context.ListsBy (listRows sem lists) where
  lists ops xs cells _ _ := by
    let p := stack ops (.values xs cells)
    refine ⟨p.inScope, (listRows sem lists p).map (.ofMapping p.inScope), ?_, ?_⟩
    · rw [h, List.map_map]
      rfl
    · rw [List.map_map]
      refine (List.map_congr_left fun μ hμ => ?_).trans (List.map_id _)
      exact Solution.mapping_ofMapping p.nodup_inScope
        ((listRows_within ops xs cells μ hμ).mono fun _ => Pattern.mem_inScope.mpr)
  values _ _ := rfl
  congr op p q hpq := by rw [listRows_apply, listRows_apply, hpq]
  within := listRows_within

/-- Terms of a kind that an operator does not compute come from its child. -/
theorem UnaryOperator.makesNo_listRows {op : UnaryOperator} {kind : Term → Prop}
    (h : ∀ t, op.Computes sem lists t → ¬ kind t) : op.MakesNo (listRows sem lists) kind := by
  intro p μ hμ x t hx ht
  rw [listRows_apply] at hμ
  exact (computes_or_mem hμ hx).resolve_left fun hcomputes => h t hcomputes ht

namespace Sample

/-- Orders rows by the text of a key. -/
def alphabetical : ListSemantics where
  precedes keys μ ν := decide (keyText keys μ ≤ keyText keys ν)
  summary? _ _ := none
  precedes_total keys μ ν := by
    simpa using String.le_total (keyText keys μ) (keyText keys ν)
  precedes_trans _ _ _ _ := by simpa using String.le_trans
where
  keyText : List OrderKey → Mapping → String
    | [.ascending e], μ => ((semantics []).value e μ).elim "" Chance.termText
    | _, _ => ""

def listing : EvaluationContext :=
  { stored [] with engine := alphabetical.engine (semantics []) }

theorem listsBy_listing : listing.ListsBy (listRows (semantics []) alphabetical) :=
  ListSemantics.listsBy_engine rfl

/-- The subject of the row whose object comes first. -/
def firstByObject : List UnaryOperator :=
  [.orderBy [.ascending (.var object)], .project [subject], .slice 0 (some 1)]

def letters : Table := ⟨[subject, object],
  [⟨[(subject, .blank "m"), (object, .literal (.plain "b"))]⟩,
    ⟨[(subject, .blank "n"), (object, .literal (.plain "a"))]⟩]⟩

theorem covers_letters : letters.Covers where
  nodup := by decide
  bound b hb x hx := by
    have hvars : ∀ b ∈ letters.rows, b.vars = [subject, object] := by decide
    rw [Binding.contains_iff_mem_vars, hvars b hb] at hx
    exact hx

theorem first_listRows :
    listRows (semantics []) alphabetical (stack firstByObject letters.toPattern) =
      [Mapping.empty.set subject (Skolem.encode (.blank "n")).toTerm] := by
  let b : Mapping := .ofCells [subject, object] [some (Skolem.encode (.blank "m")), some (text "b")]
  let a : Mapping := .ofCells [subject, object] [some (Skolem.encode (.blank "n")), some (text "a")]
  have horder : alphabetical.precedes [.ascending (.var object)] b a = false := by decide
  have hsorted : [b, a].mergeSort (alphabetical.precedes [.ascending (.var object)]) = [a, b] := by
    simp [List.mergeSort, horder]
  calc listRows (semantics []) alphabetical (stack firstByObject letters.toPattern)
      = Rows.window 0 (some 1) (([b, a].mergeSort
          (alphabetical.precedes [.ascending (.var object)])).map (·.restrict [subject])) := rfl
    _ = [a.restrict [subject]] := by rw [hsorted]; rfl
    _ = _ := by
      refine congrArg (fun μ => [μ]) (funext fun x => ?_)
      by_cases hx : x = subject
      · subst hx
        rfl
      · rw [Mapping.restrict, if_neg (by simpa using hx), Mapping.set_apply, if_neg hx]
        rfl

end Sample

open Sample in
/-- The order by a variable that is projected away decides which row a slice keeps. -/
theorem UnaryOperator.inStep_of_listsBy_letters :
    ∃ r : Table, Evaluation.Reaches none (applyAll listing firstByObject (.solutions letters))
        (.ok (.solutions r)) ∧
      r.mappings = [Mapping.empty.set subject (.blank "n")] := by
  have hcomputes : ∀ op ∈ firstByObject, ∀ t, ¬ op.Computes (semantics []) alphabetical t := by
    simp [firstByObject, Computes]
  obtain ⟨r, s, hr, hs, _, hrows⟩ := inStep_of_listsBy listsBy_listing (List.cons_ne_nil _ _)
    (fun op hop => makesNo_listRows fun t ht => (hcomputes op hop t ht).elim) covers_letters
  obtain ⟨s', hs', _, _, hmappings⟩ := listsBy_listing.apply_stack covers_letters firstByObject
  obtain rfl := Inlined.solutions.inj (Except.ok.inj (hs.unique hs'))
  refine ⟨r, hr, ?_⟩
  rw [hrows, hmappings, first_listRows, List.map_singleton, Mapping.decoded, Mapping.mapTerms_set,
    Skolem.decode_encode rfl]
  rfl

namespace Sample

/-- A blank node, and the question whether it is one. -/
def makeBlank : UnaryOperator :=
  .extend object (.call (.builtIn .bnode) [.constant (text "a")])

def askBlank : UnaryOperator :=
  .extend target (.call (.builtIn .isBlank) [.var object])

/-- A table with one row that binds nothing. -/
def oneEmptyRow : Table := ⟨[], [.empty]⟩

theorem covers_oneEmptyRow : oneEmptyRow.Covers where
  nodup := List.nodup_nil
  bound b hb x hx := by
    obtain rfl := List.mem_singleton.mp hb
    cases hx

theorem value_makeBlank (μ : Mapping) :
    (semantics []).value (.call (.builtIn .bnode) [.constant (text "a")]) μ =
      some (.blank "a") := rfl

theorem toBinding_singleton (μ : Mapping) (x : Variable) :
    μ.toBinding [x] = (μ x).elim .empty fun t => ⟨[(x, t)]⟩ := by
  unfold Mapping.toBinding
  cases h : μ x with
  | none => simp [h, Binding.ofList]
  | some t => simp [h, Binding.ofList, Binding.set, Binding.setEntries, Binding.empty]

theorem value_askBlank (μ : Mapping) :
    (semantics []).value (.call (.builtIn .isBlank) [.var object]) μ =
      (μ object).bind fun t =>
        (BuiltIn.termFunction? default .isBlank [.ofTerm t]).map Value.toTerm := by
  have hcall (c : FunctionContext) (v : Value) : (Function.builtIn .isBlank).value? c [some v] =
      BuiltIn.termFunction? default .isBlank [v] := by
    cases v <;> rfl
  change ((Expr.value? _ (.call (.builtIn .isBlank) [.var object]) none (μ.toBinding [object])).map
    Value.toTerm) = _
  rw [toBinding_singleton]
  cases μ object with
  | none => rfl
  | some t => exact congrArg (Option.map Value.toTerm) (hcall _ (.ofTerm t))

theorem not_reserved_of_computes {op : UnaryOperator} (hop : op ∈ [makeBlank, askBlank]) {t : Term}
    (ht : op.Computes (semantics []) alphabetical t) : t.isReserved = false := by
  rcases List.mem_cons.mp hop with rfl | hop
  · obtain ⟨μ, hμ⟩ := ht
    rw [value_makeBlank] at hμ
    exact Option.some.inj hμ ▸ rfl
  · obtain rfl := List.mem_singleton.mp hop
    obtain ⟨μ, hμ⟩ := ht
    rw [value_askBlank] at hμ
    obtain ⟨u, _, hμ⟩ := Option.bind_eq_some_iff.mp hμ
    generalize Value.ofTerm u = v at hμ
    cases v <;> exact Option.some.inj hμ ▸ rfl

/-- The row in which the blank node is made. -/
def made : Mapping := .extend (.ofCells [] []) object (some (.blank "a"))

theorem mappings_makeBlank :
    listRows (semantics []) alphabetical (makeBlank.apply oneEmptyRow.toPattern) = [made] := rfl

/-- In one pattern the question is asked about the blank node. -/
theorem exists_asked_blank : ∃ s : Table, Evaluation.Reaches none
      ((Inlined.solutions oneEmptyRow).apply listing (stack [makeBlank, askBlank]))
        (.ok (.solutions s)) ∧
    s.mappings = [(made.extend target (some (.literal (.ofBool true)))).decoded] := by
  obtain ⟨s, hs, _, _, hmappings⟩ :=
    listsBy_listing.apply_stack covers_oneEmptyRow [makeBlank, askBlank]
  exact ⟨s, hs, hmappings⟩

/-- In steps the question is asked about the IRI that stands for the blank node. -/
theorem exists_asked_iri : ∃ r : Table, Evaluation.Reaches none
      (applyAll listing [makeBlank, askBlank] (.solutions oneEmptyRow)) (.ok (.solutions r)) ∧
    r.mappings =
      [(made.decoded.presented.extend target (some (.literal (.ofBool false)))).decoded] := by
  have hlists := listsBy_listing
  obtain ⟨t, ht, htcovers, _, htmappings⟩ :=
    hlists.apply (hlists.shows_toPattern covers_oneEmptyRow) makeBlank
  obtain ⟨r, hr, _, _, hrmappings⟩ := hlists.apply (hlists.shows_toPattern htcovers) askBlank
  refine ⟨r, ht.bind_ok (hr.bind_ok (Evaluation.reaches_pure _)), ?_⟩
  rw [hrmappings, listRows_apply, ← (hlists.shows_toPattern htcovers).rows_eq, htmappings,
    mappings_makeBlank]
  rfl

end Sample

open Sample in
/-- No expression makes an IRI of the reserved namespace, but one makes a blank node, which the next
operator has as an IRI when they come one after the other. -/
theorem UnaryOperator.not_inStep_blank :
    listing.ListsBy (listRows (semantics []) alphabetical) ∧
    (∀ op ∈ [makeBlank, askBlank], op.MakesNo (listRows (semantics []) alphabetical)
      fun t => t.isReserved = true) ∧
    oneEmptyRow.Covers ∧ (∀ μ ∈ oneEmptyRow.mappings, μ.Unreserved) ∧
    ¬ UnaryOperator.InStep listing [makeBlank, askBlank] oneEmptyRow := by
  refine ⟨listsBy_listing, fun op hop => makesNo_listRows fun t ht => ?_, covers_oneEmptyRow, ?_, ?_⟩
  · rw [not_reserved_of_computes hop ht]
    exact Bool.false_ne_true
  · intro μ hμ
    obtain rfl := List.mem_singleton.mp hμ
    exact fun x t ht => nomatch ht
  · rintro ⟨r, s, hr, hs, _, heq⟩
    obtain ⟨r', hr', hrmappings⟩ := exists_asked_iri
    obtain ⟨s', hs', hsmappings⟩ := exists_asked_blank
    obtain rfl := Inlined.solutions.inj (Except.ok.inj (hr.unique hr'))
    obtain rfl := Inlined.solutions.inj (Except.ok.inj (hs.unique hs'))
    rw [hrmappings, hsmappings] at heq
    have htarget := congrFun (List.cons.inj heq).1 target
    revert htarget
    decide

end SparqlBind

end
