import SparqlBind.Proofs.Pattern
import SparqlBind.Proofs.Semantics.Matching
import SparqlBind.Proofs.Semantics.Values

/-!
# Where the terms of rows come from

A row of the standard engine binds variables that have a column, to terms of the dataset, to terms
that the query writes and to values of expressions. No IRI of the reserved namespace is among them
when the dataset and the query hold none and no expression makes an IRI.
-/

namespace SparqlBind

mutual

/-- No value that the expression gives is a reserved IRI it writes or makes: such IRIs are not among
its constants, and neither `IRI` nor `DATATYPE` gives its value. -/
def Expr.MakesNone : Expr → Prop
  | .constant t => t.toTerm.isReserved = false
  | .var _ => True
  | .binary _ _ _ => True
  | .unary _ _ => True
  | .oneOf _ _ => True
  | .existence _ => True
  | .bound _ => True
  | .cond _ a b => a.MakesNone ∧ b.MakesNone
  | .coalesce arguments => Expr.AllMakeNone arguments
  | .call f _ => f ≠ .builtIn .iri ∧ f ≠ .builtIn .datatype

def Expr.AllMakeNone : List Expr → Prop
  | [] => True
  | e :: rest => e.MakesNone ∧ Expr.AllMakeNone rest

end

/-- The expression of an aggregate makes no reserved IRI. -/
def Aggregate.MakesNone : Aggregate → Prop
  | .countAll _ _ => True
  | .apply _ _ _ e => e.MakesNone

/-- No term that the pattern can add to a row is a reserved IRI. -/
def Pattern.MakesNone : Pattern → Prop
  | .bgp _ => True
  | .path s _ o => s.Unreserved ∧ o.Unreserved
  | .join l r => l.MakesNone ∧ r.MakesNone
  | .leftJoin l r _ => l.MakesNone ∧ r.MakesNone
  | .lateral l r => l.MakesNone ∧ r.MakesNone
  | .filter _ p => p.MakesNone
  | .union l r => l.MakesNone ∧ r.MakesNone
  | .graph _ p => p.MakesNone
  | .extend p _ e => p.MakesNone ∧ e.MakesNone
  | .minus l _ => l.MakesNone
  | .values _ table => ∀ cells ∈ table, ∀ t, some t ∈ cells → t.toTerm.isReserved = false
  | .orderBy p _ => p.MakesNone
  | .project p _ => p.MakesNone
  | .distinct p => p.MakesNone
  | .reduced p => p.MakesNone
  | .slice p _ _ => p.MakesNone
  | .group p _ aggregates => p.MakesNone ∧ ∀ a ∈ aggregates, a.MakesNone
  | .service .. => True

/-! ## Values -/

theorem Value.not_isReserved_of_isLiteral {v : Value} (h : v.isLiteral = true) :
    v.toTerm.isReserved = false := by
  obtain ⟨l, hl⟩ := exists_toTerm_of_isLiteral h
  rw [hl]
  rfl

theorem not_isReserved_uuid (text : String) :
    (Term.iri ⟨"urn:uuid:" ++ text⟩).isReserved = false := by
  have hstart : Skolem.namespaceText.toList.isPrefixOf ("urn:uuid:" ++ text).toList = false := by
    rw [String.toList_append]
    rfl
  unfold Term.isReserved Skolem.label?
  dsimp only
  rw [hstart]
  rfl

theorem BuiltIn.not_isReserved_value? {c : FunctionContext} {f : BuiltIn} (hiri : f ≠ .iri)
    (hdatatype : f ≠ .datatype) {vs : List Value} {v : Value} (h : f.value? c vs = some v) :
    v.toTerm.isReserved = false := by
  cases f with
  | iri => exact absurd rfl hiri
  | datatype => exact absurd rfl hdatatype
  | bnode =>
    change termFunction? c .bnode vs = some v at h
    rcases vs with _ | ⟨w, _ | ⟨_, _⟩⟩
    · exact Option.some.inj h ▸ rfl
    · cases w with
      | string label =>
        simp only [termFunction?, makeBlank?, Option.ite_none_right_eq_some] at h
        exact Option.some.inj h.2 ▸ rfl
      | _ => cases h
    · cases h
  | uuid =>
    change termFunction? c .uuid vs = some v at h
    cases vs with
    | nil => exact Option.some.inj h ▸ not_isReserved_uuid _
    | cons _ _ => cases h
  | _ => exact Value.not_isReserved_of_isLiteral (literalOnly_value? c rfl vs v h)

theorem Function.not_isReserved_value? {c : FunctionContext} {f : Function}
    (hf : f ≠ .builtIn .iri ∧ f ≠ .builtIn .datatype) {arguments : List (Option Value)} {v : Value}
    (h : f.value? c arguments = some v) : v.toTerm.isReserved = false := by
  obtain ⟨vs, _, h⟩ := Option.bind_eq_some_iff.mp h
  cases f with
  | custom f =>
    dsimp only at h
    split at h
    · exact Value.not_isReserved_of_isLiteral (Value.literalOnly_of_constructor? ‹_› _ v h)
    · cases h
  | builtIn f =>
    exact BuiltIn.not_isReserved_value? (fun hi => hf.1 (hi ▸ rfl)) (fun hd => hf.2 (hd ▸ rfl)) h

section Values
variable {s : Surroundings} {g : Option NamePattern} {row : Binding}

mutual

theorem Expr.MakesNone.value? {e : Expr} (he : e.MakesNone)
    (hrow : row.All fun _ t => t.isReserved = false) {v : Value} (h : e.value? s g row = some v) :
    v.toTerm.isReserved = false := by
  cases e with
  | constant t =>
    obtain rfl := Option.some.inj h
    exact (Term.isReserved_canonical _).trans he
  | var x =>
    obtain ⟨t, ht, rfl⟩ := Option.map_eq_some_iff.mp h
    exact (Term.isReserved_canonical t).trans (hrow.get? ht)
  | binary op a b => exact Value.not_isReserved_of_isLiteral (op.literalOnly_value? _ _ v h)
  | unary op a =>
    obtain ⟨w, _, h⟩ := Option.bind_eq_some_iff.mp h
    exact Value.not_isReserved_of_isLiteral (op.literalOnly_value? w v h)
  | oneOf a candidates => exact Value.not_isReserved_of_isLiteral (literalOnly_oneOf? _ _ v h)
  | existence p => exact Option.some.inj h ▸ rfl
  | bound x => exact Option.some.inj h ▸ rfl
  | cond c a b =>
    rw [Expr.value?] at h
    split at h
    · exact he.1.value? hrow h
    · exact he.2.value? hrow h
    · cases h
  | coalesce arguments =>
    rw [Expr.value?, Option.join_eq_some_iff] at h
    exact Expr.allMakeNone_values he hrow (List.mem_of_find?_eq_some h)
  | call f arguments => exact Function.not_isReserved_value? he h

theorem Expr.allMakeNone_values {es : List Expr} (hes : Expr.AllMakeNone es)
    (hrow : row.All fun _ t => t.isReserved = false) {v : Value}
    (h : some v ∈ Expr.values s es g row) : v.toTerm.isReserved = false := by
  cases es with
  | nil => cases h
  | cons e rest =>
    rcases List.mem_cons.mp h with h | h
    · exact hes.1.value? hrow h.symm
    · exact Expr.allMakeNone_values hes.2 hrow h

end

end Values

/-! ## Aggregates -/

theorem Aggregate.MakesNone.value {s : Surroundings} {g : Option NamePattern} {a : Aggregate}
    (ha : a.MakesNone) {rows : List Binding}
    (hrows : ∀ row ∈ rows, row.All fun _ t => t.isReserved = false) {v : Value}
    (h : (a.value s g rows).2 = some v) : v.toTerm.isReserved = false := by
  cases a with
  | countAll x distinct => exact Option.some.inj h ▸ rfl
  | apply x f distinct e =>
    rcases AggregateFunction.isLiteral_or_mem_of_apply h with hv | hv
    · exact Value.not_isReserved_of_isLiteral hv
    · obtain ⟨row, hrow, hv⟩ := List.mem_map.mp hv
      exact Expr.MakesNone.value? ha (hrows row hrow) hv

theorem Aggregate.value_fst {s : Surroundings} {g : Option NamePattern} {rows : List Binding}
    (a : Aggregate) : (a.value s g rows).1 = a.target := by
  cases a <;> rfl

theorem Aggregate.mem_values {s : Surroundings} {g : Option NamePattern} {rows : List Binding}
    {aggregates : List Aggregate} {c : Variable × Option Value} :
    c ∈ Aggregate.values s aggregates g rows ↔ ∃ a ∈ aggregates, a.value s g rows = c := by
  induction aggregates with
  | nil => simp [Aggregate.values]
  | cons a rest ih => simp [Aggregate.values, ih, eq_comm]

/-! ## Rows -/

section Parts
variable {s : Surroundings} {g : Option NamePattern} {l r : Pattern} {row b : Binding}

/-- A leaf on the right is evaluated on each row of the left, any other part on its own. -/
theorem mem_rows_join (h : .ok b ∈ (Pattern.join l r).rows s g row) :
    (∃ a, .ok a ∈ l.rows s g row ∧ .ok b ∈ r.rows s g a) ∨
      ∃ a c, .ok a ∈ l.rows s g row ∧ .ok c ∈ r.rows s g row ∧ b = a.merge c := by
  rw [Pattern.rows] at h
  split at h
  · exact .inl (Rows.mem_continueWith.mp h)
  · exact .inr (Rows.mem_join h)

theorem mem_rows_leftJoin {e : Option Expr} (h : .ok b ∈ (Pattern.leftJoin l r e).rows s g row) :
    ∃ a, .ok a ∈ l.rows s g row ∧ (b = a ∨ .ok b ∈ r.rows s g a ∨
      ∃ c, .ok c ∈ r.rows s g row ∧ b = a.merge c) := by
  have hfound : ∀ {a : Binding}, .ok b ∈ (if r.isLeaf then r.rows s g a else
      Rows.matching (if r.isLeaf then [] else r.rows s g row) a) →
        .ok b ∈ r.rows s g a ∨ ∃ c, .ok c ∈ r.rows s g row ∧ b = a.merge c := by
    intro a hb
    split at hb
    · exact .inl hb
    · exact .inr (Rows.mem_matching hb)
  cases e with
  | none =>
    rw [Pattern.rows] at h
    obtain ⟨a, ha, hb⟩ := Rows.mem_optionally ((List.mem_append.mp h).resolve_left Rows.not_mem_failures)
    exact ⟨a, ha, hb.imp id hfound⟩
  | some e =>
    rw [Pattern.rows] at h
    obtain ⟨a, ha, hb⟩ := Rows.mem_optionally ((List.mem_append.mp h).resolve_left Rows.not_mem_failures)
    exact ⟨a, ha, hb.imp id fun hb => hfound (List.mem_filter.mp hb).1⟩

end Parts

theorem Pattern.MakesNone.rows {s : Surroundings} (hd : s.dataset.Unreserved) {p : Pattern}
    (hp : p.MakesNone) : ∀ {g : Option NamePattern} {row b : Binding}
      {R : Variable → Term → Prop}, row.All R → (∀ x t, R x t → t.isReserved = false) →
      (∀ x ∈ p.columns g, ∀ t, t.isReserved = false → R x t) → .ok b ∈ p.rows s g row →
      b.All R := by
  induction p with
  | bgp ps =>
    intro g row b R hrow hR hcolumns h
    exact Dataset.all_matchBasic hd hrow hcolumns (Rows.mem_ofBindings.mp h)
  | path su p o =>
    intro g row b R hrow hR hcolumns h
    exact Dataset.all_matchPath hd hp.1 hp.2 hrow hR hcolumns (Rows.mem_ofBindings.mp h)
  | join l r ihl ihr =>
    intro g row b R hrow hR hcolumns h
    have hleft := fun x hx => hcolumns x (List.mem_append_left _ hx)
    have hright := fun x hx => hcolumns x (List.mem_append_right _ hx)
    rcases mem_rows_join h with ⟨a, ha, hb⟩ | ⟨a, c, ha, hc, rfl⟩
    · exact ihr hp.2 (ihl hp.1 hrow hR hleft ha) hR hright hb
    · exact (ihl hp.1 hrow hR hleft ha).merge (ihr hp.2 hrow hR hright hc)
  | leftJoin l r e ihl ihr =>
    intro g row b R hrow hR hcolumns h
    have hleft := fun x hx => hcolumns x (List.mem_append_left _ hx)
    have hright := fun x hx => hcolumns x (List.mem_append_right _ hx)
    obtain ⟨a, ha, rfl | hb | ⟨c, hc, rfl⟩⟩ := mem_rows_leftJoin h
    · exact ihl hp.1 hrow hR hleft ha
    · exact ihr hp.2 (ihl hp.1 hrow hR hleft ha) hR hright hb
    · exact (ihl hp.1 hrow hR hleft ha).merge (ihr hp.2 hrow hR hright hc)
  | lateral l r ihl ihr =>
    intro g row b R hrow hR hcolumns h
    obtain ⟨a, ha, hb⟩ := Rows.mem_continueWith.mp h
    exact ihr hp.2 (ihl hp.1 hrow hR (fun x hx => hcolumns x (List.mem_append_left _ hx)) ha) hR
      (fun x hx => hcolumns x (List.mem_append_right _ hx)) hb
  | filter e p ih =>
    intro g row b R hrow hR hcolumns h
    exact ih hp hrow hR hcolumns (List.mem_filter.mp h).1
  | union l r ihl ihr =>
    intro g row b R hrow hR hcolumns h
    rcases List.mem_append.mp h with h | h
    · exact ihl hp.1 hrow hR (fun x hx => hcolumns x (List.mem_append_left _ hx)) h
    · exact ihr hp.2 hrow hR (fun x hx => hcolumns x (List.mem_append_right _ hx)) h
  | graph name p ih =>
    intro g row b R hrow hR hcolumns h
    exact ih hp hrow hR hcolumns h
  | extend p x e ih =>
    intro g row b R hrow hR hcolumns h
    obtain ⟨a, ha, hb⟩ := Rows.mem_continueWith.mp h
    have haR := ih hp.1 hrow hR (fun y hy => hcolumns y (List.mem_append_left _ hy)) ha
    split at hb
    · rename_i v hv
      obtain rfl := Except.ok.inj (List.mem_singleton.mp hb)
      exact haR.set (hcolumns x (List.mem_append_right _ (List.mem_singleton_self x)) _
        (hp.2.value? (haR.mono hR) hv))
    · exact Except.ok.inj (List.mem_singleton.mp hb) ▸ haR
  | minus l r ihl ihr =>
    intro g row b R hrow hR hcolumns h
    exact ihl hp hrow hR (fun x hx => hcolumns x (List.mem_append_left _ hx))
      (List.mem_filter.mp h).1
  | values xs table =>
    intro g row b R hrow hR hcolumns h
    obtain ⟨cells, hcells, rfl⟩ := Rows.mem_ofTable h
    refine hrow.merge (Binding.all_ofList fun e he => ?_)
    obtain ⟨c, hc, he⟩ := List.mem_filterMap.mp he
    obtain ⟨t, ht, rfl⟩ := Option.map_eq_some_iff.mp he
    refine hcolumns c.1 (List.of_mem_zip hc).1 _ ?_
    rw [Term.isReserved_canonical]
    exact hp cells hcells t (ht ▸ (List.of_mem_zip hc).2)
  | orderBy p keys ih =>
    intro g row b R hrow hR hcolumns h
    exact ih hp hrow hR hcolumns (Rows.mem_orderBy h)
  | project p xs ih =>
    intro g row b R hrow hR hcolumns h
    obtain ⟨a, ha, rfl⟩ := Rows.mem_project h
    -- the part below may bind other variables, which are left out of its rows
    have haclean : a.All fun _ t => t.isReserved = false :=
      ih hp ((hrow.filter _).mono hR) (fun _ _ h => h) (fun _ _ _ h => h) ha
    refine hrow.merge fun e he => ?_
    obtain ⟨he, hx⟩ := List.mem_filter.mp he
    exact hcolumns e.1 (List.contains_iff_mem.mp hx) e.2 (haclean e he)
  | distinct p ih =>
    intro g row b R hrow hR hcolumns h
    exact ih hp hrow hR hcolumns (Rows.mem_distinctFrom h)
  | reduced p ih =>
    intro g row b R hrow hR hcolumns h
    exact ih hp hrow hR hcolumns (Rows.mem_reduceFrom h)
  | slice p start length ih =>
    intro g row b R hrow hR hcolumns h
    exact ih hp hrow hR hcolumns (Rows.mem_slice h)
  | group p keys aggregates ih =>
    intro g row b R hrow hR hcolumns h
    have h := (List.mem_append.mp h).resolve_left Rows.not_mem_failures
    obtain ⟨gr, hgr, rfl⟩ := List.mem_map.mp (Rows.mem_ofBindings.mp h)
    obtain ⟨hkey, hmembers⟩ := Rows.isGroup_of_mem_groups hgr
    have hclean : ∀ a ∈ (p.rows s g row).bindings, a.All fun _ t => t.isReserved = false :=
      fun a ha => ih hp.1 (hrow.mono hR) (fun _ _ h => h) (fun _ _ _ h => h)
        (Rows.mem_bindings.mp ha)
    have hkeys : (Rows.setAll row keys gr.1).All R := by
      refine hrow.foldl_getD fun c hc t ht => ?_
      obtain ⟨hx, ht'⟩ := List.of_mem_zip hc
      refine hcolumns c.1 (List.mem_append_left _ hx) t ?_
      rw [ht] at ht'
      rcases hkey with hnil | ⟨a, ha, hkey⟩
      · rw [hnil] at ht'
        cases ht'
      · obtain ⟨y, _, hy⟩ := List.mem_map.mp (hkey ▸ ht')
        exact (hclean a ha).get? hy
    refine hkeys.foldl_getD fun c hc v hv => ?_
    obtain ⟨a, ha, rfl⟩ := Aggregate.mem_values.mp hc
    refine hcolumns _ (List.mem_append_right _ (a.value_fst ▸ List.mem_map_of_mem ha)) _ ?_
    exact (hp.2 a ha).value (fun m hm => hclean m (hmembers m hm)) hv
  | service name p silent ih =>
    intro g row b R hrow hR hcolumns h
    rw [Pattern.rows] at h
    split at h
    · exact Except.ok.inj (List.mem_singleton.mp h) ▸ hrow
    · cases List.mem_singleton.mp h

/-! ## Simplification -/

section Simplify

theorem Expr.makesNone_simpleBinary (op : BinaryOp) (a b : Expr) :
    (Expr.simpleBinary op a b).MakesNone := by
  have hequal : ∀ op, (((Expr.constantEqual? a b).map Expr.ofBool).getD
      (.binary op a b)).MakesNone := by
    intro op
    cases Expr.constantEqual? a b <;> trivial
  unfold Expr.simpleBinary
  split
  · split
    · trivial
    · split <;> trivial
  · split
    · trivial
    · split <;> trivial
  · exact hequal _
  · exact hequal _
  · trivial

theorem Expr.makesNone_simpleUnary (op : UnaryOp) (a : Expr) :
    (Expr.simpleUnary op a).MakesNone := by
  unfold Expr.simpleUnary
  split <;> trivial

theorem Expr.makesNone_simpleOneOf (a : Expr) (candidates : List Expr) :
    (Expr.simpleOneOf a candidates).MakesNone := by
  unfold Expr.simpleOneOf
  split
  · split <;> trivial
  · split <;> trivial

theorem Expr.makesNone_simpleCond (c : Expr) {a b : Expr} (ha : a.MakesNone) (hb : b.MakesNone) :
    (Expr.simpleCond c a b).MakesNone := by
  unfold Expr.simpleCond
  split
  · exact ha
  · exact hb
  · exact ⟨ha, hb⟩

mutual

theorem Expr.MakesNone.simplify {e : Expr} (he : e.MakesNone) (s : Scope)
    (g : Option NamePattern) : (e.simplify s g).MakesNone := by
  cases e with
  | constant t => exact he
  | var x => trivial
  | binary op a b => exact Expr.makesNone_simpleBinary _ _ _
  | unary op a => exact Expr.makesNone_simpleUnary _ _
  | oneOf a candidates => exact Expr.makesNone_simpleOneOf _ _
  | existence p =>
    rw [Expr.simplify]
    split
    · trivial
    · split <;> trivial
  | bound x =>
    rw [Expr.simplify]
    split <;> trivial
  | cond c a b => exact Expr.makesNone_simpleCond _ (he.1.simplify s g) (he.2.simplify s g)
  | coalesce arguments => exact Expr.allMakeNone_simplifyAll he s g
  | call f arguments => exact he

theorem Expr.allMakeNone_simplifyAll {es : List Expr} (hes : Expr.AllMakeNone es) (s : Scope)
    (g : Option NamePattern) : Expr.AllMakeNone (Expr.simplifyAll es s g) := by
  cases es with
  | nil => trivial
  | cons e rest => exact ⟨hes.1.simplify s g, Expr.allMakeNone_simplifyAll hes.2 s g⟩

end

theorem Aggregate.makesNone_simplifyAll {aggregates : List Aggregate}
    (h : ∀ a ∈ aggregates, a.MakesNone) (s : Scope) (g : Option NamePattern) :
    ∀ a ∈ Aggregate.simplifyAll aggregates s g, a.MakesNone := by
  induction aggregates with
  | nil => exact h
  | cons a rest ih =>
    intro b hb
    rcases List.mem_cons.mp hb with rfl | hb
    · have ha := h a List.mem_cons_self
      cases a with
      | countAll x distinct => trivial
      | apply x f distinct e => exact Expr.MakesNone.simplify ha s g
    · exact ih (fun b hb => h b (List.mem_cons_of_mem _ hb)) b hb

namespace Pattern

theorem makesNone_empty : empty.MakesNone := fun _ h => by cases h

theorem makesNone_unit : unit.MakesNone := by
  intro cells hcells t ht
  obtain rfl := List.mem_singleton.mp hcells
  cases ht

theorem MakesNone.simplify {p : Pattern} (hp : p.MakesNone) : ∀ (s : Scope)
    (g : Option NamePattern), (p.simplify s g).MakesNone := by
  induction p with
  | bgp triples =>
    intro s g
    rw [Pattern.simplify]
    split
    · exact makesNone_unit
    · trivial
  | path su p o => exact fun _ _ => hp
  | join l r ihl ihr =>
    intro s g
    have hl := ihl hp.1 s g
    have hr := ihr hp.2 s g
    rw [Pattern.simplify, simpleJoin]
    split_ifs
    exacts [makesNone_empty, hr, hl, ⟨hl, hr⟩]
  | lateral l r ihl ihr =>
    intro s g
    have hl := ihl hp.1 s g
    have hr := ihr hp.2 (s.both ((l.simplify s g).scope g)) g
    rw [Pattern.simplify, simpleLateral]
    split_ifs
    exacts [makesNone_empty, hr, hl, ⟨hl, hr⟩]
  | leftJoin l r e ihl ihr =>
    intro s g
    have hl := ihl hp.1 s g
    have hr := ihr hp.2 s g
    have hsimple : ∀ c, (simpleLeftJoin (l.simplify s g) (r.simplify s g) c).MakesNone := by
      intro c
      unfold simpleLeftJoin
      split_ifs
      exacts [makesNone_empty, hl, ⟨hl, hr⟩]
    cases e with
    | none => exact hsimple _
    | some e => exact hsimple _
  | filter e p ih =>
    intro s g
    have h := ih hp s g
    rw [Pattern.simplify, simpleFilter]
    split_ifs
    · exact makesNone_empty
    · exact makesNone_empty
    · split
      exacts [h, makesNone_empty, h]
  | union l r ihl ihr =>
    intro s g
    have hl := ihl hp.1 s g
    have hr := ihr hp.2 s g
    rw [Pattern.simplify, simpleUnion]
    split_ifs
    exacts [hr, hl, ⟨hl, hr⟩]
  | graph name p ih =>
    intro s g
    rw [Pattern.simplify]
    split
    · exact makesNone_empty
    · exact ih hp s (some name)
  | extend p x e ih =>
    intro s g
    have h := ih hp.1 s g
    rw [Pattern.simplify, simpleExtend]
    split_ifs
    exacts [makesNone_empty, h, ⟨h, hp.2.simplify _ g⟩]
  | minus l r ihl ihr =>
    intro s g
    have hl := ihl hp s g
    rw [Pattern.simplify, simpleMinus]
    split_ifs
    exacts [makesNone_empty, hl, hl]
  | values xs table =>
    intro s g
    rw [Pattern.simplify]
    split
    · exact makesNone_empty
    · exact hp
  | project p xs ih => exact fun s g => ih hp _ _
  | orderBy p keys ih | distinct p ih | reduced p ih | slice p start length ih =>
    intro s g
    have h := ih hp s g
    rw [Pattern.simplify, simpleUnary]
    split_ifs
    exacts [makesNone_empty, h]
  | group p keys aggregates ih =>
    exact fun s g => ⟨ih hp.1 s g, Aggregate.makesNone_simplifyAll hp.2 _ g⟩
  | service name p silent ih => exact fun _ _ => trivial

end Pattern

end Simplify

end SparqlBind
