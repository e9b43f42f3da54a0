import SparqlBind.Proofs.Inlining.OptionalRows
import SparqlBind.Proofs.Semantics.JoinLaws

/-!
# Joins in memory obey the laws of joins

The joins of lists of bindings look one row up in another, and the entries of the right row are set
on the left one. Seen as mappings the rows do not show it: the results are those of the operators on
mappings, row by row, and so the laws of joins hold up to the order of the rows and of the variables
in them.
-/

noncomputable section

open scoped Classical

namespace SparqlBind

/-! ## Rows up to order -/

/-- The bindings differ in the order of their variables only. -/
def Binding.Same (b c : Binding) : Prop := b.entries.Perm c.entries

/-- The rows differ in their order, and in the order of their variables. -/
def SameRows (left right : List Binding) : Prop :=
  ∃ between, left.Perm between ∧ List.Forall₂ Binding.Same between right

namespace Binding

variable {b c : Binding}

theorem nodup_entries (hb : b.vars.Nodup) : b.entries.Nodup := .of_map _ hb

theorem Same.vars_nodup (h : b.Same c) (hb : b.vars.Nodup) : c.vars.Nodup :=
  (h.map _).nodup_iff.mp hb

theorem same_iff (hb : b.vars.Nodup) (hc : c.vars.Nodup) : b.Same c ↔ b.mapping = c.mapping := by
  have hmem : b.Same c ↔ ∀ e, e ∈ b.entries ↔ e ∈ c.entries :=
    List.perm_ext_iff_of_nodup (nodup_entries hb) (nodup_entries hc)
  have hget : b.mapping = c.mapping ↔ ∀ x t, b.get? x = some t ↔ c.get? x = some t :=
    funext_iff.trans (forall_congr' fun x => Option.ext_iff)
  rw [hmem, hget, Prod.forall]
  exact forall₂_congr fun x t =>
    iff_congr (lookup_eq_some_iff_mem hb).symm (lookup_eq_some_iff_mem hc).symm

end Binding

section Rows

variable {left right : List Binding}

theorem DistinctVars.of_perm (h : DistinctVars left) (hp : left.Perm right) : DistinctVars right :=
  fun b hb => h b (hp.mem_iff.mpr hb)

theorem DistinctVars.of_same (hl : DistinctVars left) (h : List.Forall₂ Binding.Same left right) :
    DistinctVars right := by
  induction h with
  | nil => exact hl
  | cons hsame _ ih =>
    obtain ⟨hb, hrest⟩ := List.forall_mem_cons.mp hl
    exact List.forall_mem_cons.mpr ⟨hsame.vars_nodup hb, ih hrest⟩

/-- Rows with distinct variables are the same, one by one, when their mappings are. -/
theorem forall₂_same_iff (hl : DistinctVars left) (hr : DistinctVars right) :
    List.Forall₂ Binding.Same left right ↔
      left.map Binding.mapping = right.map Binding.mapping := by
  induction left generalizing right with
  | nil =>
    rw [List.forall₂_nil_left_iff, List.map_nil, ← List.map_eq_nil_iff (f := Binding.mapping)]
    exact eq_comm
  | cons b rest ih =>
    cases right with
    | nil => exact iff_of_false (by simp) (by simp)
    | cons c rest' =>
      obtain ⟨hb, hrest⟩ := List.forall_mem_cons.mp hl
      obtain ⟨hc, hrest'⟩ := List.forall_mem_cons.mp hr
      rw [List.forall₂_cons, List.map_cons, List.map_cons, List.cons.injEq,
        Binding.same_iff hb hc, ih hrest hrest']

/-- Rows with distinct variables are the same up to order when they make the same bag. -/
theorem sameRows_iff (hl : DistinctVars left) (hr : DistinctVars right) :
    SameRows left right ↔ Bag.ofRows left = Bag.ofRows right := by
  unfold SameRows Bag.ofRows
  rw [Multiset.coe_eq_coe]
  constructor
  · rintro ⟨between, hperm, hsame⟩
    rw [← (forall₂_same_iff (hl.of_perm hperm) hr).mp hsame]
    exact hperm.map _
  · intro hperm
    have hcomp : Relation.Comp (· = List.map Binding.mapping ·) List.Perm
        (right.map Binding.mapping) left := by
      rw [List.eq_map_comp_perm]
      exact hperm.symm
    obtain ⟨between, hmap, hbetween⟩ := hcomp
    exact ⟨between, hbetween.symm,
      (forall₂_same_iff (hl.of_perm hbetween.symm) hr).mpr hmap.symm⟩

theorem SameRows.of_perm (h : left.Perm right) : SameRows left right :=
  ⟨right, h, List.forall₂_same.mpr fun _ _ => List.Perm.refl _⟩

end Rows

namespace Join

variable {A B C : List Binding} {l : Binding}

/-! ## The results as mappings -/

/-- What a mapping is continued to by compatible rows, where the condition holds. -/
def continued (holds : Mapping → Bool) (rows : List Mapping) (μ : Mapping) : List Mapping :=
  (rows.filter fun ν => μ.Compatible ν && holds (μ.merge ν)).map μ.merge

def continuedOrAlone (holds : Mapping → Bool) (rows : List Mapping) (μ : Mapping) : List Mapping :=
  let found := continued holds rows μ
  if found.isEmpty then [μ] else found

/-- The rows of a join are the merges of compatible rows. -/
theorem exists_of_mem_join (hA : DistinctVars A) (hB : DistinctVars B) {b : Binding} (hb : b ∈ join A B) :
    ∃ l ∈ A, ∃ r ∈ B, l.mapping.Compatible r.mapping ∧ b.mapping = l.mapping.merge r.mapping := by
  obtain ⟨l, hl, hb⟩ := List.mem_flatMap.mp hb
  obtain ⟨r, hr, rfl⟩ := List.mem_map.mp hb
  obtain ⟨hr, hc⟩ := List.mem_filter.mp hr
  exact ⟨l, hl, r, hr, (Binding.compatible_iff_mapping (hA l hl)).mp hc,
    mapping_merge_of_compatible (hA l hl) (hB r hr) hc⟩

theorem map_mapping_kept (hl : l.vars.Nodup) (hB : DistinctVars B) (holds : Mapping → Bool) :
    ((B.filter fun r => l.compatible r && holds (l.merge r).mapping).map l.merge).map
        Binding.mapping =
      continued holds (B.map Binding.mapping) l.mapping := by
  have hfilter : B.filter (fun r => l.compatible r && holds (l.merge r).mapping) =
      B.filter ((fun ν => l.mapping.Compatible ν && holds (l.mapping.merge ν)) ∘
        Binding.mapping) := by
    refine List.filter_congr fun r hr => ?_
    rw [Function.comp_apply]
    by_cases hc : l.compatible r = true
    · rw [mapping_merge_of_compatible hl (hB r hr) hc, hc,
        decide_eq_true ((Binding.compatible_iff_mapping hl).mp hc)]
    · have hc' : ¬ l.mapping.Compatible r.mapping := hc ∘ (Binding.compatible_iff_mapping hl).mpr
      rw [Bool.eq_false_iff.mpr hc, decide_eq_false hc', Bool.false_and, Bool.false_and]
  rw [continued, hfilter, List.filter_map, List.map_map, List.map_map]
  refine List.map_congr_left fun r hr => ?_
  obtain ⟨hr, hkept⟩ := List.mem_filter.mp hr
  have hc : l.mapping.Compatible r.mapping :=
    of_decide_eq_true (Bool.and_eq_true_iff.mp hkept).1
  exact mapping_merge_of_compatible hl (hB r hr) ((Binding.compatible_iff_mapping hl).mpr hc)

theorem map_mapping_matching (hl : l.vars.Nodup) (hB : DistinctVars B) :
    (matching l B).map Binding.mapping =
      continued (fun _ => true) (B.map Binding.mapping) l.mapping := by
  rw [← map_mapping_kept hl hB fun _ => true]
  simp only [Bool.and_true, matching]

theorem map_mapping_optional (hl : l.vars.Nodup) (hB : DistinctVars B) (holds : Mapping → Bool) :
    (optional (fun b => holds b.mapping) B l).map Binding.mapping =
      continuedOrAlone holds (B.map Binding.mapping) l.mapping := by
  rw [continuedOrAlone, ← map_mapping_kept hl hB holds]
  unfold optional
  simp only [List.isEmpty_map]
  split
  · rfl
  · rfl

theorem map_mapping_flatMap {f : Binding → List Binding} {F : Mapping → List Mapping}
    (h : ∀ l ∈ A, (f l).map Binding.mapping = F l.mapping) :
    (A.flatMap f).map Binding.mapping = (A.map Binding.mapping).flatMap F := by
  rw [List.map_flatMap, List.flatMap_map]
  exact List.flatMap_congr h

theorem map_mapping_minus (hA : DistinctVars A) :
    (minus A B).map Binding.mapping = (A.map Binding.mapping).filter fun μ =>
      ¬ ∃ ν ∈ Bag.ofRows B, μ.Compatible ν ∧ μ.Shares ν := by
  have hfilter : minus A B = A.filter ((fun μ : Mapping =>
      decide (¬ ∃ ν ∈ Bag.ofRows B, μ.Compatible ν ∧ μ.Shares ν)) ∘ Binding.mapping) := by
    refine List.filter_congr fun l hl => ?_
    rw [Function.comp_apply, Bool.eq_iff_iff, decide_eq_true_iff, Bool.not_eq_true',
      ← Bool.not_eq_true, excludes_iff (hA l hl)]
  rw [hfilter, List.filter_map]

/-! ## Units and sums -/

theorem matching_empty_right (l : Binding) : matching l [.empty] = [l] := by
  have hc : l.compatible .empty = true := List.all_eq_true.mpr fun _ _ => rfl
  unfold matching
  rw [List.filter_cons_of_pos hc]
  rfl

theorem join_empty_right (A : List Binding) : join A [.empty] = A := by
  have hrow : (fun l => matching l [.empty]) = fun l : Binding => [l] :=
    funext matching_empty_right
  unfold join
  rw [hrow, List.flatMap_singleton']

theorem join_nil_right (A : List Binding) : join A [] = [] := List.flatMap_eq_nil_iff.mpr fun _ _ => rfl

theorem join_append_left (A B C : List Binding) : join (A ++ B) C = join A C ++ join B C :=
  List.flatMap_append

theorem join_append_right (A B C : List Binding) :
    (join A (B ++ C)).Perm (join A B ++ join A C) := by
  have hrow : (fun l => matching l (B ++ C)) = fun l => matching l B ++ matching l C := by
    funext l
    rw [matching, List.filter_append, List.map_append]
    rfl
  rw [join, hrow]
  exact (List.flatMap_append_perm A _ _).symm

theorem minus_minus (A B C : List Binding) : minus (minus A B) C = minus A (B ++ C) := by
  unfold minus
  rw [List.filter_filter]
  refine List.filter_congr fun l _ => ?_
  rw [excludes, excludes, excludes, List.any_append, Bool.not_or, Bool.and_comm]

/-- A row is continued or stands for itself, so the rows are those of a join and the rest. -/
theorem flatMap_optional (A B : List Binding) :
    (A.flatMap (optional (fun _ => true) B)).Perm
      (join A B ++ A.filter fun l => !B.any (l.compatible ·)) := by
  induction A with
  | nil => exact List.Perm.refl _
  | cons l rest ih =>
    have hfound : (B.filter fun r => l.compatible r && true).map l.merge = matching l B := by
      simp only [Bool.and_true, matching]
    have hjoin : join (l :: rest) B = matching l B ++ join rest B := List.flatMap_cons
    rw [List.flatMap_cons, hjoin, List.append_assoc]
    unfold optional
    rw [hfound]
    dsimp only
    by_cases hany : B.any (l.compatible ·) = true
    · have hne : matching l B ≠ [] := by
        obtain ⟨r, hr, hc⟩ := List.any_eq_true.mp hany
        exact List.ne_nil_of_mem (List.mem_map_of_mem (List.mem_filter.mpr ⟨hr, hc⟩))
      rw [if_neg (by simpa using hne), List.filter_cons_of_neg (by simp [hany])]
      exact ih.append_left _
    · have hnil : matching l B = [] := by
        rw [matching, List.map_eq_nil_iff, List.filter_eq_nil_iff]
        exact fun r hr hc => hany (List.any_eq_true.mpr ⟨r, hr, hc⟩)
      rw [hnil, List.filter_cons_of_pos (by simp [hany])]
      exact (ih.cons l).trans List.perm_middle.symm

/-! ## The laws -/

/-- Without a condition no clock is read. -/
theorem leftJoin_none (context : EvaluationContext) (A B : List Binding) :
    leftJoin context A B none = pure (A.flatMap (optional (fun _ => true) B)) := by
  rw [← keepMatched_eq_optional]
  rfl

theorem leftJoin_some {context : EvaluationContext} {e : Expr} {holds : Mapping → Bool}
    (h : context.Filters e holds) (hrow : rowVariable ∉ e.names) (A B : List Binding) :
    leftJoin context A B (some e) = (do
      context.checkDeadline
      pure (A.flatMap (optional (fun b => holds b.mapping.presented) B))) := by
  change (do let flags ← satisfied context e _; pure (keepMatched _ flags)) = _
  rw [satisfied_of_filters h hrow, bind_assoc]
  simp only [pure_bind, keepMatched_eq_optional]

theorem distinctVars_optional (hA : DistinctVars A) (keep : Binding → Bool) :
    DistinctVars (A.flatMap (optional keep B)) := by
  rw [← keepMatched_eq_optional]
  exact distinctVars_keepMatched hA

section Order
variable {A' B' : List Binding}
variable (hA : DistinctVars A) (hB : DistinctVars B)
variable (hsameA : List.Forall₂ Binding.Same A A') (hsameB : List.Forall₂ Binding.Same B B')
include hA hB hsameA hsameB

theorem join_same : List.Forall₂ Binding.Same (join A B) (join A' B') := by
  have hA' := hA.of_same hsameA
  have hB' := hB.of_same hsameB
  rw [forall₂_same_iff (distinctVars_join hA) (distinctVars_join hA'), join, join,
    map_mapping_flatMap fun l hl => map_mapping_matching (hA l hl) hB,
    map_mapping_flatMap fun l hl => map_mapping_matching (hA' l hl) hB',
    (forall₂_same_iff hA hA').mp hsameA, (forall₂_same_iff hB hB').mp hsameB]

theorem minus_same : List.Forall₂ Binding.Same (minus A B) (minus A' B') := by
  have hA' := hA.of_same hsameA
  have hB' := hB.of_same hsameB
  have hrows : Bag.ofRows B = Bag.ofRows B' :=
    congrArg Multiset.ofList ((forall₂_same_iff hB hB').mp hsameB)
  rw [forall₂_same_iff (distinctVars_minus hA) (distinctVars_minus hA'), map_mapping_minus hA,
    map_mapping_minus hA', (forall₂_same_iff hA hA').mp hsameA, hrows]

theorem optional_same (holds : Mapping → Bool) :
    List.Forall₂ Binding.Same (A.flatMap (optional (fun b => holds b.mapping) B))
      (A'.flatMap (optional (fun b => holds b.mapping) B')) := by
  have hA' := hA.of_same hsameA
  have hB' := hB.of_same hsameB
  rw [forall₂_same_iff (distinctVars_optional hA _) (distinctVars_optional hA' _),
    map_mapping_flatMap fun l hl => map_mapping_optional (hA l hl) hB holds,
    map_mapping_flatMap fun l hl => map_mapping_optional (hA' l hl) hB' holds,
    (forall₂_same_iff hA hA').mp hsameA, (forall₂_same_iff hB hB').mp hsameB]

end Order

/-- Joins in memory commute, associate, have a unit and a zero and go through sums, and no row of one
contradicts a row it is made of. Rows are taken away from the same rows together or one list after the
other, and an optional part is a join with the rows that nothing continues. The order of variables in
a row has no influence. -/
theorem obeys_mapping_algebra (context : EvaluationContext) (hA : DistinctVars A)
    (hB : DistinctVars B) (hC : DistinctVars C) :
    (SameRows (join A B) (join B A) ∧
      SameRows (join (join A B) C) (join A (join B C)) ∧
      (SameRows (join A [.empty]) A ∧ SameRows (join [.empty] A) A) ∧
      (join A [] = [] ∧ join [] A = []) ∧
      SameRows (join (A ++ B) C) (join A C ++ join B C) ∧
      SameRows (join A (B ++ C)) (join A B ++ join A C)) ∧
    (∀ b ∈ join A B, ∃ l ∈ A, ∃ r ∈ B, ∀ x,
      (∀ t u, l.get? x = some t → r.get? x = some u → t = u) ∧
      b.get? x = (l.get? x).or (r.get? x)) ∧
    (minus (minus A B) C = minus A (B ++ C) ∧ (minus A B).Sublist A) ∧
    (∃ rows, leftJoin context A B none = pure rows ∧
      SameRows rows (join A B ++ A.filter fun l => !B.any (l.compatible ·))) ∧
    ∀ A' B', List.Forall₂ Binding.Same A A' → List.Forall₂ Binding.Same B B' →
      List.Forall₂ Binding.Same (join A B) (join A' B') ∧
      List.Forall₂ Binding.Same (minus A B) (minus A' B') ∧
      (∃ rows rows', leftJoin context A B none = pure rows ∧
        leftJoin context A' B' none = pure rows' ∧ List.Forall₂ Binding.Same rows rows') ∧
      ∀ e holds, context.Filters e holds → rowVariable ∉ e.names → ∃ rows rows',
        leftJoin context A B (some e) = (do context.checkDeadline; pure rows) ∧
        leftJoin context A' B' (some e) = (do context.checkDeadline; pure rows') ∧
        List.Forall₂ Binding.Same rows rows' := by
  have hunit : DistinctVars [.empty] := List.forall_mem_singleton.mpr List.nodup_nil
  have hright : SameRows (join A [.empty]) A := .of_perm (.of_eq (join_empty_right A))
  refine ⟨⟨?_, ?_, ⟨hright, ?_⟩, ⟨join_nil_right A, rfl⟩, ?_, ?_⟩, ?_, ?_, ?_, ?_⟩
  · rw [sameRows_iff (distinctVars_join hA) (distinctVars_join hB), ofRows_join hA hB,
      ofRows_join hB hA, Bag.join_comm]
  · rw [sameRows_iff (distinctVars_join (distinctVars_join hA)) (distinctVars_join hA),
      ofRows_join (distinctVars_join hA) hC, ofRows_join hA hB,
      ofRows_join hA (distinctVars_join hB), ofRows_join hB hC, Bag.join_assoc]
  · rw [sameRows_iff (distinctVars_join hunit) hA, ofRows_join hunit hA, Bag.join_comm,
      ← ofRows_join hA hunit, join_empty_right]
  · exact .of_perm (.of_eq (join_append_left A B C))
  · exact .of_perm (join_append_right A B C)
  · intro b hb
    obtain ⟨l, hl, r, hr, hc, hmerge⟩ := exists_of_mem_join hA hB hb
    exact ⟨l, hl, r, hr, fun x => ⟨hc x, congrFun hmerge x⟩⟩
  · exact ⟨minus_minus A B C, List.filter_sublist⟩
  · exact ⟨_, leftJoin_none context A B, .of_perm (flatMap_optional A B)⟩
  · intro A' B' hsameA hsameB
    refine ⟨join_same hA hB hsameA hsameB, minus_same hA hB hsameA hsameB, ?_, ?_⟩
    · exact ⟨_, _, leftJoin_none context A B, leftJoin_none context A' B',
        optional_same hA hB hsameA hsameB fun _ => true⟩
    · intro e holds hfilters hrow
      exact ⟨_, _, leftJoin_some hfilters hrow A B, leftJoin_some hfilters hrow A' B',
        optional_same hA hB hsameA hsameB fun μ => holds μ.presented⟩

end Join

open Sample in
/-- A row without variables goes with every row, and a name that no row has is left over. -/
theorem Join.obeys_mapping_algebra_partial :
    (DistinctVars [lone, bound "v", bound "u"] ∧ DistinctVars [blankName, bound "w"] ∧
      DistinctVars [.empty, bound "w"]) ∧
    SameRows (join (join [lone, bound "v", bound "u"] [blankName, bound "w"]) [.empty, bound "w"])
      [lone.merge blankName, lone.merge (bound "w"), lone.merge (bound "w"),
        (bound "v").merge blankName] ∧
    ∃ rows, leftJoin (stored []) [lone, bound "v", bound "u"] [blankName, bound "w"] none =
        pure rows ∧
      SameRows rows [lone.merge blankName, lone.merge (bound "w"), (bound "v").merge blankName,
        bound "u"] := by
  have hA : DistinctVars [lone, bound "v", bound "u"] := by unfold DistinctVars; decide
  have hB : DistinctVars [blankName, bound "w"] := by unfold DistinctVars; decide
  have hC : DistinctVars [.empty, bound "w"] := by unfold DistinctVars; decide
  obtain ⟨⟨_, hassoc, _⟩, _, _, hleft, _⟩ := obeys_mapping_algebra (stored []) hA hB hC
  exact ⟨⟨hA, hB, hC⟩, hassoc, hleft⟩

end SparqlBind

end
