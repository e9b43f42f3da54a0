import Mathlib.Data.List.Nodup
import SparqlBind.Binding
import SparqlBind.Sparql.Algebra

/-!
# Bindings as finite maps

Every operation on bindings through `get?` and through the list of variables, which it keeps
distinct. What a binding says of a variable does not depend on its place; the order of the variables
only says in which columns a row is written.
-/

namespace SparqlBind

/-! ## Lists of distinct variables -/

theorem mem_addVariable {xs : List Variable} {x y : Variable} :
    y ∈ addVariable xs x ↔ y ∈ xs ∨ y = x := by
  unfold addVariable
  split
  · exact ⟨.inl, fun h => h.elim id (· ▸ ‹x ∈ xs›)⟩
  · simp

theorem nodup_addVariable {xs : List Variable} {x : Variable} (h : xs.Nodup) :
    (addVariable xs x).Nodup := by
  unfold addVariable
  split
  · exact h
  · rename_i hx
    exact List.nodup_append.mpr ⟨h, by simp, by rintro y hy _ hz rfl; exact hx (by simp_all)⟩

theorem mem_unionVariables {xs ys : List Variable} {x : Variable} :
    x ∈ unionVariables xs ys ↔ x ∈ xs ∨ x ∈ ys := by
  unfold unionVariables
  induction ys generalizing xs with
  | nil => simp
  | cons y ys ih => rw [List.foldl_cons, ih, mem_addVariable, List.mem_cons, or_assoc]

theorem nodup_unionVariables {xs : List Variable} (ys : List Variable) (h : xs.Nodup) :
    (unionVariables xs ys).Nodup := by
  unfold unionVariables
  induction ys generalizing xs with
  | nil => exact h
  | cons y ys ih => exact ih (nodup_addVariable h)

theorem unionVariables_eq_append {xs ys : List Variable} (hys : ys.Nodup)
    (h : ∀ y ∈ ys, y ∉ xs) : unionVariables xs ys = xs ++ ys := by
  unfold unionVariables
  induction ys generalizing xs with
  | nil => simp
  | cons y ys ih =>
    obtain ⟨hy, hrest⟩ := List.nodup_cons.mp hys
    have hadd : addVariable xs y = xs ++ [y] := if_neg (h y List.mem_cons_self)
    rw [List.foldl_cons, hadd, ih hrest, List.append_assoc, List.singleton_append]
    intro z hz hmem
    rcases List.mem_append.mp hmem with hmem | hmem
    · exact h z (List.mem_cons_of_mem y hz) hmem
    · exact hy (List.mem_singleton.mp hmem ▸ hz)

theorem unionVariables_nil {xs : List Variable} (h : xs.Nodup) : unionVariables [] xs = xs :=
  unionVariables_eq_append h fun _ _ => List.not_mem_nil

namespace Pattern

theorem mem_inScope {p : Pattern} {x : Variable} : x ∈ p.inScope ↔ x ∈ p.mentions := by
  simp [inScope, mem_unionVariables]

theorem nodup_inScope (p : Pattern) : p.inScope.Nodup := nodup_unionVariables _ .nil

end Pattern

namespace Binding

variable {b left right : Binding} {x y : Variable} {t : Term}

theorem contains_iff_mem_vars : b.contains x = true ↔ x ∈ b.vars := by
  unfold contains get? vars
  rw [List.lookup_isSome_iff, List.mem_map]
  constructor
  · rintro ⟨e, he, hx⟩
    exact ⟨e, he, (beq_iff_eq.mp hx).symm⟩
  · rintro ⟨e, he, rfl⟩
    exact ⟨e, he, beq_self_eq_true _⟩

theorem get?_eq_none_iff : b.get? x = none ↔ x ∉ b.vars := by
  rw [← contains_iff_mem_vars, contains, Bool.not_eq_true, Option.isSome_eq_false_iff,
    Option.isNone_iff_eq_none]

theorem get?_ne_none_iff : b.get? x ≠ none ↔ x ∈ b.vars := by
  rw [Ne, get?_eq_none_iff, not_not]

@[simp] theorem get?_empty : empty.get? x = none := rfl

theorem lookup_cons (e : Variable × Term) (rest : List (Variable × Term)) :
    (e :: rest).lookup x = if x = e.1 then some e.2 else rest.lookup x := by
  rw [List.lookup_cons]
  by_cases hx : x = e.1
  · simp [hx]
  · simp [hx, beq_eq_false_iff_ne.mpr hx]

/-! ## Setting and forgetting -/

theorem get?_set : (b.set x t).get? y = if y = x then some t else b.get? y := by
  unfold set get?
  induction b.entries with
  | nil => rw [setEntries, lookup_cons]
  | cons e rest ih =>
    by_cases he : e.1 = x
    · simp only [setEntries, he, if_true, lookup_cons]
      split <;> rfl
    · simp only [setEntries, he, if_false, lookup_cons, ih]
      by_cases hy : y = e.1
      · simp [hy, he]
      · simp [hy]

theorem vars_set : (b.set x t).vars = addVariable b.vars x := by
  unfold set vars addVariable
  induction b.entries with
  | nil => simp [setEntries]
  | cons e rest ih =>
    by_cases he : e.1 = x
    · simp [setEntries, he]
    · simp only [setEntries, he, if_false, List.map_cons, ih, List.mem_cons, Ne.symm he, false_or]
      split <;> rfl

theorem nodup_set (h : b.vars.Nodup) : (b.set x t).vars.Nodup := by
  rw [vars_set]
  exact nodup_addVariable h

theorem get?_forget : (b.forget x).get? y = if y = x then none else b.get? y := by
  unfold forget get?
  induction b.entries with
  | nil => simp
  | cons e rest ih =>
    by_cases he : e.1 = x
    · rw [List.filter_cons_of_neg (by simp [he]), ih]
      by_cases hy : y = x
      · simp [hy]
      · simp [hy, lookup_cons, he]
    · rw [List.filter_cons_of_pos (by simp [he]), lookup_cons, lookup_cons, ih]
      by_cases hy : y = e.1
      · simp [hy, he]
      · simp [hy]

theorem forget_set : (b.set x t).forget x = b.forget x := by
  have hentries : ∀ entries : List (Variable × Term),
      (setEntries x t entries).filter (fun e => e.1 ≠ x) = entries.filter fun e => e.1 ≠ x := by
    intro entries
    induction entries with
    | nil => simp [setEntries]
    | cons e rest ih =>
      by_cases he : e.1 = x
      · simp [setEntries, he]
      · simp only [setEntries, he, if_false, List.filter_cons, ih]
  exact congrArg Binding.mk (hentries b.entries)

/-! ## Setting many variables -/

/-- The entries set on top of a binding: the last one of a variable counts. -/
theorem get?_foldl_set (entries : List (Variable × Term)) (b : Binding) :
    (entries.foldl (fun b e => b.set e.1 e.2) b).get? x =
      (entries.reverse.lookup x).or (b.get? x) := by
  induction entries generalizing b with
  | nil => rfl
  | cons e rest ih =>
    rw [List.foldl_cons, ih, get?_set, List.reverse_cons, List.lookup_append, lookup_cons]
    by_cases hx : x = e.1
    · simp [hx]
    · simp [hx]

theorem vars_foldl_set (entries : List (Variable × Term)) (b : Binding) :
    (entries.foldl (fun b e => b.set e.1 e.2) b).vars =
      unionVariables b.vars (entries.map (·.1)) := by
  induction entries generalizing b with
  | nil => rfl
  | cons e rest ih => rw [List.foldl_cons, ih, vars_set]; rfl

theorem lookup_eq_some_iff_mem {entries : List (Variable × Term)} (h : (entries.map (·.1)).Nodup) :
    entries.lookup x = some t ↔ (x, t) ∈ entries := by
  induction entries with
  | nil => simp
  | cons e rest ih =>
    obtain ⟨y, u⟩ := e
    rw [List.map_cons, List.nodup_cons] at h
    rw [lookup_cons, List.mem_cons]
    by_cases hx : x = y
    · subst hx
      have hnot : (x, t) ∉ rest := fun hm => h.1 (List.mem_map.mpr ⟨_, hm, rfl⟩)
      simp [hnot, eq_comm]
    · simp [hx, ih h.2]

/-- With distinct variables the order of the entries does not matter. -/
theorem lookup_reverse {entries : List (Variable × Term)} (h : (entries.map (·.1)).Nodup) :
    entries.reverse.lookup x = entries.lookup x := by
  have hr : (entries.reverse.map (·.1)).Nodup := by
    rw [List.map_reverse]
    exact List.nodup_reverse.mpr h
  apply Option.ext
  intro t
  rw [lookup_eq_some_iff_mem hr, lookup_eq_some_iff_mem h, List.mem_reverse]

theorem get?_ofList (entries : List (Variable × Term)) :
    (ofList entries).get? x = entries.reverse.lookup x := by
  rw [ofList, get?_foldl_set, get?_empty, Option.or_none]

theorem vars_ofList (entries : List (Variable × Term)) :
    (ofList entries).vars = unionVariables [] (entries.map (·.1)) :=
  vars_foldl_set entries empty

theorem nodup_ofList (entries : List (Variable × Term)) : (ofList entries).vars.Nodup := by
  rw [vars_ofList]
  exact nodup_unionVariables _ .nil

theorem nodup_ofSolution (s : Solution) : (ofSolution s).vars.Nodup := nodup_ofList s.bound

theorem mem_vars_ofSolution {s : Solution} :
    x ∈ (ofSolution s).vars ↔ ∃ t, (x, t) ∈ s.bound := by
  unfold ofSolution
  rw [vars_ofList, mem_unionVariables]
  simp

theorem nodup_mapTerms (f : Term → Term) (b : Binding) : (b.mapTerms f).vars.Nodup :=
  nodup_ofList _

theorem vars_mapTerms (f : Term → Term) (b : Binding) : x ∈ (b.mapTerms f).vars ↔ x ∈ b.vars := by
  unfold mapTerms
  rw [vars_ofList, mem_unionVariables]
  simp [vars]

theorem lookup_map_snd (f : Term → Term) (entries : List (Variable × Term)) :
    (entries.map fun e => (e.1, f e.2)).lookup x = (entries.lookup x).map f := by
  induction entries with
  | nil => rfl
  | cons e rest ih =>
    rw [List.map_cons, List.lookup_cons, List.lookup_cons, ih]
    cases x == e.1 <;> rfl

theorem lookup_filterMap (f : Variable → Option Term) (xs : List Variable) (x : Variable) :
    (xs.filterMap fun y => (f y).map (y, ·)).lookup x = if x ∈ xs then f x else none := by
  induction xs with
  | nil => rfl
  | cons y ys ih =>
    rw [List.filterMap_cons]
    cases hy : f y with
    | none =>
      rw [Option.map_none]
      dsimp only
      rw [ih]
      by_cases hx : x = y
      · subst hx
        simp [hy]
      · simp [hx]
    | some t =>
      rw [Option.map_some]
      dsimp only
      rw [lookup_cons, ih]
      by_cases hx : x = y
      · subst hx
        simp [hy]
      · simp [hx]

theorem get?_mapTerms (f : Term → Term) (h : b.vars.Nodup) :
    (b.mapTerms f).get? x = (b.get? x).map f := by
  have hmap : ((b.entries.map fun e => (e.1, f e.2)).map (·.1)).Nodup := by
    rw [List.map_map]
    exact h
  rw [mapTerms, get?_ofList, lookup_reverse hmap, lookup_map_snd]
  rfl

/-! ## Merging -/

theorem get?_merge (h : right.vars.Nodup) :
    (left.merge right).get? x = (right.get? x).or (left.get? x) := by
  rw [merge, get?_foldl_set, lookup_reverse h]
  rfl

theorem vars_merge : (left.merge right).vars = unionVariables left.vars right.vars :=
  vars_foldl_set right.entries left

theorem nodup_merge (h : left.vars.Nodup) : (left.merge right).vars.Nodup := by
  rw [vars_merge]
  exact nodup_unionVariables _ h

theorem compatible_iff (h : left.vars.Nodup) :
    left.compatible right = true ↔
      ∀ x t u, left.get? x = some t → right.get? x = some u → t = u := by
  unfold compatible
  rw [List.all_eq_true]
  constructor
  · intro hall x t u ht hu
    have hmem : (x, t) ∈ left.entries := (lookup_eq_some_iff_mem h).mp ht
    have he := hall _ hmem
    simp only [hu, decide_eq_true_eq] at he
    exact he.symm
  · intro hagree e he
    have ht : left.get? e.1 = some e.2 := (lookup_eq_some_iff_mem h).mpr he
    cases hu : right.get? e.1 with
    | none => rfl
    | some u => simp [hagree _ _ _ ht hu]

end Binding

end SparqlBind
