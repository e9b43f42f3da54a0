import Mathlib.Data.Set.Card
import SparqlBind.Proofs.Binding

/-!
# Bindings after any operations

Whatever operations have made a binding, it is a finite map whose variables stand in the order in which
they came. It is compared with that map given as a function, kept beside the list of the bound variables:
there, setting a variable updates the function at one point and leaves the list alone unless the
variable is new, and a list of pairs counts with the last term and the first place of each variable.
-/

namespace SparqlBind

/-- A finite map as a function, with its bound variables in order. -/
structure OrderedMap where
  value : Variable → Option Term
  order : List Variable

namespace OrderedMap

def empty : OrderedMap := ⟨fun _ => none, []⟩

def set (m : OrderedMap) (x : Variable) (t : Term) : OrderedMap where
  value := Function.update m.value x (some t)
  order := if x ∈ m.order then m.order else m.order ++ [x]

def forget (m : OrderedMap) (x : Variable) : OrderedMap where
  value := Function.update m.value x none
  order := m.order.erase x

/-- Every variable of the list with its last term, at its first place. -/
def ofList (entries : List (Variable × Term)) : OrderedMap where
  value x := (entries.filterMap fun e => if e.1 = x then some e.2 else none).getLast?
  order := (entries.map (·.1)).eraseDups

/-- The bound columns of a row, taken like a list of pairs. -/
def ofSolution (s : Solution) : OrderedMap where
  value x := (s.columns.filterMap fun c => if c.1 = x then c.2 else none).getLast?
  order := ((s.columns.filter (·.2.isSome)).map (·.1)).eraseDups

end OrderedMap

namespace Binding

inductive Operation
  | empty
  | set (x : Variable) (t : Term)
  | forget (x : Variable)
  | ofList (entries : List (Variable × Term))
  | ofSolution (s : Solution)

namespace Operation

def apply : Operation → Binding → Binding
  | empty, _ => .empty
  | set x t, b => b.set x t
  | forget x, b => b.forget x
  | ofList entries, _ => .ofList entries
  | ofSolution s, _ => .ofSolution s

/-- The same operation on the map. -/
def record : Operation → OrderedMap → OrderedMap
  | empty, _ => .empty
  | set x t, m => m.set x t
  | forget x, m => m.forget x
  | ofList entries, _ => .ofList entries
  | ofSolution s, _ => .ofSolution s

end Operation

/-- The binding that the operations leave, done one after the other. -/
def run (operations : List Operation) : Binding :=
  operations.foldl (fun b operation => operation.apply b) empty

def history (operations : List Operation) : OrderedMap :=
  operations.foldl (fun m operation => operation.record m) .empty

/-- The binding has the terms of the map, and its variables in their order. -/
structure Represents (b : Binding) (m : OrderedMap) : Prop where
  nodup : b.vars.Nodup
  order : b.vars = m.order
  value : ∀ x, b.get? x = m.value x

/-! ## Collecting -/

theorem unionVariables_eq_eraseDups (xs ys : List Variable) :
    unionVariables xs ys = xs ++ (ys.filter (· ∉ xs)).eraseDups := by
  unfold unionVariables
  induction ys generalizing xs with
  | nil => simp
  | cons y ys ih =>
    rw [List.foldl_cons, ih, addVariable]
    by_cases hy : y ∈ xs
    · rw [if_pos hy, List.filter_cons_of_neg (by simpa using hy)]
    · have hrest : ys.filter (· ∉ xs ++ [y]) =
          (ys.filter (· ∉ xs)).filter fun z => !z == y := by
        rw [List.filter_filter]
        refine List.filter_congr fun z _ => ?_
        by_cases hz : z = y <;> simp [hz]
      rw [if_neg hy, List.filter_cons_of_pos (by simpa using hy), List.eraseDups_cons, hrest,
        List.append_assoc, List.singleton_append]

theorem represents_ofList (entries : List (Variable × Term)) :
    (ofList entries).Represents (.ofList entries) where
  nodup := nodup_ofList entries
  order := by
    rw [vars_ofList, unionVariables_eq_eraseDups]
    simp [OrderedMap.ofList]
  value x := by
    have hlast : (OrderedMap.ofList entries).value x =
        entries.reverse.findSome? fun e => if e.1 = x then some e.2 else none :=
      List.getLast?_filterMap
    rw [get?_ofList, hlast, List.lookup_eq_findSome?]
    simp only [beq_iff_eq, @eq_comm _ x]

theorem represents_ofSolution (s : Solution) : (ofSolution s).Represents (.ofSolution s) := by
  have hlist := represents_ofList s.bound
  refine ⟨hlist.nodup, hlist.order.trans ?_, fun x => (hlist.value x).trans ?_⟩
  · refine congrArg List.eraseDups ?_
    unfold Solution.bound
    induction s.columns with
    | nil => rfl
    | cons c rest ih =>
      obtain ⟨y, _ | t⟩ := c
      · simpa using ih
      · simpa using ih
  · refine congrArg List.getLast? ?_
    unfold Solution.bound
    rw [List.filterMap_filterMap]
    refine List.filterMap_congr fun c _ => ?_
    obtain ⟨y, _ | t⟩ := c <;> simp

/-! ## One operation, and all of them -/

theorem vars_forget (b : Binding) (x : Variable) : (b.forget x).vars = b.vars.filter (· ≠ x) := by
  unfold forget vars
  rw [List.filter_map]
  rfl

namespace Represents

variable {b : Binding} {m : OrderedMap}

theorem set (h : b.Represents m) (x : Variable) (t : Term) :
    (b.set x t).Represents (m.set x t) where
  nodup := nodup_set h.nodup
  order := by
    rw [vars_set, addVariable, h.order]
    rfl
  value y := by
    have hvalue : (m.set x t).value y = if y = x then some t else m.value y :=
      Function.update_apply _ _ _ _
    rw [get?_set, hvalue, h.value]

theorem forget (h : b.Represents m) (x : Variable) : (b.forget x).Represents (m.forget x) where
  nodup := by
    rw [vars_forget]
    exact h.nodup.filter _
  order := by
    have herase : (m.forget x).order = b.vars.filter (· != x) := by
      rw [← h.nodup.erase_eq_filter, h.order]
      rfl
    rw [vars_forget, herase]
    simp only [bne, beq_eq_decide, decide_not]
  value y := by
    have hvalue : (m.forget x).value y = if y = x then none else m.value y :=
      Function.update_apply _ _ _ _
    rw [get?_forget, hvalue, h.value]

theorem apply (h : b.Represents m) (operation : Operation) :
    (operation.apply b).Represents (operation.record m) := by
  cases operation with
  | empty => exact ⟨.nil, rfl, fun _ => rfl⟩
  | set x t => exact h.set x t
  | forget x => exact h.forget x
  | ofList entries => exact represents_ofList entries
  | ofSolution s => exact represents_ofSolution s

end Represents

theorem represents_history (operations : List Operation) :
    (run operations).Represents (history operations) := by
  have hfold : ∀ {b m}, Represents b m →
      (operations.foldl (fun b operation => operation.apply b) b).Represents
        (operations.foldl (fun m operation => operation.record m) m) := by
    induction operations with
    | nil => exact id
    | cons operation rest ih => exact fun h => ih (h.apply operation)
  exact hfold ⟨.nil, rfl, fun _ => rfl⟩

/-! ## What a binding shows -/

theorem entries_eq_filterMap {entries : List (Variable × Term)} (h : (entries.map (·.1)).Nodup) :
    entries = (entries.map (·.1)).filterMap fun x => (entries.lookup x).map (x, ·) := by
  induction entries with
  | nil => rfl
  | cons e rest ih =>
    rw [List.map_cons, List.nodup_cons] at h
    have hrest : ((rest.map (·.1)).filterMap fun x => ((e :: rest).lookup x).map (x, ·)) = rest := by
      refine Eq.trans (List.filterMap_congr fun x hx => ?_) (ih h.2).symm
      rw [lookup_cons, if_neg fun heq : x = e.1 => h.1 (heq ▸ hx)]
    rw [List.map_cons, List.filterMap_cons, List.lookup_cons_self, Option.map_some, hrest]

namespace Represents

variable {b b' : Binding} {m : OrderedMap}

/-- The map says in which order which pairs come. -/
theorem entries_eq (h : b.Represents m) :
    b.entries = m.order.filterMap fun x => (m.value x).map (x, ·) := by
  have hentries : b.entries = b.vars.filterMap fun x => (b.get? x).map (x, ·) :=
    entries_eq_filterMap h.nodup
  simpa only [h.order, h.value] using hentries

theorem eq (h : b.Represents m) (h' : b'.Represents m) : b = b' :=
  congrArg Binding.mk (h.entries_eq.trans h'.entries_eq.symm)

theorem size_eq (h : b.Represents m) : b.size = {x | m.value x ≠ none}.ncard := by
  have hset : {x | m.value x ≠ none} = (b.vars.toFinset : Set Variable) := by
    ext x
    rw [Set.mem_ofPred_eq, ← h.value, get?_ne_none_iff, List.coe_toFinset]
    rfl
  rw [hset, Set.ncard_coe_finset, List.toFinset_card_of_nodup h.nodup]
  exact (List.length_map _).symm

theorem ofList_entries (h : b.Represents m) : ofList b.entries = b := by
  refine eq (m := m) ⟨nodup_ofList _, ?_, fun x => ?_⟩ h
  · rw [vars_ofList, ← h.order]
    exact unionVariables_nil h.nodup
  · rw [get?_ofList, lookup_reverse h.nodup]
    exact h.value x

end Represents

/-- A binding made by any operations is the finite map of their history, listed in its order. -/
theorem run_isFiniteMap (operations : List Operation) :
    (run operations).Represents (history operations) ∧
    (∀ x, (run operations).contains x = true ↔ ∃ t, (run operations).get? x = some t) ∧
    (run operations).size = {x | (history operations).value x ≠ none}.ncard ∧
    (run operations).entries =
      (history operations).order.filterMap (fun x => ((history operations).value x).map (x, ·)) ∧
    (∀ x t, (x, t) ∈ (run operations).entries ↔ (run operations).get? x = some t) ∧
    ofList (run operations).entries = run operations := by
  have h := represents_history operations
  refine ⟨h, fun x => Option.isSome_iff_exists, h.size_eq, h.entries_eq, fun x t => ?_,
    h.ofList_entries⟩
  exact (lookup_eq_some_iff_mem h.nodup).symm

end Binding

end SparqlBind
