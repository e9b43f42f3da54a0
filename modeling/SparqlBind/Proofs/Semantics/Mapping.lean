import SparqlBind.Extension.Table
import SparqlBind.Proofs.Binding

/-!
# Solution mappings

A solution mapping is a partial function from variables to terms. Bindings, solutions and the rows
of a table of values are read as mappings, so that the order in which variables are kept is
forgotten. Blank nodes are presented to an engine as IRIs of a reserved namespace.
-/

namespace SparqlBind

abbrev Mapping := Variable → Option Term

namespace Mapping

def empty : Mapping := fun _ => none

/-- The mappings give no variable two terms. -/
def Compatible (μ ν : Mapping) : Prop := ∀ x t u, μ x = some t → ν x = some u → t = u

/-- Some variable is bound in both. -/
def Shares (μ ν : Mapping) : Prop := ∃ x, μ x ≠ none ∧ ν x ≠ none

def merge (μ ν : Mapping) : Mapping := fun x => (μ x).or (ν x)

def set (μ : Mapping) (x : Variable) (t : Term) : Mapping := fun y => if y = x then some t else μ y

/-- Binds `x` to a value, if there is one. -/
def extend (μ : Mapping) (x : Variable) : Option Term → Mapping
  | some t => μ.set x t
  | none => μ

def restrict (μ : Mapping) (xs : List Variable) : Mapping := fun x => if x ∈ xs then μ x else none

def mapTerms (f : Term → Term) (μ : Mapping) : Mapping := fun x => (μ x).map f

/-- Binds the targets of aggregates to their values. -/
def bindAll (value : Aggregate → Option Term) (aggregates : List Aggregate) (μ : Mapping) :
    Mapping :=
  aggregates.foldl (fun ν a => ν.extend a.target (value a)) μ

/-- A row of a table of values. -/
def ofCells (xs : List Variable) (cells : List (Option GroundTerm)) : Mapping := fun x =>
  ((xs.zip cells).lookup x).join.map GroundTerm.toTerm

variable {μ ν : Mapping} {x y : Variable} {t : Term}

theorem set_apply : μ.set x t y = if y = x then some t else μ y := rfl

theorem extend_apply (o : Option Term) :
    μ.extend x o y = if y = x then o.or (μ x) else μ y := by
  cases o with
  | none =>
    by_cases h : y = x
    · simp [extend, h]
    · simp [extend, h]
  | some t => simp [extend, set]

theorem bindAll_cons (value : Aggregate → Option Term) (a : Aggregate) (rest : List Aggregate) :
    μ.bindAll value (a :: rest) = (μ.extend a.target (value a)).bindAll value rest := rfl

theorem bindAll_apply {value : Aggregate → Option Term} {aggregates : List Aggregate}
    (h : ∀ a ∈ aggregates, a.target ≠ x) : μ.bindAll value aggregates x = μ x := by
  induction aggregates generalizing μ with
  | nil => rfl
  | cons a rest ih =>
    rw [bindAll_cons, ih fun b hb => h b (List.mem_cons_of_mem _ hb), extend_apply,
      if_neg (h a List.mem_cons_self).symm]

theorem bindAll_congr {f g : Aggregate → Option Term} {aggregates : List Aggregate}
    (h : ∀ a ∈ aggregates, f a = g a) : μ.bindAll f aggregates = μ.bindAll g aggregates := by
  induction aggregates generalizing μ with
  | nil => rfl
  | cons a rest ih =>
    rw [bindAll_cons, bindAll_cons, h a List.mem_cons_self,
      ih fun b hb => h b (List.mem_cons_of_mem _ hb)]

theorem mapTerms_set (f : Term → Term) : (μ.set x t).mapTerms f = (μ.mapTerms f).set x (f t) := by
  funext y
  unfold mapTerms set
  split <;> rfl

theorem compatible_refl (μ : Mapping) : μ.Compatible μ :=
  fun _ _ _ ht hu => Option.some.inj (ht.symm.trans hu)

/-- Where they are compatible it does not matter which mapping is looked up first. -/
theorem merge_comm (h : μ.Compatible ν) : μ.merge ν = ν.merge μ := by
  funext x
  unfold merge
  cases hμ : μ x with
  | none => simp
  | some t =>
    cases hν : ν x with
    | none => rfl
    | some u => simp [h x t u hμ hν]

end Mapping

/-! ## Scopes -/

namespace Mapping

variable {μ ν : Mapping} {x : Variable} {p : Variable → Prop}

/-- The mapping binds variables with `p` only. -/
def Within (p : Variable → Prop) (μ : Mapping) : Prop := ∀ x, μ x ≠ none → p x

theorem Within.mono {q : Variable → Prop} (h : μ.Within p) (hpq : ∀ x, p x → q x) : μ.Within q :=
  fun x hx => hpq x (h x hx)

theorem within_empty : empty.Within p := fun _ hx => (hx rfl).elim

theorem Within.merge (hμ : μ.Within p) (hν : ν.Within p) : (μ.merge ν).Within p := by
  intro x hx
  by_cases h : μ x = none
  · refine hν x fun hn => hx ?_
    simp [Mapping.merge, h, hn]
  · exact hμ x h

theorem Within.extend (hμ : μ.Within p) (hx : p x) (o : Option Term) : (μ.extend x o).Within p := by
  intro y hy
  rw [extend_apply] at hy
  by_cases h : y = x
  · exact h ▸ hx
  · rw [if_neg h] at hy
    exact hμ y hy

theorem Within.bindAll {value : Aggregate → Option Term} {aggregates : List Aggregate}
    (hμ : μ.Within p) (h : ∀ a ∈ aggregates, p a.target) : (μ.bindAll value aggregates).Within p := by
  induction aggregates generalizing μ with
  | nil => exact hμ
  | cons a rest ih =>
    exact ih (hμ.extend (h a List.mem_cons_self) _) fun b hb => h b (List.mem_cons_of_mem _ hb)

theorem within_restrict (xs : List Variable) : (μ.restrict xs).Within (· ∈ xs) := by
  intro x hx
  by_contra h
  exact hx (if_neg h)

theorem Within.restrict_eq {xs : List Variable} (h : μ.Within (· ∈ xs)) : μ.restrict xs = μ := by
  funext x
  unfold restrict
  split
  · rfl
  · rename_i hx
    by_contra hne
    exact hx (h x (Ne.symm hne))

theorem within_ofCells (xs : List Variable) (cells : List (Option GroundTerm)) :
    (ofCells xs cells).Within (· ∈ xs) := by
  intro x hx
  by_contra h
  refine hx ?_
  have hlookup : (xs.zip cells).lookup x = none := by
    rw [List.lookup_eq_none_iff]
    intro e he
    have hxs : e.1 ∈ xs := (List.of_mem_zip he).1
    have hxe : x ≠ e.1 := fun hxe => h (hxe ▸ hxs)
    simpa using hxe
  simp [ofCells, hlookup]

end Mapping

/-! ## Rows as mappings -/

def Binding.mapping (b : Binding) : Mapping := b.get?

/-- A row as an engine reports it, without its unbound columns. -/
def Solution.mapping (s : Solution) : Mapping := (Binding.ofSolution s).mapping

namespace Binding

variable {b left right : Binding}

theorem mapping_set (x : Variable) (t : Term) : (b.set x t).mapping = b.mapping.set x t :=
  funext fun _ => get?_set

theorem mapping_merge (hr : right.vars.Nodup) :
    (left.merge right).mapping = right.mapping.merge left.mapping :=
  funext fun _ => get?_merge hr

theorem compatible_iff_mapping (hl : left.vars.Nodup) :
    left.compatible right = true ↔ left.mapping.Compatible right.mapping := compatible_iff hl

theorem mapping_mapTerms (f : Term → Term) (h : b.vars.Nodup) :
    (b.mapTerms f).mapping = b.mapping.mapTerms f :=
  funext fun _ => get?_mapTerms f h

end Binding

/-- A row with the given columns. -/
def Solution.ofMapping (xs : List Variable) (μ : Mapping) : Solution := ⟨xs.map fun x => (x, μ x)⟩

namespace Solution

variable {xs : List Variable} {μ : Mapping}

theorem map_fst_bound_ofMapping :
    (ofMapping xs μ).bound.map (·.1) = xs.filter fun x => (μ x).isSome := by
  induction xs with
  | nil => rfl
  | cons x rest ih =>
    unfold ofMapping bound at ih ⊢
    cases hx : μ x with
    | none => simpa [hx] using ih
    | some t => simpa [hx] using ih

theorem mem_bound_ofMapping {x : Variable} {t : Term} :
    (x, t) ∈ (ofMapping xs μ).bound ↔ x ∈ xs ∧ μ x = some t := by
  simp only [ofMapping, bound, List.filterMap_map, List.mem_filterMap, Function.comp_apply,
    Option.map_eq_some_iff, Prod.mk.injEq]
  constructor
  · rintro ⟨y, hy, u, hu, rfl, rfl⟩
    exact ⟨hy, hu⟩
  · rintro ⟨hx, ht⟩
    exact ⟨x, hx, t, ht, rfl, rfl⟩

theorem mapping_ofMapping (hxs : xs.Nodup) (h : μ.Within (· ∈ xs)) :
    (ofMapping xs μ).mapping = μ := by
  have hnodup : ((ofMapping xs μ).bound.map (·.1)).Nodup := by
    rw [map_fst_bound_ofMapping]
    exact hxs.filter _
  funext x
  refine Option.ext fun t => ?_
  rw [mapping, Binding.mapping, Binding.ofSolution, Binding.get?_ofList,
    Binding.lookup_reverse hnodup, Binding.lookup_eq_some_iff_mem hnodup, mem_bound_ofMapping]
  exact ⟨And.right, fun ht => ⟨h x (by simp [ht]), ht⟩⟩

theorem mem_of_mapping_ofMapping {xs : List Variable} {μ : Mapping} {x : Variable}
    (h : (ofMapping xs μ).mapping x ≠ none) : x ∈ xs := by
  have hx : x ∈ (Binding.ofSolution (ofMapping xs μ)).vars := Binding.get?_ne_none_iff.mp h
  obtain ⟨t, ht⟩ := Binding.mem_vars_ofSolution.mp hx
  exact (mem_bound_ofMapping.mp ht).1

end Solution

/-! ## The reserved namespace -/

/-- An IRI that stands for a blank node, unless it was an IRI before. -/
def Term.isReserved : Term → Bool
  | .iri i => (Skolem.label? i).isSome
  | _ => false

namespace Skolem

theorem label?_encode (label : String) : label? ⟨namespaceText ++ label⟩ = some label := by
  have hprefix : namespaceText.toList.isPrefixOf (namespaceText ++ label).toList = true := by
    rw [String.toList_append, List.isPrefixOf_iff_prefix]
    exact List.prefix_append _ _
  unfold label?
  dsimp only
  rw [if_pos hprefix, String.toList_append, List.drop_left, String.ofList_toList]

theorem decode_of_not_isReserved {t : Term} (h : t.isReserved = false) : decode t = t := by
  cases t with
  | iri i =>
    have hi : label? i = none := Option.isSome_eq_false_iff.mp h |> Option.isNone_iff_eq_none.mp
    simp [decode, hi]
  | blank label => rfl
  | literal l => rfl

theorem isReserved_decode (t : Term) : (decode t).isReserved = false := by
  cases t with
  | iri i =>
    cases hi : label? i with
    | none => simp [decode, hi, Term.isReserved]
    | some label => simp [decode, hi, Term.isReserved]
  | blank label => rfl
  | literal l => rfl

/-- A term that is not reserved survives the way into a table and back. -/
theorem decode_encode {t : Term} (h : t.isReserved = false) : decode (encode t).toTerm = t := by
  cases t with
  | iri i => exact decode_of_not_isReserved h
  | blank label => simp [encode, GroundTerm.toTerm, decode, label?_encode]
  | literal l => rfl

end Skolem

namespace Mapping

/-- No term is an IRI of the reserved namespace. -/
def Unreserved (μ : Mapping) : Prop := ∀ x t, μ x = some t → t.isReserved = false

/-- The mapping as a table of values holds it: with IRIs for its blank nodes. -/
def presented (μ : Mapping) : Mapping := μ.mapTerms fun t => (Skolem.encode t).toTerm

def decoded (μ : Mapping) : Mapping := μ.mapTerms Skolem.decode

variable {μ ν : Mapping}

theorem unreserved_mapTerms {f : Term → Term} (h : μ.Unreserved)
    (hf : ∀ t, t.isReserved = false → (f t).isReserved = false) : (μ.mapTerms f).Unreserved := by
  intro x t ht
  obtain ⟨u, hu, rfl⟩ := Option.map_eq_some_iff.mp ht
  exact hf u (h x u hu)

theorem Unreserved.decoded_eq (h : μ.Unreserved) : μ.decoded = μ := by
  funext x
  unfold decoded mapTerms
  cases hx : μ x with
  | none => rfl
  | some t => exact congrArg some (Skolem.decode_of_not_isReserved (h x t hx))

theorem Unreserved.decoded_presented (h : μ.Unreserved) : μ.presented.decoded = μ := by
  funext x
  unfold presented decoded mapTerms
  cases hx : μ x with
  | none => rfl
  | some t => exact congrArg some (Skolem.decode_encode (h x t hx))

theorem unreserved_decoded (μ : Mapping) : μ.decoded.Unreserved := by
  intro x t ht
  obtain ⟨u, _, rfl⟩ := Option.map_eq_some_iff.mp ht
  exact Skolem.isReserved_decode u

/-- Presenting blank nodes as IRIs keeps mappings apart. -/
theorem presented_inj (hμ : μ.Unreserved) (hν : ν.Unreserved) (h : μ.presented = ν.presented) :
    μ = ν := by
  rw [← hμ.decoded_presented, h, hν.decoded_presented]

end Mapping

theorem Binding.unreserved_mapping {b : Binding}
    (h : ∀ e ∈ b.entries, e.2.isReserved = false) : b.mapping.Unreserved := by
  intro x t hx
  obtain ⟨before, after, hentries, _⟩ := List.lookup_eq_some_iff.mp hx
  exact h (x, t) (hentries ▸ List.mem_append_right _ List.mem_cons_self)

end SparqlBind
