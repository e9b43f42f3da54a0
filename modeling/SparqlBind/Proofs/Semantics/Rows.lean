import SparqlBind.Evaluation.Rows
import SparqlBind.Proofs.Binding

/-!
# Members of the rows of an operator

From which rows a row of an operator was made, for each operator of the engine, and that a property
of all entries of a row is kept when rows are put together. Failures are passed on and never become
rows.
-/

namespace SparqlBind

/-! ## Entries of bindings -/

namespace Binding

/-- Every entry has the property. -/
def All (R : Variable → Term → Prop) (b : Binding) : Prop := ∀ e ∈ b.entries, R e.1 e.2

variable {R : Variable → Term → Prop} {b left right : Binding} {x : Variable} {t : Term}

theorem All.mono {S : Variable → Term → Prop} (h : b.All R) (hRS : ∀ x t, R x t → S x t) : b.All S :=
  fun e he => hRS e.1 e.2 (h e he)

theorem All.filter (h : b.All R) (f : Variable × Term → Bool) : All R ⟨b.entries.filter f⟩ :=
  fun e he => h e (List.mem_filter.mp he).1

theorem All.get? (h : b.All R) (ht : b.get? x = some t) : R x t := by
  obtain ⟨before, after, hentries, _⟩ := List.lookup_eq_some_iff.mp ht
  exact h (x, t) (hentries ▸ List.mem_append_right _ List.mem_cons_self)

theorem mem_setEntries {entries : List (Variable × Term)} {e : Variable × Term}
    (h : e ∈ setEntries x t entries) : e = (x, t) ∨ e ∈ entries := by
  induction entries with
  | nil => exact .inl (List.mem_singleton.mp h)
  | cons first rest ih =>
    rw [setEntries] at h
    split at h
    · exact (List.mem_cons.mp h).imp id (List.mem_cons_of_mem _)
    · rcases List.mem_cons.mp h with rfl | h
      · exact .inr List.mem_cons_self
      · exact (ih h).imp id (List.mem_cons_of_mem _)

theorem All.set (h : b.All R) (ht : R x t) : (b.set x t).All R := by
  intro e he
  rcases mem_setEntries he with rfl | he
  · exact ht
  · exact h e he

theorem All.foldl_set {entries : List (Variable × Term)} (h : b.All R)
    (hentries : ∀ e ∈ entries, R e.1 e.2) :
    (entries.foldl (fun b e => b.set e.1 e.2) b).All R := by
  induction entries generalizing b with
  | nil => exact h
  | cons e rest ih =>
    exact ih (h.set (hentries e List.mem_cons_self)) fun e he =>
      hentries e (List.mem_cons_of_mem _ he)

theorem All.merge (hleft : left.All R) (hright : right.All R) : (left.merge right).All R :=
  hleft.foldl_set hright

theorem all_empty : empty.All R := fun _ he => by cases he

theorem all_ofList {entries : List (Variable × Term)} (h : ∀ e ∈ entries, R e.1 e.2) :
    (ofList entries).All R := all_empty.foldl_set h

/-- Sets the variables that have a value. -/
theorem All.foldl_getD {α : Type} {cells : List (Variable × Option α)} {toTerm : α → Term}
    (h : b.All R) (hcells : ∀ c ∈ cells, ∀ a, c.2 = some a → R c.1 (toTerm a)) :
    (cells.foldl (fun row c => (c.2.map fun a => row.set c.1 (toTerm a)).getD row) b).All R := by
  induction cells generalizing b with
  | nil => exact h
  | cons c rest ih =>
    refine ih ?_ fun c hc => hcells c (List.mem_cons_of_mem _ hc)
    obtain ⟨x, value⟩ := c
    cases value with
    | none => exact h
    | some a => exact h.set (hcells (x, some a) List.mem_cons_self a rfl)

end Binding

/-! ## Operators -/

namespace Rows

variable {rows left right : Rows} {row b : Binding}

theorem mem_ofBindings {bs : List Binding} : .ok b ∈ ofBindings bs ↔ b ∈ bs := by
  simp [ofBindings]

theorem mem_bindings : b ∈ rows.bindings ↔ .ok b ∈ rows := by
  simp only [bindings, List.mem_filterMap]
  constructor
  · rintro ⟨r, hr, hb⟩
    cases r with
    | ok c => exact Option.some.inj hb ▸ hr
    | error e => cases hb
  · exact fun h => ⟨_, h, rfl⟩

theorem not_mem_failures : .ok b ∉ rows.failures := by
  intro h
  have hok := (List.mem_filter.mp h).2
  simp [Except.toOption] at hok

theorem mem_continueWith {f : Binding → Rows} :
    .ok b ∈ rows.continueWith f ↔ ∃ a, .ok a ∈ rows ∧ .ok b ∈ f a := by
  simp only [continueWith, List.mem_flatMap]
  constructor
  · rintro ⟨r, hr, hb⟩
    cases r with
    | ok a => exact ⟨a, hr, hb⟩
    | error e => simp at hb
  · rintro ⟨a, ha, hb⟩
    exact ⟨_, ha, hb⟩

theorem eq_merge_of_combine? {a c : Binding} (h : combine? a b = some c) : c = a.merge b := by
  unfold combine? at h
  split at h
  · exact (Option.some.inj h).symm
  · cases h

theorem mem_join (h : .ok b ∈ join left right) :
    ∃ l r, .ok l ∈ left ∧ .ok r ∈ right ∧ b = l.merge r := by
  unfold join at h
  split at h
  · cases h
  · obtain ⟨r, hr, h⟩ := mem_continueWith.mp ((List.mem_append.mp h).resolve_left not_mem_failures)
    rw [mem_ofBindings, List.mem_reverse, List.mem_filterMap] at h
    obtain ⟨l, hl, hb⟩ := h
    exact ⟨l, r, mem_bindings.mp hl, hr, eq_merge_of_combine? hb⟩

theorem mem_matching (h : .ok b ∈ right.matching row) :
    ∃ r, .ok r ∈ right ∧ b = row.merge r := by
  rw [matching, mem_ofBindings, List.mem_filterMap] at h
  obtain ⟨r, hr, hb⟩ := h
  exact ⟨r, mem_bindings.mp hr, eq_merge_of_combine? hb⟩

theorem mem_optionally {found : Binding → Rows} (h : .ok b ∈ left.optionally found) :
    ∃ l, .ok l ∈ left ∧ (b = l ∨ .ok b ∈ found l) := by
  obtain ⟨l, hl, h⟩ := mem_continueWith.mp h
  dsimp only at h
  split at h
  · exact ⟨l, hl, .inl (Except.ok.inj (List.mem_singleton.mp h))⟩
  · exact ⟨l, hl, .inr (List.mem_reverse.mp h)⟩

theorem mem_distinctFrom {seen : List Binding} (h : .ok b ∈ distinctFrom seen rows) :
    .ok b ∈ rows := by
  induction rows generalizing seen with
  | nil => exact h
  | cons r rest ih =>
    cases r with
    | error e => exact List.mem_cons_of_mem _ (ih ((List.mem_cons.mp h).resolve_left (by simp)))
    | ok c =>
      rw [distinctFrom] at h
      split at h
      · exact List.mem_cons_of_mem _ (ih h)
      · rcases List.mem_cons.mp h with h | h
        · exact h ▸ List.mem_cons_self
        · exact List.mem_cons_of_mem _ (ih h)

theorem mem_reduceFrom {last : Option Binding} (h : .ok b ∈ reduceFrom last rows) :
    .ok b ∈ rows := by
  induction rows generalizing last with
  | nil => exact h
  | cons r rest ih =>
    cases r with
    | error e => exact List.mem_cons_of_mem _ (ih ((List.mem_cons.mp h).resolve_left (by simp)))
    | ok c =>
      rw [reduceFrom] at h
      split at h
      · exact List.mem_cons_of_mem _ (ih h)
      · rcases List.mem_cons.mp h with h | h
        · exact h ▸ List.mem_cons_self
        · exact List.mem_cons_of_mem _ (ih h)

theorem mem_slice {start : Nat} {length : Option Nat} (h : .ok b ∈ slice start length rows) :
    .ok b ∈ rows := by
  cases length with
  | none => exact List.mem_of_mem_drop h
  | some n => exact List.mem_of_mem_drop (List.mem_of_mem_take h)

theorem mem_orderBy {key : Binding → SortKey} (h : .ok b ∈ orderBy key rows) : .ok b ∈ rows := by
  have h := (List.mem_append.mp h).resolve_left not_mem_failures
  rw [mem_ofBindings] at h
  obtain ⟨e, he, rfl⟩ := List.mem_map.mp h
  obtain ⟨c, hc, rfl⟩ := List.mem_map.mp (List.mem_mergeSort.mp he)
  exact mem_bindings.mp hc

theorem mem_project {xs : List Variable} (h : .ok b ∈ project xs row rows) :
    ∃ a, .ok a ∈ rows ∧ b = row.merge ⟨a.entries.filter fun e => xs.contains e.1⟩ := by
  obtain ⟨r, hr, hb⟩ := List.mem_filterMap.mp h
  cases r with
  | error e => cases hb
  | ok a =>
    obtain ⟨c, hc, hcb⟩ := Option.map_eq_some_iff.mp hb
    exact ⟨a, hr, Except.ok.inj hcb ▸ eq_merge_of_combine? hc⟩

theorem mem_ofTable {xs : List Variable} {table : List (List (Option GroundTerm))}
    (h : .ok b ∈ ofTable xs table row) : ∃ cells ∈ table,
      b = row.merge (.ofList ((xs.zip cells).filterMap fun c =>
        c.2.map fun t => (c.1, t.toTerm.canonical))) := by
  rw [ofTable, mem_ofBindings, List.mem_filterMap] at h
  obtain ⟨cells, hcells, hb⟩ := h
  exact ⟨cells, hcells, eq_merge_of_combine? hb⟩

/-! ## Groups -/

/-- A group has the values of its keys on some row, and it consists of rows. -/
def IsGroup (keys : List Variable) (rows : List Binding)
    (g : List (Option Term) × List Binding) : Prop :=
  (g.1 = [] ∨ ∃ a ∈ rows, g.1 = keys.map a.get?) ∧ ∀ a ∈ g.2, a ∈ rows

theorem isGroup_addToGroup {keys : List Variable} {bs : List Binding}
    {gs : List (List (Option Term) × List Binding)} (hrow : row ∈ bs)
    (h : ∀ g ∈ gs, IsGroup keys bs g) :
    ∀ g ∈ addToGroup (keys.map row.get?) row gs, IsGroup keys bs g := by
  induction gs with
  | nil =>
    intro g hg
    obtain rfl := List.mem_singleton.mp hg
    exact ⟨.inr ⟨row, hrow, rfl⟩, fun a ha => List.mem_singleton.mp ha ▸ hrow⟩
  | cons first rest ih =>
    have hfirst := h first List.mem_cons_self
    have hrest := fun g hg => h g (List.mem_cons_of_mem _ hg)
    intro g hg
    rw [addToGroup] at hg
    split at hg
    · rcases List.mem_cons.mp hg with rfl | hg
      · refine ⟨hfirst.1, fun a ha => ?_⟩
        rcases List.mem_append.mp ha with ha | ha
        · exact hfirst.2 a ha
        · exact List.mem_singleton.mp ha ▸ hrow
      · exact hrest g hg
    · rcases List.mem_cons.mp hg with rfl | hg
      · exact hfirst
      · exact ih hrest g hg

theorem isGroup_of_mem_groups {keys : List Variable} {bs : List Binding}
    {g : List (Option Term) × List Binding} (h : g ∈ groups keys bs) : IsGroup keys bs g := by
  have hfold : ∀ (rest : List Binding) (gs : List (List (Option Term) × List Binding)),
      (∀ a ∈ rest, a ∈ bs) → (∀ g ∈ gs, IsGroup keys bs g) →
        ∀ g ∈ rest.foldl (fun gs row => addToGroup (keys.map row.get?) row gs) gs,
          IsGroup keys bs g := by
    intro rest
    induction rest with
    | nil => exact fun gs _ hgs => hgs
    | cons a rest ih =>
      intro gs hrest hgs
      exact ih _ (fun c hc => hrest c (List.mem_cons_of_mem _ hc))
        (isGroup_addToGroup (hrest a List.mem_cons_self) hgs)
  refine hfold bs _ (fun _ ha => ha) (fun g hg => ?_) g h
  split at hg
  · obtain rfl := List.mem_singleton.mp hg
    exact ⟨.inl rfl, by simp⟩
  · cases hg

end Rows

end SparqlBind
