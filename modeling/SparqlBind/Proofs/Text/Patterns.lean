import Mathlib.Data.List.Infix

/-!
# Patterns in texts put together from parts

A pattern that lacks a character does not go on over it, and one that no escape holds a character of is
found in an escaped text exactly where it is found in the text.
-/

namespace SparqlBind

variable {α : Type*} {p a b s : List α} {f : α → List α} {c : α}

theorem prefix_append_cons_iff (hc : c ∉ p) : p <+: a ++ c :: b ↔ p <+: a := by
  refine ⟨fun h => ?_, fun h => h.trans (List.prefix_append _ _)⟩
  induction a generalizing p with
  | nil =>
    cases p with
    | nil => exact List.prefix_rfl
    | cons x p => exact absurd (List.cons_prefix_cons.mp h).1 fun heq => hc (by simp [heq])
  | cons y a ih =>
    cases p with
    | nil => exact List.nil_prefix
    | cons x p =>
      obtain ⟨rfl, hrest⟩ := List.cons_prefix_cons.mp h
      exact List.cons_prefix_cons.mpr ⟨rfl, ih (List.not_mem_of_not_mem_cons hc) hrest⟩

theorem infix_append_cons_iff (hc : c ∉ p) : p <:+: a ++ c :: b ↔ p <:+: a ∨ p <:+: b := by
  induction a with
  | nil =>
    rw [List.nil_append, List.infix_cons_iff, List.infix_nil]
    refine or_congr_left ⟨fun h => ?_, fun h => h ▸ List.nil_prefix⟩
    exact List.prefix_nil.mp ((prefix_append_cons_iff (a := []) hc).mp h)
  | cons y a ih =>
    rw [List.cons_append, List.infix_cons_iff, List.infix_cons_iff, ih, ← List.cons_append,
      prefix_append_cons_iff hc, or_assoc]

theorem infix_cons_iff_of_not_mem (hp : p ≠ []) (hc : c ∉ p) : p <:+: c :: b ↔ p <:+: b := by
  have hiff := infix_append_cons_iff (a := []) (b := b) hc
  rwa [List.nil_append, List.infix_nil, or_iff_right hp] at hiff

/-- What is written for a character is the character itself, or it holds nothing of the pattern, and
neither does the pattern hold the character. -/
def WrittenApart (f : α → List α) (p : List α) : Prop :=
  ∀ c, f c = [c] ∨ c ∉ p ∧ f c ≠ [] ∧ ∀ x ∈ f c, x ∉ p

theorem WrittenApart.tail {x : α} (h : WrittenApart f (x :: p)) : WrittenApart f p := by
  intro c
  refine (h c).imp_right fun ⟨hc, hne, hout⟩ => ⟨List.not_mem_of_not_mem_cons hc, hne, fun y hy => ?_⟩
  exact List.not_mem_of_not_mem_cons (hout y hy)

theorem WrittenApart.prefix_flatMap_iff (h : WrittenApart f p) : p <+: s.flatMap f ↔ p <+: s := by
  induction p generalizing s with
  | nil => simp
  | cons x p ih =>
    cases s with
    | nil => simp
    | cons c s =>
      rw [List.flatMap_cons]
      rcases h c with heq | ⟨hc, hne, hout⟩
      · rw [heq, List.singleton_append, List.cons_prefix_cons, List.cons_prefix_cons, ih h.tail]
      · obtain ⟨y, block, hblock⟩ := List.exists_cons_of_ne_nil hne
        have hy : x ≠ y := fun heq => hout y (by simp [hblock]) (by simp [heq])
        have hx : x ≠ c := fun heq => hc (by simp [heq])
        simp [hblock, List.cons_prefix_cons, hy, hx]

theorem infix_of_infix_append (hp : p ≠ []) (h : ∀ x ∈ a, x ∉ p) (hfound : p <:+: a ++ b) :
    p <:+: b := by
  induction a with
  | nil => exact hfound
  | cons x a ih =>
    obtain ⟨hx, ha⟩ := List.forall_mem_cons.mp h
    exact ih ha ((infix_cons_iff_of_not_mem hp hx).mp hfound)

theorem WrittenApart.infix_flatMap_iff (h : WrittenApart f p) (hp : p ≠ []) :
    p <:+: s.flatMap f ↔ p <:+: s := by
  induction s with
  | nil => rfl
  | cons c s ih =>
    have hprefix := h.prefix_flatMap_iff (s := c :: s)
    rw [List.infix_cons_iff, ← ih, ← hprefix, List.flatMap_cons]
    rcases h c with heq | ⟨-, -, hout⟩
    · rw [heq, List.singleton_append, List.infix_cons_iff]
    · refine ⟨fun hfound => .inr (infix_of_infix_append hp hout hfound), fun h => ?_⟩
      exact h.elim List.IsPrefix.isInfix fun h => h.trans (List.suffix_append _ _).isInfix

end SparqlBind
