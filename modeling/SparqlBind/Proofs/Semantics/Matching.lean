import SparqlBind.Evaluation.Engine
import SparqlBind.Proofs.Semantics.Mapping
import SparqlBind.Proofs.Semantics.Rows
import SparqlBind.Proofs.Semantics.Values

/-!
# What a match can bind

A triple pattern or a path binds its own variables and that of the graph, to terms of the graph; a
path that may have no steps binds the term it starts from as well.
-/

namespace SparqlBind

/-! ## Terms without reserved IRIs -/

/-- No IRI of the triple is reserved. -/
def Triple.HoldsNone (u : Triple) : Prop :=
  ∀ t ∈ [u.subject.toTerm, .iri u.predicate, u.object], t.isReserved = false

structure Dataset.Unreserved (d : Dataset) : Prop where
  default : ∀ u ∈ d.default, u.HoldsNone
  names : ∀ g ∈ d.named, g.1.toTerm.isReserved = false
  named : ∀ g ∈ d.named, ∀ u ∈ g.2, u.HoldsNone

/-- The term is not an IRI of the reserved namespace. -/
def TermPattern.Unreserved (p : TermPattern) : Prop := ∀ t, p = .term t → t.isReserved = false

theorem Term.isReserved_canonical (t : Term) : t.canonical.isReserved = t.isReserved := by
  cases t with
  | iri i => rfl
  | blank label => rfl
  | literal l =>
    obtain ⟨m, hm⟩ := exists_canonical_literal l
    rw [hm]
    rfl

/-! ## Matching -/

section Matching
variable {R : Variable → Term → Prop} {row b : Binding}

theorem TermPattern.all_unify? {p : TermPattern} {t : Term} (hrow : row.All R)
    (ht : ∀ x, p.asVariable? = some x → R x t) (h : p.unify? t row = some b) : b.All R := by
  unfold unify? at h
  split at h
  · split at h
    · exact Option.some.inj h ▸ hrow
    · cases h
  · obtain ⟨x, hx, rfl⟩ := Option.map_eq_some_iff.mp h
    exact hrow.set (ht x hx)

/-- The variables that a row of a triple pattern can bind. -/
def TriplePattern.open (t : TriplePattern) : List Variable :=
  [t.subject, t.predicate.toTermPattern, t.object].filterMap TermPattern.asVariable?

theorem TriplePattern.all_unify? {p : TriplePattern} {u : Triple} (hrow : row.All R)
    (hu : u.HoldsNone) (hR : ∀ x ∈ p.open, ∀ t, t.isReserved = false → R x t)
    (h : p.unify? row u = some b) : b.All R := by
  have hopen : ∀ q ∈ [p.subject, p.predicate.toTermPattern, p.object], ∀ t ∈ [u.subject.toTerm,
      .iri u.predicate, u.object], ∀ x, q.asVariable? = some x → R x t := fun q hq t ht x hx =>
    hR x (List.mem_filterMap.mpr ⟨q, hq, hx⟩) t (hu t ht)
  obtain ⟨first, hfirst, h⟩ := Option.bind_eq_some_iff.mp h
  obtain ⟨second, hsecond, h⟩ := Option.bind_eq_some_iff.mp h
  have h1 := TermPattern.all_unify? hrow (hopen _ (by simp) _ (by simp)) hfirst
  have h2 := TermPattern.all_unify? h1 (hopen _ (by simp) _ (by simp)) hsecond
  exact TermPattern.all_unify? h2 (hopen _ (by simp) _ (by simp)) h

namespace Dataset

variable {d : Dataset} {g : Option NamePattern} {triples : List Triple}

theorem all_matchAll {ps : List TriplePattern} (hrow : row.All R)
    (htriples : ∀ u ∈ triples, u.HoldsNone)
    (hR : ∀ p ∈ ps, ∀ x ∈ p.open, ∀ t, t.isReserved = false → R x t)
    (h : b ∈ matchAll triples ps row) : b.All R := by
  induction ps generalizing row with
  | nil => exact List.mem_singleton.mp h ▸ hrow
  | cons p ps ih =>
    obtain ⟨c, hc, h⟩ := List.mem_flatMap.mp h
    obtain ⟨u, hu, hc⟩ := List.mem_filterMap.mp hc
    have hcall : c.All R :=
      TriplePattern.all_unify? hrow (htriples u hu) (hR p List.mem_cons_self) hc
    exact ih hcall (fun p hp => hR p (List.mem_cons_of_mem _ hp)) h

/-- A graph that a name stands for, with the row that names it. -/
theorem all_graphs (hd : d.Unreserved) (hrow : row.All R)
    (hR : ∀ x ∈ Pattern.graphVariables g, ∀ t, t.isReserved = false → R x t)
    (h : (b, triples) ∈ d.graphs row g) : b.All R ∧ ∀ u ∈ triples, u.HoldsNone := by
  cases g with
  | none =>
    obtain ⟨rfl, rfl⟩ := Prod.mk.inj (List.mem_singleton.mp h)
    exact ⟨hrow, hd.default⟩
  | some name =>
    obtain ⟨n, hn, hb⟩ := List.mem_filterMap.mp h
    obtain ⟨c, hc, hcb⟩ := Option.map_eq_some_iff.mp hb
    obtain ⟨rfl, rfl⟩ := Prod.mk.inj hcb
    refine ⟨TermPattern.all_unify? hrow (fun x hx => hR x ?_ _ (hd.names n hn)) hc, hd.named n hn⟩
    cases name with
    | iri i => cases hx
    | var y => exact Option.some.inj hx ▸ List.mem_singleton_self y

theorem all_matchBasic {ps : List TriplePattern} (hd : d.Unreserved) (hrow : row.All R)
    (hR : ∀ x ∈ (Pattern.bgp ps).columns g, ∀ t, t.isReserved = false → R x t)
    (h : b ∈ d.matchBasic g ps row) : b.All R := by
  obtain ⟨⟨c, triples⟩, hg, h⟩ := List.mem_flatMap.mp h
  have hnames : ∀ x ∈ Pattern.graphVariables g, x ∈ (Pattern.bgp ps).columns g := by
    intro x hx
    cases ps with
    | nil => exact hx
    | cons p rest => exact List.mem_flatMap.mpr ⟨p, List.mem_cons_self, List.mem_append_right _ hx⟩
  have hopen : ∀ p ∈ ps, ∀ x ∈ p.open, x ∈ (Pattern.bgp ps).columns g := by
    intro p hp x hx
    cases ps with
    | nil => cases hp
    | cons q rest => exact List.mem_flatMap.mpr ⟨p, hp, List.mem_append_left _ hx⟩
  obtain ⟨hc, htriples⟩ := all_graphs hd hrow (fun x hx => hR x (hnames x hx)) hg
  exact all_matchAll hc htriples (fun p hp x hx => hR x (hopen p hp x hx)) h

end Dataset

/-! ## Paths -/

namespace PropertyPath

variable {triples : List Triple} (htriples : ∀ u ∈ triples, u.HoldsNone)
include htriples

theorem subject_unreserved {u : Triple} (hu : u ∈ triples) :
    u.subject.toTerm.isReserved = false := htriples u hu _ (by simp)

theorem object_unreserved {u : Triple} (hu : u ∈ triples) : u.object.isReserved = false :=
  htriples u hu _ (by simp)

theorem nodes_unreserved {t : Term} (ht : t ∈ nodes triples) : t.isReserved = false := by
  obtain ⟨u, hu, ht⟩ := List.mem_flatMap.mp (List.mem_eraseDups.mp ht)
  exact htriples u hu t (by
    rcases List.mem_cons.mp ht with rfl | ht
    · simp
    · obtain rfl := List.mem_singleton.mp ht
      simp)

omit htriples in
theorem closure_unreserved {next : Term → List Term}
    (hnext : ∀ t, t.isReserved = false → ∀ u ∈ next t, u.isReserved = false) (fuel : Nat) :
    ∀ {seen todo : List Term}, (∀ t ∈ seen, t.isReserved = false) →
      (∀ t ∈ todo, t.isReserved = false) → ∀ t ∈ closure next fuel seen todo,
        t.isReserved = false := by
  induction fuel with
  | zero => exact fun hseen _ => hseen
  | succ fuel ih =>
    intro seen todo hseen htodo
    have hfound : ∀ t ∈ ((todo.flatMap next).eraseDups).filter (!seen.contains ·),
        t.isReserved = false := by
      intro t ht
      obtain ⟨u, hu, ht⟩ := List.mem_flatMap.mp (List.mem_eraseDups.mp (List.mem_filter.mp ht).1)
      exact hnext u (htodo u hu) t ht
    rw [closure]
    split
    · exact hseen
    · exact ih (fun t ht => (List.mem_append.mp ht).elim (hseen t) (hfound t)) hfound

omit htriples in
theorem reachable_unreserved {next : Term → List Term}
    (hnext : ∀ t, t.isReserved = false → ∀ u ∈ next t, u.isReserved = false) {start : List Term}
    (hstart : ∀ t ∈ start, t.isReserved = false) :
    ∀ t ∈ reachable triples next start, t.isReserved = false :=
  closure_unreserved hnext _ (fun t ht => hstart t (List.mem_eraseDups.mp ht))
    fun t ht => hstart t (List.mem_eraseDups.mp ht)

theorem ends_unreserved (p : PropertyPath) : ∀ (forward : Bool) (t : Term),
    t.isReserved = false → ∀ u ∈ p.ends triples forward t, u.isReserved = false := by
  induction p with
  | iri i | negated is =>
    intro forward t ht u hu
    cases forward
    · obtain ⟨v, hv, rfl⟩ := List.mem_map.mp hu
      exact subject_unreserved htriples (List.mem_filter.mp hv).1
    · obtain ⟨v, hv, rfl⟩ := List.mem_map.mp hu
      exact object_unreserved htriples (List.mem_filter.mp hv).1
  | inverse p ih => exact fun forward t => ih (!forward) t
  | sequence p q ihp ihq =>
    intro forward t ht u hu
    cases forward
    · obtain ⟨v, hv, hu⟩ := List.mem_flatMap.mp hu
      exact ihp false v (ihq false t ht v hv) u hu
    · obtain ⟨v, hv, hu⟩ := List.mem_flatMap.mp hu
      exact ihq true v (ihp true t ht v hv) u hu
  | alternative p q ihp ihq =>
    intro forward t ht u hu
    exact (List.mem_append.mp hu).elim (ihp forward t ht u) (ihq forward t ht u)
  | zeroOrMore p ih =>
    intro forward t ht
    exact reachable_unreserved (ih forward) fun u hu => List.mem_singleton.mp hu ▸ ht
  | oneOrMore p ih =>
    intro forward t ht
    exact reachable_unreserved (ih forward) (ih forward t ht)
  | zeroOrOne p ih =>
    intro forward t ht u hu
    rcases List.mem_cons.mp (List.mem_eraseDups.mp hu) with rfl | hu
    · exact ht
    · exact ih forward t ht u hu

theorem pairs_unreserved (p : PropertyPath) : ∀ e ∈ p.pairs triples,
    e.1.isReserved = false ∧ e.2.isReserved = false := by
  induction p with
  | iri i | negated is =>
    intro e he
    obtain ⟨u, hu, rfl⟩ := List.mem_map.mp he
    have hu := (List.mem_filter.mp hu).1
    exact ⟨subject_unreserved htriples hu, object_unreserved htriples hu⟩
  | inverse p ih =>
    intro e he
    obtain ⟨c, hc, rfl⟩ := List.mem_map.mp he
    exact (ih c hc).symm
  | sequence p q ihp _ =>
    intro e he
    obtain ⟨c, hc, he⟩ := List.mem_flatMap.mp he
    obtain ⟨u, hu, rfl⟩ := List.mem_map.mp he
    exact ⟨(ihp c hc).1, ends_unreserved htriples q true c.2 (ihp c hc).2 u hu⟩
  | alternative p q ihp ihq =>
    exact fun e he => (List.mem_append.mp he).elim (ihp e) (ihq e)
  | zeroOrMore p _ | oneOrMore p _ =>
    intro e he
    obtain ⟨t, ht, he⟩ := List.mem_flatMap.mp he
    obtain ⟨u, hu, rfl⟩ := List.mem_map.mp he
    have ht := nodes_unreserved htriples ht
    exact ⟨ht, ends_unreserved htriples _ true t ht u hu⟩
  | zeroOrOne p ih =>
    intro e he
    rcases List.mem_append.mp (List.mem_eraseDups.mp he) with he | he
    · obtain ⟨t, ht, rfl⟩ := List.mem_map.mp he
      exact ⟨nodes_unreserved htriples ht, nodes_unreserved htriples ht⟩
    · exact ih e he

end PropertyPath

theorem TermPattern.not_isReserved_of_value? {p : TermPattern} (hp : p.Unreserved)
    (hrow : row.All fun _ t => t.isReserved = false) {t : Term} (h : p.value? row = some t) :
    t.isReserved = false := by
  cases p with
  | var x => exact hrow.get? h
  | term u =>
    cases u with
    | blank label => exact hrow.get? h
    | iri i | literal l =>
      obtain rfl := Option.some.inj h
      rw [Term.isReserved_canonical]
      exact hp _ rfl

theorem Dataset.all_matchPath {d : Dataset} {g : Option NamePattern} {su o : TermPattern}
    {p : PropertyPath} (hd : d.Unreserved) (hs : su.Unreserved) (ho : o.Unreserved)
    (hrow : row.All R) (hR : ∀ x t, R x t → t.isReserved = false)
    (hcolumns : ∀ x ∈ (Pattern.path su p o).columns g, ∀ t, t.isReserved = false → R x t)
    (h : b ∈ d.matchPath g su p o row) : b.All R := by
  obtain ⟨⟨c, triples⟩, hg, h⟩ := List.mem_flatMap.mp h
  obtain ⟨hc, htriples⟩ := all_graphs hd hrow
    (fun x hx => hcolumns x (List.mem_append_right _ hx)) hg
  have hclean : c.All fun _ t => t.isReserved = false := hc.mono hR
  have hopen : ∀ q ∈ [su, o], ∀ t, t.isReserved = false → ∀ x, q.asVariable? = some x → R x t :=
    fun q hq t ht x hx => hcolumns x
      (List.mem_append_left _ (List.mem_filterMap.mpr ⟨q, hq, hx⟩)) t ht
  unfold PropertyPath.unify at h
  split at h
  · split at h
    · exact List.mem_singleton.mp h ▸ hc
    · cases h
  · rename_i t hsvalue _
    obtain ⟨u, hu, h⟩ := List.mem_filterMap.mp h
    have ht := TermPattern.not_isReserved_of_value? hs hclean hsvalue
    exact TermPattern.all_unify? hc
      (hopen o (by simp) u (PropertyPath.ends_unreserved htriples p true t ht u hu)) h
  · rename_i t _ hovalue
    obtain ⟨u, hu, h⟩ := List.mem_filterMap.mp h
    have ht := TermPattern.not_isReserved_of_value? ho hclean hovalue
    exact TermPattern.all_unify? hc
      (hopen su (by simp) u (PropertyPath.ends_unreserved htriples p false t ht u hu)) h
  · obtain ⟨e, he, h⟩ := List.mem_filterMap.mp h
    obtain ⟨first, hfirst, h⟩ := Option.bind_eq_some_iff.mp h
    obtain ⟨h1, h2⟩ := PropertyPath.pairs_unreserved htriples p e he
    exact TermPattern.all_unify?
      (TermPattern.all_unify? hc (hopen su (by simp) e.1 h1) hfirst) (hopen o (by simp) e.2 h2) h

end Matching

end SparqlBind
