import SparqlBind.Extension.Outcome
import SparqlBind.Proofs.Binding
import SparqlBind.Proofs.Pattern

/-!
# Renaming of variables

A renaming changes every variable of a query, those inside of `EXISTS` included, and every variable
of what an evaluation gives back. It depends on the variables that occur only. Under an injective
renaming the operations on lists of variables, bindings and tables go along with the names.
-/

namespace SparqlBind

/-! ## Queries -/

def TermPattern.mapVars (r : Variable → Variable) : TermPattern → TermPattern
  | term t => term t
  | var x => var (r x)

def NamePattern.mapVars (r : Variable → Variable) : NamePattern → NamePattern
  | iri i => iri i
  | var x => var (r x)

def TriplePattern.mapVars (r : Variable → Variable) (t : TriplePattern) : TriplePattern :=
  ⟨t.subject.mapVars r, t.predicate.mapVars r, t.object.mapVars r⟩

mutual

def Expr.mapVars (r : Variable → Variable) : Expr → Expr
  | .constant t => .constant t
  | .var x => .var (r x)
  | .binary op a b => .binary op (a.mapVars r) (b.mapVars r)
  | .unary op a => .unary op (a.mapVars r)
  | .oneOf a candidates => .oneOf (a.mapVars r) (Expr.mapAllVars r candidates)
  | .existence p => .existence (p.mapVars r)
  | .bound x => .bound (r x)
  | .cond c a b => .cond (c.mapVars r) (a.mapVars r) (b.mapVars r)
  | .coalesce arguments => .coalesce (Expr.mapAllVars r arguments)
  | .call f arguments => .call f (Expr.mapAllVars r arguments)

def Expr.mapAllVars (r : Variable → Variable) : List Expr → List Expr
  | [] => []
  | e :: rest => e.mapVars r :: Expr.mapAllVars r rest

def OrderKey.mapAllVars (r : Variable → Variable) : List OrderKey → List OrderKey
  | [] => []
  | .ascending e :: rest => .ascending (e.mapVars r) :: OrderKey.mapAllVars r rest
  | .descending e :: rest => .descending (e.mapVars r) :: OrderKey.mapAllVars r rest

def Aggregate.mapAllVars (r : Variable → Variable) : List Aggregate → List Aggregate
  | [] => []
  | .countAll x d :: rest => .countAll (r x) d :: Aggregate.mapAllVars r rest
  | .apply x f d e :: rest => .apply (r x) f d (e.mapVars r) :: Aggregate.mapAllVars r rest

def Pattern.mapVars (r : Variable → Variable) : Pattern → Pattern
  | .bgp triples => .bgp (triples.map (·.mapVars r))
  | .path s p o => .path (s.mapVars r) p (o.mapVars r)
  | .join left right => .join (left.mapVars r) (right.mapVars r)
  | .leftJoin left right none => .leftJoin (left.mapVars r) (right.mapVars r) none
  | .leftJoin left right (some e) => .leftJoin (left.mapVars r) (right.mapVars r) (some (e.mapVars r))
  | .lateral left right => .lateral (left.mapVars r) (right.mapVars r)
  | .filter e p => .filter (e.mapVars r) (p.mapVars r)
  | .union left right => .union (left.mapVars r) (right.mapVars r)
  | .graph name p => .graph (name.mapVars r) (p.mapVars r)
  | .extend p x e => .extend (p.mapVars r) (r x) (e.mapVars r)
  | .minus left right => .minus (left.mapVars r) (right.mapVars r)
  | .values xs rows => .values (xs.map r) rows
  | .orderBy p keys => .orderBy (p.mapVars r) (OrderKey.mapAllVars r keys)
  | .project p xs => .project (p.mapVars r) (xs.map r)
  | .distinct p => .distinct (p.mapVars r)
  | .reduced p => .reduced (p.mapVars r)
  | .slice p start length => .slice (p.mapVars r) start length
  | .group p keys aggregates =>
    .group (p.mapVars r) (keys.map r) (Aggregate.mapAllVars r aggregates)
  | .service name p silent => .service (name.mapVars r) (p.mapVars r) silent

end

mutual

/-- The variables of an expression, those of its `EXISTS` included. -/
def Expr.names : Expr → List Variable
  | .constant _ => []
  | .var x => [x]
  | .binary _ a b => a.names ++ b.names
  | .unary _ a => a.names
  | .oneOf a candidates => a.names ++ Expr.allNames candidates
  | .existence p => p.names
  | .bound x => [x]
  | .cond c a b => c.names ++ a.names ++ b.names
  | .coalesce arguments => Expr.allNames arguments
  | .call _ arguments => Expr.allNames arguments

def Expr.allNames : List Expr → List Variable
  | [] => []
  | e :: rest => e.names ++ Expr.allNames rest

def OrderKey.allNames : List OrderKey → List Variable
  | [] => []
  | .ascending e :: rest => e.names ++ OrderKey.allNames rest
  | .descending e :: rest => e.names ++ OrderKey.allNames rest

def Aggregate.allNames : List Aggregate → List Variable
  | [] => []
  | .countAll x _ :: rest => x :: Aggregate.allNames rest
  | .apply x _ _ e :: rest => x :: e.names ++ Aggregate.allNames rest

def Pattern.names : Pattern → List Variable
  | .bgp triples => triples.flatMap TriplePattern.vars
  | .path s _ o => s.vars ++ o.vars
  | .join left right => left.names ++ right.names
  | .leftJoin left right none => left.names ++ right.names
  | .leftJoin left right (some e) => left.names ++ right.names ++ e.names
  | .lateral left right => left.names ++ right.names
  | .filter e p => e.names ++ p.names
  | .union left right => left.names ++ right.names
  | .graph name p => name.vars ++ p.names
  | .extend p x e => x :: e.names ++ p.names
  | .minus left right => left.names ++ right.names
  | .values xs _ => xs
  | .orderBy p keys => OrderKey.allNames keys ++ p.names
  | .project p xs => xs ++ p.names
  | .distinct p => p.names
  | .reduced p => p.names
  | .slice p _ _ => p.names
  | .group p keys aggregates => keys ++ Aggregate.allNames aggregates ++ p.names
  | .service name p _ => name.vars ++ p.names

end

namespace QueryForm

def mapVars (r : Variable → Variable) : QueryForm → QueryForm
  | construct template => construct (template.map (·.mapVars r))
  | select => select
  | describe => describe
  | ask => ask

def names : QueryForm → List Variable
  | construct template => template.flatMap TriplePattern.vars
  | select => []
  | describe => []
  | ask => []

end QueryForm

namespace Query

def mapVars (r : Variable → Variable) (q : Query) : Query :=
  { q with form := q.form.mapVars r, pattern := q.pattern.mapVars r }

/-- All variables that occur in a query. -/
def names (q : Query) : List Variable := q.form.names ++ q.pattern.names

end Query

/-! ### The identity and compositions -/

@[simp] theorem TermPattern.mapVars_id (t : TermPattern) : t.mapVars id = t := by cases t <;> rfl

@[simp] theorem NamePattern.mapVars_id (n : NamePattern) : n.mapVars id = n := by cases n <;> rfl

@[simp] theorem TriplePattern.mapVars_id (t : TriplePattern) : t.mapVars id = t := by
  simp [mapVars]

mutual

@[simp] theorem Expr.mapVars_id (e : Expr) : e.mapVars id = e := by
  cases e with
  | constant _ | var _ | bound _ => rfl
  | binary op a b => rw [Expr.mapVars, a.mapVars_id, b.mapVars_id]
  | unary op a => rw [Expr.mapVars, a.mapVars_id]
  | oneOf a candidates => rw [Expr.mapVars, a.mapVars_id, Expr.mapAllVars_id candidates]
  | existence p => rw [Expr.mapVars, p.mapVars_id]
  | cond c a b => rw [Expr.mapVars, c.mapVars_id, a.mapVars_id, b.mapVars_id]
  | coalesce arguments => rw [Expr.mapVars, Expr.mapAllVars_id arguments]
  | call f arguments => rw [Expr.mapVars, Expr.mapAllVars_id arguments]

theorem Expr.mapAllVars_id (es : List Expr) : Expr.mapAllVars id es = es := by
  cases es with
  | nil => rfl
  | cons e rest => rw [Expr.mapAllVars, e.mapVars_id, Expr.mapAllVars_id rest]

theorem OrderKey.mapAllVars_id (keys : List OrderKey) : OrderKey.mapAllVars id keys = keys := by
  cases keys with
  | nil => rfl
  | cons key rest =>
    cases key with
    | ascending e | descending e =>
      rw [OrderKey.mapAllVars, e.mapVars_id, OrderKey.mapAllVars_id rest]

theorem Aggregate.mapAllVars_id (aggregates : List Aggregate) :
    Aggregate.mapAllVars id aggregates = aggregates := by
  cases aggregates with
  | nil => rfl
  | cons a rest =>
    cases a with
    | countAll x d => rw [Aggregate.mapAllVars, id, Aggregate.mapAllVars_id rest]
    | apply x f d e => rw [Aggregate.mapAllVars, id, e.mapVars_id, Aggregate.mapAllVars_id rest]

@[simp] theorem Pattern.mapVars_id (p : Pattern) : p.mapVars id = p := by
  cases p with
  | bgp triples => simp [Pattern.mapVars]
  | path s path o => simp [Pattern.mapVars]
  | leftJoin left right e =>
    cases e with
    | none => rw [Pattern.mapVars, left.mapVars_id, right.mapVars_id]
    | some e => rw [Pattern.mapVars, left.mapVars_id, right.mapVars_id, e.mapVars_id]
  | join left right | lateral left right | union left right | minus left right =>
    rw [Pattern.mapVars, left.mapVars_id, right.mapVars_id]
  | filter e p => rw [Pattern.mapVars, e.mapVars_id, p.mapVars_id]
  | graph name p | service name p _ => rw [Pattern.mapVars, name.mapVars_id, p.mapVars_id]
  | extend p x e => rw [Pattern.mapVars, p.mapVars_id, e.mapVars_id, id]
  | values xs rows => rw [Pattern.mapVars, List.map_id]
  | orderBy p keys => rw [Pattern.mapVars, p.mapVars_id, OrderKey.mapAllVars_id keys]
  | project p xs => rw [Pattern.mapVars, p.mapVars_id, List.map_id]
  | distinct p | reduced p | slice p _ _ => rw [Pattern.mapVars, p.mapVars_id]
  | group p keys aggregates =>
    rw [Pattern.mapVars, p.mapVars_id, List.map_id, Aggregate.mapAllVars_id aggregates]

end

@[simp] theorem QueryForm.mapVars_id (form : QueryForm) : form.mapVars id = form := by
  cases form with
  | construct template => simp [mapVars]
  | select | describe | ask => rfl

@[simp] theorem Query.mapVars_id (q : Query) : q.mapVars id = q := by simp [mapVars]

section Composition
variable {f g k : Variable → Variable}

theorem map_map_of_agree {xs : List Variable} (h : ∀ x ∈ xs, g (f x) = k x) :
    (xs.map f).map g = xs.map k := by
  rw [List.map_map]
  exact List.map_congr_left h

theorem TermPattern.mapVars_mapVars {t : TermPattern} (h : ∀ x ∈ t.vars, g (f x) = k x) :
    (t.mapVars f).mapVars g = t.mapVars k := by
  cases t with
  | term t => rfl
  | var x => exact congrArg TermPattern.var (h x (List.mem_singleton_self x))

theorem NamePattern.mapVars_mapVars {n : NamePattern} (h : ∀ x ∈ n.vars, g (f x) = k x) :
    (n.mapVars f).mapVars g = n.mapVars k := by
  cases n with
  | iri i => rfl
  | var x => exact congrArg NamePattern.var (h x (List.mem_singleton_self x))

theorem TriplePattern.mapVars_mapVars {t : TriplePattern} (h : ∀ x ∈ t.vars, g (f x) = k x) :
    (t.mapVars f).mapVars g = t.mapVars k := by
  simp only [TriplePattern.vars, List.forall_mem_append] at h
  obtain ⟨⟨hs, hp⟩, ho⟩ := h
  unfold mapVars
  rw [TermPattern.mapVars_mapVars hs, NamePattern.mapVars_mapVars hp, TermPattern.mapVars_mapVars ho]

theorem map_mapVars_mapVars {triples : List TriplePattern}
    (h : ∀ x ∈ triples.flatMap TriplePattern.vars, g (f x) = k x) :
    (triples.map (·.mapVars f)).map (·.mapVars g) = triples.map (·.mapVars k) := by
  rw [List.map_map]
  refine List.map_congr_left fun t ht => ?_
  exact TriplePattern.mapVars_mapVars fun x hx => h x (List.mem_flatMap.mpr ⟨t, ht, hx⟩)

mutual

/-- Only the variables that occur are looked at. -/
theorem Expr.mapVars_mapVars {e : Expr} (h : ∀ x ∈ e.names, g (f x) = k x) :
    (e.mapVars f).mapVars g = e.mapVars k := by
  cases e with
  | constant t => rfl
  | var x | bound x =>
    have hx := h x (List.mem_singleton_self x)
    simp only [Expr.mapVars, hx]
  | binary op a b =>
    obtain ⟨ha, hb⟩ := List.forall_mem_append.mp h
    simp only [Expr.mapVars, Expr.mapVars_mapVars ha, Expr.mapVars_mapVars hb]
  | unary op a =>
    have ha := Expr.mapVars_mapVars (e := a) h
    simp only [Expr.mapVars, ha]
  | oneOf a candidates =>
    obtain ⟨ha, hcandidates⟩ := List.forall_mem_append.mp h
    simp only [Expr.mapVars, Expr.mapVars_mapVars ha, Expr.mapAllVars_mapAllVars hcandidates]
  | existence p =>
    have hp := Pattern.mapVars_mapVars (p := p) h
    simp only [Expr.mapVars, hp]
  | cond c a b =>
    obtain ⟨hca, hb⟩ := List.forall_mem_append.mp h
    obtain ⟨hc, ha⟩ := List.forall_mem_append.mp hca
    simp only [Expr.mapVars, Expr.mapVars_mapVars hc, Expr.mapVars_mapVars ha,
      Expr.mapVars_mapVars hb]
  | coalesce arguments | call _ arguments =>
    have harguments : Expr.mapAllVars g (Expr.mapAllVars f arguments) =
        Expr.mapAllVars k arguments := Expr.mapAllVars_mapAllVars h
    simp only [Expr.mapVars, harguments]

theorem Expr.mapAllVars_mapAllVars {es : List Expr} (h : ∀ x ∈ Expr.allNames es, g (f x) = k x) :
    Expr.mapAllVars g (Expr.mapAllVars f es) = Expr.mapAllVars k es := by
  cases es with
  | nil => rfl
  | cons e rest =>
    obtain ⟨he, hrest⟩ := List.forall_mem_append.mp h
    simp only [Expr.mapAllVars, Expr.mapVars_mapVars he, Expr.mapAllVars_mapAllVars hrest]

theorem OrderKey.mapAllVars_mapAllVars {keys : List OrderKey}
    (h : ∀ x ∈ OrderKey.allNames keys, g (f x) = k x) :
    OrderKey.mapAllVars g (OrderKey.mapAllVars f keys) = OrderKey.mapAllVars k keys := by
  cases keys with
  | nil => rfl
  | cons key rest =>
    cases key with
    | ascending e | descending e =>
      obtain ⟨he, hrest⟩ := List.forall_mem_append.mp h
      simp only [OrderKey.mapAllVars, Expr.mapVars_mapVars he,
        OrderKey.mapAllVars_mapAllVars hrest]

theorem Aggregate.mapAllVars_mapAllVars {aggregates : List Aggregate}
    (h : ∀ x ∈ Aggregate.allNames aggregates, g (f x) = k x) :
    Aggregate.mapAllVars g (Aggregate.mapAllVars f aggregates) =
      Aggregate.mapAllVars k aggregates := by
  cases aggregates with
  | nil => rfl
  | cons a rest =>
    cases a with
    | countAll x d =>
      obtain ⟨hx, hrest⟩ := List.forall_mem_cons.mp h
      simp only [Aggregate.mapAllVars, hx, Aggregate.mapAllVars_mapAllVars hrest]
    | apply x function d e =>
      obtain ⟨hxe, hrest⟩ := List.forall_mem_append.mp h
      obtain ⟨hx, he⟩ := List.forall_mem_cons.mp hxe
      simp only [Aggregate.mapAllVars, hx, Expr.mapVars_mapVars he,
        Aggregate.mapAllVars_mapAllVars hrest]

theorem Pattern.mapVars_mapVars {p : Pattern} (h : ∀ x ∈ p.names, g (f x) = k x) :
    (p.mapVars f).mapVars g = p.mapVars k := by
  cases p with
  | bgp triples => simp only [Pattern.mapVars, map_mapVars_mapVars h]
  | path s path o =>
    obtain ⟨hs, ho⟩ := List.forall_mem_append.mp h
    simp only [Pattern.mapVars, TermPattern.mapVars_mapVars hs, TermPattern.mapVars_mapVars ho]
  | leftJoin left right e =>
    cases e with
    | none =>
      obtain ⟨hleft, hright⟩ := List.forall_mem_append.mp h
      simp only [Pattern.mapVars, Pattern.mapVars_mapVars hleft, Pattern.mapVars_mapVars hright]
    | some e =>
      obtain ⟨hparts, he⟩ := List.forall_mem_append.mp h
      obtain ⟨hleft, hright⟩ := List.forall_mem_append.mp hparts
      simp only [Pattern.mapVars, Pattern.mapVars_mapVars hleft, Pattern.mapVars_mapVars hright,
        Expr.mapVars_mapVars he]
  | join left right | lateral left right | union left right | minus left right =>
    obtain ⟨hleft, hright⟩ := List.forall_mem_append.mp h
    simp only [Pattern.mapVars, Pattern.mapVars_mapVars hleft, Pattern.mapVars_mapVars hright]
  | filter e p =>
    obtain ⟨he, hp⟩ := List.forall_mem_append.mp h
    simp only [Pattern.mapVars, Expr.mapVars_mapVars he, Pattern.mapVars_mapVars hp]
  | graph name p | service name p _ =>
    obtain ⟨hname, hp⟩ := List.forall_mem_append.mp h
    simp only [Pattern.mapVars, NamePattern.mapVars_mapVars hname, Pattern.mapVars_mapVars hp]
  | extend p x e =>
    obtain ⟨hxe, hp⟩ := List.forall_mem_append.mp h
    obtain ⟨hx, he⟩ := List.forall_mem_cons.mp hxe
    simp only [Pattern.mapVars, hx, Expr.mapVars_mapVars he, Pattern.mapVars_mapVars hp]
  | values xs rows =>
    have hxs : (xs.map f).map g = xs.map k := map_map_of_agree h
    simp only [Pattern.mapVars, hxs]
  | orderBy p keys =>
    obtain ⟨hkeys, hp⟩ := List.forall_mem_append.mp h
    simp only [Pattern.mapVars, OrderKey.mapAllVars_mapAllVars hkeys, Pattern.mapVars_mapVars hp]
  | project p xs =>
    obtain ⟨hxs, hp⟩ := List.forall_mem_append.mp h
    simp only [Pattern.mapVars, map_map_of_agree hxs, Pattern.mapVars_mapVars hp]
  | distinct p | reduced p | slice p _ _ =>
    have hp := Pattern.mapVars_mapVars (p := p) h
    simp only [Pattern.mapVars, hp]
  | group p keys aggregates =>
    obtain ⟨hnew, hp⟩ := List.forall_mem_append.mp h
    obtain ⟨hkeys, haggregates⟩ := List.forall_mem_append.mp hnew
    simp only [Pattern.mapVars, map_map_of_agree hkeys,
      Aggregate.mapAllVars_mapAllVars haggregates, Pattern.mapVars_mapVars hp]

end

theorem Query.mapVars_mapVars {q : Query} (h : ∀ x ∈ q.names, g (f x) = k x) :
    (q.mapVars f).mapVars g = q.mapVars k := by
  obtain ⟨hform, hpattern⟩ := List.forall_mem_append.mp h
  have hform' : (q.form.mapVars f).mapVars g = q.form.mapVars k := by
    cases hq : q.form with
    | construct template =>
      rw [hq] at hform
      exact congrArg QueryForm.construct (map_mapVars_mapVars hform)
    | select | describe | ask => rfl
  simp only [mapVars, hform', Pattern.mapVars_mapVars hpattern]

theorem Expr.mapVars_congr {e : Expr} (h : ∀ x ∈ e.names, f x = g x) : e.mapVars f = e.mapVars g := by
  have hcomposed := Expr.mapVars_mapVars (f := id) (g := f) h
  rwa [Expr.mapVars_id] at hcomposed

theorem Query.mapVars_congr {q : Query} (h : ∀ x ∈ q.names, f x = g x) :
    q.mapVars f = q.mapVars g := by
  have hcomposed := Query.mapVars_mapVars (f := id) (g := f) h
  rwa [Query.mapVars_id] at hcomposed

end Composition

/-! ### The variables that occur -/

section Names
variable {r : Variable → Variable}

@[simp] theorem TermPattern.vars_mapVars (t : TermPattern) : (t.mapVars r).vars = t.vars.map r := by
  cases t <;> rfl

@[simp] theorem NamePattern.vars_mapVars (n : NamePattern) : (n.mapVars r).vars = n.vars.map r := by
  cases n <;> rfl

@[simp] theorem TriplePattern.vars_mapVars (t : TriplePattern) :
    (t.mapVars r).vars = t.vars.map r := by
  simp [TriplePattern.vars, mapVars]

theorem flatMap_vars_mapVars (triples : List TriplePattern) :
    (triples.map (·.mapVars r)).flatMap TriplePattern.vars =
      (triples.flatMap TriplePattern.vars).map r := by
  rw [List.flatMap_map, List.map_flatMap]
  exact List.flatMap_congr fun t _ => t.vars_mapVars

mutual

theorem Expr.names_mapVars (e : Expr) : (e.mapVars r).names = e.names.map r := by
  cases e with
  | constant t | var x | bound x => rfl
  | binary op a b => simp only [Expr.mapVars, Expr.names, List.map_append, a.names_mapVars, b.names_mapVars]
  | unary op a => simp only [Expr.mapVars, Expr.names, a.names_mapVars]
  | oneOf a candidates =>
    simp only [Expr.mapVars, Expr.names, List.map_append, a.names_mapVars,
      Expr.allNames_mapAllVars candidates]
  | existence p => simp only [Expr.mapVars, Expr.names, p.names_mapVars]
  | cond c a b =>
    simp only [Expr.mapVars, Expr.names, List.map_append, c.names_mapVars, a.names_mapVars,
      b.names_mapVars]
  | coalesce arguments | call f arguments =>
    simp only [Expr.mapVars, Expr.names, Expr.allNames_mapAllVars arguments]

theorem Expr.allNames_mapAllVars (es : List Expr) :
    Expr.allNames (Expr.mapAllVars r es) = (Expr.allNames es).map r := by
  cases es with
  | nil => rfl
  | cons e rest =>
    simp only [Expr.mapAllVars, Expr.allNames, List.map_append, e.names_mapVars,
      Expr.allNames_mapAllVars rest]

theorem OrderKey.allNames_mapAllVars (keys : List OrderKey) :
    OrderKey.allNames (OrderKey.mapAllVars r keys) = (OrderKey.allNames keys).map r := by
  cases keys with
  | nil => rfl
  | cons key rest =>
    cases key with
    | ascending e | descending e =>
      simp only [OrderKey.mapAllVars, OrderKey.allNames, List.map_append, e.names_mapVars,
        OrderKey.allNames_mapAllVars rest]

theorem Aggregate.allNames_mapAllVars (aggregates : List Aggregate) :
    Aggregate.allNames (Aggregate.mapAllVars r aggregates) =
      (Aggregate.allNames aggregates).map r := by
  cases aggregates with
  | nil => rfl
  | cons a rest =>
    cases a with
    | countAll x d =>
      simp only [Aggregate.mapAllVars, Aggregate.allNames, List.map_cons,
        Aggregate.allNames_mapAllVars rest]
    | apply x f d e =>
      simp only [Aggregate.mapAllVars, Aggregate.allNames, List.map_cons, List.map_append,
        List.cons_append, e.names_mapVars, Aggregate.allNames_mapAllVars rest]

theorem Pattern.names_mapVars (p : Pattern) : (p.mapVars r).names = p.names.map r := by
  cases p with
  | bgp triples => exact flatMap_vars_mapVars triples
  | path s path o =>
    simp only [Pattern.mapVars, Pattern.names, List.map_append, TermPattern.vars_mapVars]
  | leftJoin left right e =>
    cases e with
    | none =>
      simp only [Pattern.mapVars, Pattern.names, List.map_append, left.names_mapVars,
        right.names_mapVars]
    | some e =>
      simp only [Pattern.mapVars, Pattern.names, List.map_append, left.names_mapVars,
        right.names_mapVars, e.names_mapVars]
  | join left right | lateral left right | union left right | minus left right =>
    simp only [Pattern.mapVars, Pattern.names, List.map_append, left.names_mapVars,
      right.names_mapVars]
  | filter e p =>
    simp only [Pattern.mapVars, Pattern.names, List.map_append, e.names_mapVars, p.names_mapVars]
  | graph name p | service name p _ =>
    simp only [Pattern.mapVars, Pattern.names, List.map_append, NamePattern.vars_mapVars,
      p.names_mapVars]
  | extend p x e =>
    simp only [Pattern.mapVars, Pattern.names, List.map_cons, List.map_append, List.cons_append,
      e.names_mapVars, p.names_mapVars]
  | values xs rows => rfl
  | orderBy p keys =>
    simp only [Pattern.mapVars, Pattern.names, List.map_append, p.names_mapVars,
      OrderKey.allNames_mapAllVars keys]
  | project p xs => simp only [Pattern.mapVars, Pattern.names, List.map_append, p.names_mapVars]
  | distinct p | reduced p | slice p _ _ => simp only [Pattern.mapVars, Pattern.names, p.names_mapVars]
  | group p keys aggregates =>
    simp only [Pattern.mapVars, Pattern.names, List.map_append, p.names_mapVars,
      Aggregate.allNames_mapAllVars aggregates]

end

theorem Query.names_mapVars (q : Query) : (q.mapVars r).names = q.names.map r := by
  have hform : (q.form.mapVars r).names = q.form.names.map r := by
    cases q.form with
    | construct template => exact flatMap_vars_mapVars template
    | select | describe | ask => rfl
  simp only [mapVars, names, List.map_append, hform, Pattern.names_mapVars]

theorem Expr.isVar_mapVars (e : Expr) : (e.mapVars r).isVar = e.isVar := by cases e <;> rfl

theorem Expr.mapAllVars_eq_map (es : List Expr) : Expr.mapAllVars r es = es.map (·.mapVars r) := by
  induction es with
  | nil => rfl
  | cons e rest ih => rw [Expr.mapAllVars, ih, List.map_cons]

theorem Aggregate.target_mapAllVars (aggregates : List Aggregate) :
    (Aggregate.mapAllVars r aggregates).map target = (aggregates.map target).map r := by
  induction aggregates with
  | nil => rfl
  | cons a rest ih =>
    cases a with
    | countAll x d | apply x f d e => exact congrArg (r x :: ·) ih

/-- The variables in scope go along, those that a selection hides do not matter. -/
theorem Pattern.mentions_mapVars (p : Pattern) : (p.mapVars r).mentions = p.mentions.map r := by
  induction p with
  | bgp triples => exact flatMap_vars_mapVars triples
  | path s path o => simp only [mapVars, mentions, List.map_append, TermPattern.vars_mapVars]
  | leftJoin left right e ihl ihr =>
    cases e with
    | none | some e => simp only [mapVars, mentions, List.map_append, ihl, ihr]
  | join left right ihl ihr | lateral left right ihl ihr | union left right ihl ihr =>
    simp only [mapVars, mentions, List.map_append, ihl, ihr]
  | graph name p ih =>
    simp only [mapVars, mentions, List.map_append, ih, NamePattern.vars_mapVars]
  | extend p x e ih => simp only [mapVars, mentions, List.map_cons, ih]
  | minus left right ihl ihr => simp only [mapVars, mentions, ihl]
  | values xs rows | project p xs ih => rfl
  | filter _ p ih | orderBy p _ ih | distinct p ih | reduced p ih | slice p _ _ ih
  | service _ p _ ih => simp only [mapVars, mentions, ih]
  | group p keys aggregates ih =>
    simp only [mapVars, mentions, List.map_append, Aggregate.target_mapAllVars]

end Names

end SparqlBind
