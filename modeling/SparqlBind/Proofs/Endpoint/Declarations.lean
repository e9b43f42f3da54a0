import SparqlBind.CommandLine.Program
import SparqlBind.Proofs.Endpoint.Stages

/-!
# Declared prefixes

A declaration in place keeps the names distinct and in the order of their first declarations, and the
last declaration of a name wins. Since every declared IRI is checked when the endpoint starts, also one
that is declared anew later, the check made at each query passes, and a text can only be refused for
what it says itself.
-/

namespace SparqlBind

/-! ## Lists of declarations -/

namespace Namespaces

def names (n : Namespaces) : List String := n.prefixes.map Prod.fst

theorem map_fst_declare (name iri : String) (l : List (String × String)) :
    (declare name iri l).map Prod.fst =
      if name ∈ l.map Prod.fst then l.map Prod.fst else l.map Prod.fst ++ [name] := by
  induction l with
  | nil => simp [declare]
  | cons p rest ih =>
    unfold declare
    by_cases hp : p.1 = name
    · simp [hp]
    · rw [if_neg hp, List.map_cons, ih]
      have hname : name ∈ (p :: rest).map Prod.fst ↔ name ∈ rest.map Prod.fst := by
        simp [Ne.symm hp]
      simp only [hname]
      split <;> rfl

theorem nodup_declare {l : List (String × String)} (name iri : String)
    (h : (l.map Prod.fst).Nodup) : ((declare name iri l).map Prod.fst).Nodup := by
  rw [map_fst_declare]
  split
  · exact h
  · exact List.nodup_append.mpr ⟨h, List.nodup_singleton _, by grind⟩

theorem lookup_declare (name iri x : String) (l : List (String × String)) :
    (declare name iri l).lookup x = if x = name then some iri else l.lookup x := by
  induction l with
  | nil => simp [declare, List.lookup_singleton]
  | cons p rest ih =>
    unfold declare
    by_cases hp : p.1 = name
    · rw [if_pos hp]
      grind
    · rw [if_neg hp, List.lookup_cons, List.lookup_cons, ih]
      grind

theorem eq_or_mem_of_mem_declare {name iri : String} {l : List (String × String)}
    {d : String × String} (h : d ∈ declare name iri l) : d = (name, iri) ∨ d ∈ l := by
  induction l with
  | nil => exact .inl (List.mem_singleton.mp h)
  | cons p rest ih =>
    unfold declare at h
    split at h <;> grind

/-! ## Successive declarations -/

theorem withPrefixes_append (n : Namespaces) (l l' : List (String × String)) :
    n.withPrefixes (l ++ l') = (n.withPrefixes l).withPrefixes l' :=
  List.foldl_append

theorem withPrefixes_concat (n : Namespaces) (l : List (String × String)) (d : String × String) :
    n.withPrefixes (l ++ [d]) = (n.withPrefixes l).withPrefix d.1 d.2 :=
  n.withPrefixes_append l [d]

@[simp] theorem base_withPrefixes (n : Namespaces) (l : List (String × String)) :
    (n.withPrefixes l).base = n.base := by
  induction l using List.reverseRecOn with
  | nil => rfl
  | append_singleton l d ih =>
    rw [withPrefixes_concat]
    exact ih

theorem nodup_names_withPrefixes (l : List (String × String)) :
    (empty.withPrefixes l).names.Nodup := by
  induction l using List.reverseRecOn with
  | nil => exact List.nodup_nil
  | append_singleton l d ih =>
    rw [withPrefixes_concat]
    exact nodup_declare d.1 d.2 ih

/-- The names stand in the order of their first declarations. -/
theorem names_withPrefixes (l : List (String × String)) :
    (empty.withPrefixes l).names = (l.map Prod.fst).eraseDups := by
  induction l using List.reverseRecOn with
  | nil => rfl
  | append_singleton l d ih =>
    have hmem : d.1 ∈ (empty.withPrefixes l).names ↔ d.1 ∈ l.map Prod.fst := by
      rw [ih, List.mem_eraseDups]
    rw [withPrefixes_concat, List.map_append, List.map_singleton, List.eraseDups_append, ← ih]
    refine (map_fst_declare d.1 d.2 _).trans ?_
    change (if d.1 ∈ (empty.withPrefixes l).names then (empty.withPrefixes l).names
      else (empty.withPrefixes l).names ++ [d.1]) = _
    by_cases h : d.1 ∈ l.map Prod.fst
    · rw [if_pos (hmem.mpr h)]
      simp [List.removeAll, List.mem_map.mp h]
    · rw [if_neg (mt hmem.mp h)]
      simp only [List.removeAll]
      grind

/-- The last declaration of a name wins. -/
theorem lookup_withPrefixes (l : List (String × String)) (name : String) :
    (empty.withPrefixes l).prefixes.lookup name = l.reverse.lookup name := by
  induction l using List.reverseRecOn with
  | nil => rfl
  | append_singleton l d ih =>
    rw [withPrefixes_concat, List.reverse_append, List.reverse_singleton, List.singleton_append]
    refine (lookup_declare d.1 d.2 name _).trans ?_
    rw [ih]
    grind

/-- The names of `n` are those that are declared, each once, in the order of the first declarations
and with the IRIs of the last ones. -/
structure Reflects (n : Namespaces) (declarations : List (String × String)) : Prop where
  nodup_names : n.names.Nodup
  names_eq : n.names = (declarations.map Prod.fst).eraseDups
  lookup_eq : ∀ name, n.prefixes.lookup name = declarations.reverse.lookup name

theorem reflects_withPrefixes (l : List (String × String)) : (empty.withPrefixes l).Reflects l :=
  ⟨nodup_names_withPrefixes l, names_withPrefixes l, lookup_withPrefixes l⟩

theorem Reflects.names_eq_append {n : Namespaces} {l l' : List (String × String)}
    (h : n.Reflects (l ++ l')) : n.names =
      (l.map Prod.fst).eraseDups ++ ((l'.map Prod.fst).removeAll (l.map Prod.fst)).eraseDups := by
  rw [h.names_eq, List.map_append, List.eraseDups_append]

theorem mem_of_mem_withPrefixes {l : List (String × String)} {d : String × String}
    (h : d ∈ (empty.withPrefixes l).prefixes) : d ∈ l := by
  induction l using List.reverseRecOn with
  | nil => exact h
  | append_singleton l d' ih =>
    rw [withPrefixes_concat] at h
    rcases eq_or_mem_of_mem_declare h with rfl | h
    · exact List.mem_append_right l (List.mem_singleton_self _)
    · exact List.mem_append_left _ (ih h)

end Namespaces

/-! ## Checks -/

theorem Iri.isValid_iff {text : String} : isValid text = true ↔ ∃ r, check text = .ok r := by
  unfold isValid
  cases check text with
  | ok r => exact iff_of_true rfl ⟨r, rfl⟩
  | error cause => simp

namespace Namespaces

theorem isValid_wellKnownPrefixes : ∀ d ∈ wellKnownPrefixes, Iri.isValid d.2 = true := by
  decide +kernel

theorem checkPrefixes_of_valid {l : List (String × String)}
    (h : ∀ d ∈ l, Iri.isValid d.2 = true) : checkPrefixes l = .ok () := by
  induction l with
  | nil => rfl
  | cons d rest ih =>
    obtain ⟨hd, hrest⟩ := List.forall_mem_cons.mp h
    obtain ⟨r, hr⟩ := Iri.isValid_iff.mp hd
    simp only [checkPrefixes, hr]
    exact ih hrest

theorem check_withPrefixes {l : List (String × String)} (h : ∀ d ∈ l, Iri.isValid d.2 = true) :
    (empty.withPrefixes l).check = .ok () := by
  have hbase : (empty.withPrefixes l).checkBase = .ok () := by
    unfold checkBase
    rw [base_withPrefixes]
    rfl
  unfold check
  rw [hbase]
  exact checkPrefixes_of_valid fun d hd => h d (mem_of_mem_withPrefixes hd)

end Namespaces

theorem eq_malformed_of_classify {text : String} {n : Namespaces} {cause : ParseError}
    (hn : n.check = .ok ()) (h : classify text n = .error cause) : cause = .malformed := by
  unfold classify parseQuery at h
  rw [hn] at h
  cases hq : Query.parse? text (n.base.map Iri.mk) n.prefixes with
  | none =>
    simp only [hq] at h
    exact (Except.error.inj h).symm
  | some q =>
    simp only [hq] at h
    cases h

namespace QueryEndpoint

variable {e : QueryEndpoint} {text : String} {accept : Option String} {clock : Nat → Instant}

/-- Reading is the only stage that fails with an error of the parser. -/
theorem classify_of_query_parse {cause : ParseError}
    (h : (e.query text accept).run.run clock = .error (.parse cause)) :
    classify text e.namespaces = .error cause := by
  cases hq : classify text e.namespaces with
  | error cause' =>
    rw [query_of_unread hq] at h
    cases h
    rfl
  | ok r =>
    obtain ⟨q, kind⟩ := r
    rw [query_of_read hq] at h
    cases ho : (e.outcome q).run.run clock with
    | error cause' =>
      rw [ho] at h
      obtain rfl := Except.error.inj h
      rcases ends_outcome ((Timed.ends_iff_run _ _).mpr ⟨clock, ho⟩) with h | ⟨_, r', _, _, h⟩
      · cases h
      · cases r' <;> cases h
    | ok o =>
      rw [ho] at h
      change respond _ o = _ at h
      unfold respond at h
      split at h <;> cases h

end QueryEndpoint

/-! ## The start of an endpoint -/

namespace Startup

theorem declareAll_of_valid {l : List (String × String)} (n : Namespaces)
    (h : ∀ d ∈ l, Iri.isValid d.2 = true) : declareAll n l = .ok (n.withPrefixes l) := by
  induction l generalizing n with
  | nil => rfl
  | cons d rest ih =>
    obtain ⟨hd, hrest⟩ := List.forall_mem_cons.mp h
    obtain ⟨r, hr⟩ := Iri.isValid_iff.mp hd
    simp only [declareAll, hr]
    exact ih _ hrest

theorem exists_declareAll_error {l : List (String × String)} (n : Namespaces)
    (h : ∃ d ∈ l, Iri.isValid d.2 = false) : ∃ cause, declareAll n l = .error cause := by
  induction l generalizing n with
  | nil => simp at h
  | cons d rest ih =>
    cases hr : Iri.check d.2 with
    | error cause => exact ⟨⟨d.1, cause⟩, by simp only [declareAll, hr]⟩
    | ok r =>
      have hd : Iri.isValid d.2 = true := Iri.isValid_iff.mpr ⟨r, hr⟩
      obtain ⟨d', hmem, hd'⟩ := h
      rcases List.mem_cons.mp hmem with rfl | hmem
      · cases hd.symm.trans hd'
      · simp only [declareAll, hr]
        exact ih _ ⟨d', hmem, hd'⟩

theorem endpoint_eq (engine : Engine) (store : Store) (prefixes : List (String × String))
    (timeout : Option Duration) : endpoint engine store prefixes timeout =
      (declareAll .wellKnown prefixes).map fun n => ⟨engine, store, n, ⟨registry⟩, timeout⟩ := by
  unfold endpoint
  cases declareAll .wellKnown prefixes with
  | error cause => rfl
  | ok n => cases timeout <;> rfl

theorem namespaces_of_endpoint {engine : Engine} {store : Store} {prefixes : List (String × String)}
    {timeout : Option Duration} {e : QueryEndpoint} (hvalid : ∀ d ∈ prefixes, Iri.isValid d.2 = true)
    (h : endpoint engine store prefixes timeout = .ok e) :
    e.namespaces = Namespaces.empty.withPrefixes (Namespaces.wellKnownPrefixes ++ prefixes) := by
  rw [endpoint_eq, declareAll_of_valid _ hvalid] at h
  obtain rfl := Except.ok.inj h
  exact (Namespaces.withPrefixes_append _ _ _).symm

end Startup

/-! ## The declarations of a run -/

namespace CommandLine

variable {env : Environment} {given : Option RdfFormat} {base : Option String} {path : String}

/-- The file at `path` can be loaded, and these are the prefixes that it declares. -/
def Environment.Declares (env : Environment) (given : Option RdfFormat) (base : Option String)
    (path : String) (prefixes : List (String × String)) : Prop :=
  ∃ bytes data text format iri d, env.files path = some bytes ∧ dataOf path bytes = .ok data ∧
    Utf8.decode? data = some text ∧ formatOf given path = .ok format ∧
    Store.checkBase format base = .ok iri ∧ format.read? iri text.toList = some d ∧
    d.prefixes = prefixes

theorem exists_of_bind_eq_ok {ε α β : Type} {x : Except ε α} {f : α → Except ε β} {b : β}
    (h : x >>= f = .ok b) : ∃ a, x = .ok a ∧ f a = .ok b := by
  cases x with
  | error cause => cases h
  | ok a => exact ⟨a, rfl, h⟩

theorem ok_of_mapError {ε δ α : Type} {x : Except ε α} {f : ε → δ} {a : α}
    (h : x.mapError f = .ok a) : x = .ok a := by
  cases x with
  | error cause => cases h
  | ok a' => exact congrArg _ (Except.ok.inj h)

theorem prefixes_of_load {store store' : Store} {seed : String} {format : RdfFormat}
    {data : List UInt8} {prefixes : List (String × String)}
    (h : store.load seed format base data = .ok (store', prefixes)) :
    ∃ text iri d, Utf8.decode? data = some text ∧ Store.checkBase format base = .ok iri ∧
      format.read? iri text.toList = some d ∧ d.prefixes = prefixes := by
  obtain ⟨iri, hbase, h⟩ := exists_of_bind_eq_ok h
  cases hd : (Utf8.decode? data).bind fun text => format.read? iri text.toList with
  | none =>
    simp only [hd] at h
    cases h
  | some d =>
    simp only [hd] at h
    obtain ⟨text, htext, hread⟩ := Option.bind_eq_some_iff.mp hd
    exact ⟨text, iri, d, htext, hbase, hread, (Prod.mk.inj (Except.ok.inj h)).2⟩

theorem declares_of_loadFile {loaded loaded' : Loaded} {index : Nat}
    (h : loadFile env given base loaded path index = .ok loaded') :
    ∃ prefixes, env.Declares given base path prefixes ∧
      loaded'.prefixes = loaded.prefixes ++ prefixes := by
  obtain ⟨bytes, hopen, h⟩ := exists_of_bind_eq_ok h
  obtain ⟨format, hformat, h⟩ := exists_of_bind_eq_ok h
  obtain ⟨_, _, h⟩ := exists_of_bind_eq_ok h
  obtain ⟨data, hdata, h⟩ := exists_of_bind_eq_ok h
  obtain ⟨⟨store, prefixes⟩, hload, h⟩ := exists_of_bind_eq_ok h
  obtain ⟨text, iri, d, htext, hbase, hread, hd⟩ := prefixes_of_load (ok_of_mapError hload)
  have hbytes : env.files path = some bytes := by
    unfold open? at hopen
    split at hopen
    · next hfile => exact hfile.trans (congrArg some (Except.ok.inj hopen))
    · cases hopen
  obtain rfl := Except.ok.inj h
  exact ⟨prefixes, ⟨bytes, data, text, format, iri, d, hbytes, hdata, htext, hformat, hbase, hread,
    hd⟩, rfl⟩

theorem declares_of_loadFiles {files : List String} {loaded loaded' : Loaded} {index : Nat}
    (h : (files.zipIdx index).foldlM (fun loaded p => loadFile env given base loaded p.1 p.2) loaded =
      .ok loaded') :
    ∃ declared, List.Forall₂ (env.Declares given base) files declared ∧
      loaded'.prefixes = loaded.prefixes ++ declared.flatten := by
  induction files generalizing loaded index with
  | nil =>
    obtain rfl := Except.ok.inj h
    exact ⟨[], .nil, (List.append_nil _).symm⟩
  | cons path rest ih =>
    rw [List.zipIdx_cons, List.foldlM_cons] at h
    obtain ⟨next, hfile, h⟩ := exists_of_bind_eq_ok h
    obtain ⟨prefixes, hprefixes, hnext⟩ := declares_of_loadFile hfile
    obtain ⟨declared, hdeclared, hloaded⟩ := ih h
    refine ⟨prefixes :: declared, .cons hprefixes hdeclared, ?_⟩
    rw [hloaded, hnext, List.flatten_cons, List.append_assoc]

/-- The declarations of a run are those of its files in the order they are loaded. -/
theorem declares_of_loadStore {s : DataSettings} {loaded : Loaded}
    (h : loadStore env s = .ok loaded) : ∃ given declared, s.format.mapM formatOfName = .ok given ∧
      List.Forall₂ (env.Declares given s.base) s.files declared ∧
      loaded.prefixes = declared.flatten := by
  obtain ⟨given, hgiven, h⟩ := exists_of_bind_eq_ok h
  obtain ⟨declared, hdeclared, hloaded⟩ := declares_of_loadFiles h
  exact ⟨given, declared, hgiven, hdeclared, hloaded⟩

end CommandLine

open CommandLine in
/-- An endpoint starts exactly when all declared IRIs are absolute IRIs, those of replaced declarations
included. It then reads its queries with the last declaration of each name, and no query fails for the
sake of a prefix. In a run the declarations are those of the files, then those of the command line. -/
theorem Startup.endpoint_declarations :
    (∀ (engine : Engine) (store : Store) (prefixes : List (String × String))
        (timeout : Option Duration),
      ((∃ cause, endpoint engine store prefixes timeout = .error cause) ↔
        ∃ d ∈ prefixes, Iri.isValid d.2 = false) ∧
      ∀ e, endpoint engine store prefixes timeout = .ok e →
        e.namespaces.Reflects (Namespaces.wellKnownPrefixes ++ prefixes) ∧
        ["rdf", "rdfs", "xsd", "owl"] <+: e.namespaces.names ∧
        (∀ text cause, classify text e.namespaces = .error cause → cause = .malformed) ∧
        ∀ text accept clock cause,
          (e.query text accept).run.run clock = .error (.parse cause) → cause = .malformed) ∧
    ∀ (env : Environment) (s : DataSettings) (loaded : Loaded), loadStore env s = .ok loaded →
      ∃ given declared, s.format.mapM formatOfName = .ok given ∧
        List.Forall₂ (env.Declares given s.base) s.files declared ∧
        startEndpoint env s loaded = (endpoint env.engine loaded.store
          (declared.flatten ++ s.prefixes) s.queryTimeout).mapError .invalidPrefix := by
  refine ⟨fun engine store prefixes timeout => ?_, fun env s loaded h => ?_⟩
  · by_cases hinvalid : ∃ d ∈ prefixes, Iri.isValid d.2 = false
    · obtain ⟨cause, hcause⟩ := exists_declareAll_error .wellKnown hinvalid
      have herror : endpoint engine store prefixes timeout = .error cause := by
        rw [endpoint_eq, hcause]
        rfl
      refine ⟨iff_of_true ⟨cause, herror⟩ hinvalid, fun e he => ?_⟩
      cases herror.symm.trans he
    have hvalid : ∀ d ∈ prefixes, Iri.isValid d.2 = true := by simpa using hinvalid
    refine ⟨iff_of_false ?_ hinvalid, fun e he => ?_⟩
    · rintro ⟨cause, hcause⟩
      rw [endpoint_eq, declareAll_of_valid _ hvalid] at hcause
      cases hcause
    have hn := namespaces_of_endpoint hvalid he
    have hcheck : e.namespaces.check = .ok () := by
      rw [hn]
      exact Namespaces.check_withPrefixes
        (List.forall_mem_append.mpr ⟨Namespaces.isValid_wellKnownPrefixes, hvalid⟩)
    have hreflects : e.namespaces.Reflects (Namespaces.wellKnownPrefixes ++ prefixes) :=
      hn ▸ Namespaces.reflects_withPrefixes _
    refine ⟨hreflects, ?_, fun text cause => eq_malformed_of_classify hcheck,
      fun text accept clock cause hcause =>
        eq_malformed_of_classify hcheck (QueryEndpoint.classify_of_query_parse hcause)⟩
    rw [hreflects.names_eq_append]
    exact List.prefix_append _ _
  · obtain ⟨given, declared, hgiven, hdeclared, hloaded⟩ := declares_of_loadStore h
    refine ⟨given, declared, hgiven, hdeclared, ?_⟩
    unfold startEndpoint
    rw [hloaded]

/-- A name declared three times, one of the well-known ones declared anew, and an IRI that is none. -/
theorem Startup.endpoint_declarations_anew :
    (∃ e, endpoint (.standard default "") .empty
        [("ex", "http://example.com/a/"), ("xsd", "http://example.com/xsd#"),
          ("ex", "http://example.com/b/")] none = .ok e ∧
      e.namespaces.names = ["rdf", "rdfs", "xsd", "owl", "ex"] ∧
      e.namespaces.prefixes.lookup "xsd" = some "http://example.com/xsd#" ∧
      e.namespaces.prefixes.lookup "ex" = some "http://example.com/b/") ∧
    ∃ cause, endpoint (.standard default "") .empty
      [("ex", "a b"), ("ex", "http://example.com/")] none = .error cause := by
  have hvalid : ∀ d ∈ [("ex", "http://example.com/a/"), ("xsd", "http://example.com/xsd#"),
      ("ex", "http://example.com/b/")], Iri.isValid d.2 = true := by decide +kernel
  have hinvalid : ∃ d ∈ [("ex", "a b"), ("ex", "http://example.com/")], Iri.isValid d.2 = false :=
    ⟨_, List.mem_cons_self, by decide +kernel⟩
  refine ⟨?_, (endpoint_declarations.1 _ _ _ none).1.mpr hinvalid⟩
  have he := endpoint_eq (.standard default "") .empty [("ex", "http://example.com/a/"),
    ("xsd", "http://example.com/xsd#"), ("ex", "http://example.com/b/")] none
  rw [declareAll_of_valid _ hvalid] at he
  have h := ((endpoint_declarations.1 _ _ _ _).2 _ he).1
  refine ⟨_, he, h.names_eq.trans ?_, (h.lookup_eq "xsd").trans ?_, (h.lookup_eq "ex").trans ?_⟩
  · decide +kernel
  · decide +kernel
  · decide +kernel

end SparqlBind
