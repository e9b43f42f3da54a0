import Mathlib.Data.List.Dedup
import Mathlib.Data.List.Induction
import Mathlib.Data.List.Lex
import Mathlib.Data.List.Perm.Basic
import Mathlib.Data.List.Perm.Subperm
import Mathlib.Data.String.Basic
import SparqlBind.Http.Health
import SparqlBind.Http.ServiceDescription
import SparqlBind.Proofs.Http.FormData
import SparqlBind.Proofs.Scalars

/-!
# Registrations

A registry is an association list with increasing names, and a registration changes what is found at
one name only. So after any registrations the lookup, the list of names, the service description and
the health document show the same functions: those registered, each with its last registration. The
names are ordered as texts, which is the order of their bytes, since no byte in the UTF-8 form of a
character is smaller than the one that a smaller character has in its place.
-/

namespace SparqlBind

/-! ## The order of bytes -/

namespace Utf8

/-- The bytes of a character tell it from a greater one, whatever follows. -/
theorem utf8EncodeChar_append_lt {c d : Char} (h : c < d) (x y : List UInt8) :
    String.utf8EncodeChar c ++ x < String.utf8EncodeChar d ++ y := by
  have hlt : c.val.toNat < d.val.toNat := h
  have hmax : d.val.toNat < 0x110000 := by
    rcases d.valid with hvalid | ⟨_, hvalid⟩
    · exact Nat.lt_trans hvalid (by decide)
    · exact hvalid
  unfold String.utf8EncodeChar
  dsimp only
  generalize c.val.toNat = m at *
  generalize d.val.toNat = n at *
  -- the digits to the base 64 that the bytes carry
  have hdigits : m / 262144 < n / 262144 ∨ m / 262144 = n / 262144 ∧
      (m / 4096 % 64 < n / 4096 % 64 ∨ m / 4096 % 64 = n / 4096 % 64 ∧
        (m / 64 % 64 < n / 64 % 64 ∨ m / 64 % 64 = n / 64 % 64 ∧ m % 64 < n % 64)) := by
    omega
  split_ifs
  all_goals
    simp only [List.cons_append, List.nil_append, List.cons_lt_cons_iff, UInt8.lt_iff_toNat_lt,
      ← UInt8.toNat_inj, UInt8.toNat_ofNat']
    simp (disch := omega) only [Nat.mod_eq_of_lt]
    omega

theorem flatMap_utf8EncodeChar_lt {cs ds : List Char} (h : cs < ds) :
    cs.flatMap String.utf8EncodeChar < ds.flatMap String.utf8EncodeChar := by
  induction cs generalizing ds with
  | nil =>
    cases ds with
    | nil => exact absurd h (List.lt_irrefl _)
    | cons d ds =>
      obtain ⟨b, bytes, hbytes⟩ : ∃ b bytes, String.utf8EncodeChar d = b :: bytes :=
        List.exists_cons_of_ne_nil String.utf8EncodeChar_ne_nil
      rw [List.flatMap_cons, hbytes]
      exact List.nil_lt_cons _ _
  | cons c cs ih =>
    cases ds with
    | nil => exact absurd h (List.not_lt_nil _)
    | cons d ds =>
      rw [List.flatMap_cons, List.flatMap_cons]
      rcases List.cons_lt_cons_iff.mp h with hlt | ⟨rfl, hlt⟩
      · exact utf8EncodeChar_append_lt hlt _ _
      · exact List.append_left_lt (ih hlt)

/-- Texts are ordered like their bytes. -/
theorem encode_lt_encode {s t : String} (h : s < t) : encode s < encode t := by
  rw [← String.ofList_toList (s := s), ← String.ofList_toList (s := t), encode_ofList,
    encode_ofList]
  exact flatMap_utf8EncodeChar_lt (String.lt_iff_toList_lt.mp h)

end Utf8

theorem Iri.text_inj {i j : Iri} : i.text = j.text ↔ i = j := by
  cases i
  cases j
  simp

namespace Registry

/-! ## One registration -/

section Insert
variable {entries : List (String × ExtensionFunction)}

theorem lookup_insert (name x : String) (f : ExtensionFunction)
    (entries : List (String × ExtensionFunction)) :
    (insert name f entries).lookup x = if x = name then some f else entries.lookup x := by
  induction entries with
  | nil =>
    rw [insert, List.lookup_cons]
    grind
  | cons e rest ih =>
    unfold insert
    by_cases heq : name = e.1
    · rw [if_pos heq, List.lookup_cons, List.lookup_cons, heq]
      grind
    · rw [if_neg heq]
      split
      · rw [List.lookup_cons]
        grind
      · rw [List.lookup_cons, List.lookup_cons, ih]
        grind

theorem mem_names_insert (name x : String) (f : ExtensionFunction)
    (entries : List (String × ExtensionFunction)) :
    x ∈ (insert name f entries).map Prod.fst ↔ x = name ∨ x ∈ entries.map Prod.fst := by
  induction entries with
  | nil => simp [insert]
  | cons e rest ih =>
    unfold insert
    split
    · next heq => simp [heq]
    · split
      · simp
      · simp only [List.map_cons, List.mem_cons, ih]
        exact or_left_comm

theorem increasing_insert (name : String) (f : ExtensionFunction)
    (h : (entries.map Prod.fst).Pairwise (· < ·)) :
    ((insert name f entries).map Prod.fst).Pairwise (· < ·) := by
  induction entries with
  | nil => exact List.pairwise_singleton _ _
  | cons e rest ih =>
    rw [List.map_cons, List.pairwise_cons] at h
    obtain ⟨hfirst, hrest⟩ := h
    unfold insert
    split
    · next heq => exact List.pairwise_cons.mpr ⟨heq ▸ hfirst, hrest⟩
    · next hne =>
      split
      · next hlt =>
        refine List.pairwise_cons.mpr ⟨fun x hx => ?_, List.pairwise_cons.mpr ⟨hfirst, hrest⟩⟩
        rcases List.mem_cons.mp hx with rfl | hx
        · exact hlt
        · exact lt_trans hlt (hfirst x hx)
      · next hle =>
        refine List.pairwise_cons.mpr ⟨fun x hx => ?_, ih hrest⟩
        rcases (mem_names_insert name x f rest).mp hx with rfl | hx
        · exact lt_of_le_of_ne (not_lt.mp hle) (Ne.symm hne)
        · exact hfirst x hx

end Insert

/-- The names are strictly increasing. -/
def IsOrdered (r : Registry) : Prop := (r.entries.map Prod.fst).Pairwise (· < ·)

variable {r : Registry} {i j : Iri} {f : ExtensionFunction}

theorem lookup_register (r : Registry) (i j : Iri) (f : ExtensionFunction) :
    (r.register i f).1.lookup j = if j = i then some f else r.lookup j := by
  simp only [← Iri.text_inj]
  exact lookup_insert i.text j.text f r.entries

theorem map_text_functionNames (r : Registry) :
    r.functionNames.map Iri.text = r.entries.map Prod.fst := by
  rw [functionNames, List.map_map]
  rfl

theorem mem_functionNames_iff : i ∈ r.functionNames ↔ i.text ∈ r.entries.map Prod.fst := by
  rw [← map_text_functionNames, List.mem_map]
  simp only [Iri.text_inj, exists_eq_right]

theorem mem_functionNames_register :
    j ∈ (r.register i f).1.functionNames ↔ j = i ∨ j ∈ r.functionNames := by
  rw [mem_functionNames_iff, mem_functionNames_iff, ← Iri.text_inj]
  exact mem_names_insert i.text j.text f r.entries

theorem IsOrdered.register (h : r.IsOrdered) (i : Iri) (f : ExtensionFunction) :
    (r.register i f).1.IsOrdered := increasing_insert i.text f h

theorem IsOrdered.increasing_bytes (h : r.IsOrdered) :
    (r.functionNames.map fun i => Utf8.encode i.text).Pairwise (· < ·) := by
  unfold IsOrdered at h
  rw [← map_text_functionNames, List.pairwise_map] at h
  exact h.map _ fun _ _ => Utf8.encode_lt_encode

theorem IsOrdered.nodup (h : r.IsOrdered) : r.functionNames.Nodup := by
  unfold IsOrdered at h
  rw [← map_text_functionNames] at h
  exact List.Nodup.of_map _ (h.imp ne_of_lt)

/-! ## Successive registrations -/

/-- The registry that the registrations leave. -/
def ofRegistrations (rs : List (Iri × ExtensionFunction)) : Registry :=
  rs.foldl (fun r e => (r.register e.1 e.2).1) empty

theorem ofRegistrations_concat (rs : List (Iri × ExtensionFunction)) (e : Iri × ExtensionFunction) :
    ofRegistrations (rs ++ [e]) = ((ofRegistrations rs).register e.1 e.2).1 :=
  List.foldl_append

variable (rs : List (Iri × ExtensionFunction))

theorem isOrdered_ofRegistrations : (ofRegistrations rs).IsOrdered := by
  induction rs using List.reverseRecOn with
  | nil => exact List.Pairwise.nil
  | append_singleton rs e ih =>
    rw [ofRegistrations_concat]
    exact ih.register e.1 e.2

/-- The last registration of an IRI stands. -/
theorem lookup_ofRegistrations (i : Iri) : (ofRegistrations rs).lookup i = rs.reverse.lookup i := by
  induction rs using List.reverseRecOn with
  | nil => rfl
  | append_singleton rs e ih =>
    rw [ofRegistrations_concat, lookup_register, ih, List.reverse_append, List.reverse_singleton,
      List.singleton_append, List.lookup_cons]
    grind

theorem mem_functionNames_ofRegistrations {i : Iri} :
    i ∈ (ofRegistrations rs).functionNames ↔ i ∈ rs.map Prod.fst := by
  induction rs using List.reverseRecOn with
  | nil => exact iff_of_false List.not_mem_nil List.not_mem_nil
  | append_singleton rs e ih =>
    rw [ofRegistrations_concat, mem_functionNames_register, ih, List.map_append, List.mem_append,
      List.map_singleton, List.mem_singleton]
    exact or_comm

/-- The registry holds what the registrations say: the names, each once and in the order of their
bytes, are those of the registrations, and the last registration of each stands. -/
structure Reflects (r : Registry) (rs : List (Iri × ExtensionFunction)) : Prop where
  lookup_eq : ∀ i, r.lookup i = rs.reverse.lookup i
  replaced_eq : ∀ i f, (r.register i f).2 = rs.reverse.lookup i
  isSome_replaced_iff : ∀ i f, (r.register i f).2.isSome ↔ i ∈ rs.map Prod.fst
  mem_names_iff : ∀ i, i ∈ r.functionNames ↔ i ∈ rs.map Prod.fst
  nodup_names : r.functionNames.Nodup
  increasing_names : (r.functionNames.map fun i => Utf8.encode i.text).Pairwise (· < ·)
  size_eq : r.size = (rs.map Prod.fst).dedup.length

theorem reflects_ofRegistrations : (ofRegistrations rs).Reflects rs := by
  have hordered := isOrdered_ofRegistrations rs
  have hlookup := lookup_ofRegistrations rs
  have hmem : ∀ i, i ∈ (ofRegistrations rs).functionNames ↔ i ∈ rs.map Prod.fst :=
    fun _ => mem_functionNames_ofRegistrations rs
  refine ⟨hlookup, fun i _ => hlookup i, fun i f => ?_, hmem, hordered.nodup,
    hordered.increasing_bytes, ?_⟩
  · change ((ofRegistrations rs).lookup i).isSome ↔ _
    rw [hlookup, List.lookup_isSome_iff]
    simp
  · have hperm : (ofRegistrations rs).functionNames.Perm (rs.map Prod.fst).dedup :=
      (List.perm_ext_iff_of_nodup hordered.nodup (List.nodup_dedup _)).mpr
        fun i => (hmem i).trans List.mem_dedup.symm
    rw [← hperm.length_eq]
    exact (List.length_map _).symm

variable {rs} in
theorem Reflects.count_names (h : r.Reflects rs) (i : Iri) :
    r.functionNames.count i = if i ∈ rs.map Prod.fst then 1 else 0 := by
  rw [h.nodup_names.count]
  simp only [h.mem_names_iff]

end Registry

/-! ## What others are told -/

namespace ServiceDescription

/-- A triple that types a function or links the service to one. -/
def isAboutFunction (t : Triple) : Bool :=
  t.predicate = sd "extensionFunction" || (t.predicate = Iri.rdfType && t.object = .iri (sd "Function"))

variable (d : ServiceDescription) (dataset graph : String)

theorem filter_ownTriples : (d.ownTriples dataset graph).filter isAboutFunction = [] := by
  rfl

theorem filter_functionTriples (f : Iri) :
    (d.functionTriples f).filter isAboutFunction = d.functionTriples f := by
  rfl

/-- What is said about functions is said of the registered ones, in their order. -/
theorem filter_triples (r : Registry) : (d.triples r dataset graph).filter isAboutFunction =
    r.functionNames.flatMap d.functionTriples := by
  rw [triples, List.filter_append, filter_ownTriples, List.nil_append, List.filter_flatMap]
  exact List.flatMap_congr fun f _ => filter_functionTriples d f

/-- The triple that types a function. -/
def typing (f : Iri) : Triple := ⟨.iri f, Iri.rdfType, .iri (sd "Function")⟩

/-- The triple that links the service to a function. -/
def link (f : Iri) : Triple := ⟨.iri d.publicUrl, sd "extensionFunction", .iri f⟩

theorem count_functionTriples (names : List Iri) (f : Iri) :
    (names.flatMap d.functionTriples).count (typing f) = names.count f ∧
    (names.flatMap d.functionTriples).count (d.link f) = names.count f := by
  have hpredicate : sd "extensionFunction" ≠ Iri.rdfType := by decide
  induction names with
  | nil => exact ⟨rfl, rfl⟩
  | cons x rest ih =>
    have htyping : (d.functionTriples x).count (typing f) = [x].count f := by
      simp [functionTriples, typing, List.count_cons, hpredicate]
    have hlink : (d.functionTriples x).count (d.link f) = [x].count f := by
      simp [functionTriples, link, List.count_cons, hpredicate.symm]
    rw [List.flatMap_cons, List.count_append, List.count_append, ih.1, ih.2, htyping, hlink,
      ← List.count_append]
    exact ⟨rfl, rfl⟩

theorem count_triples (r : Registry) (f : Iri) :
    (d.triples r dataset graph).count (typing f) = r.functionNames.count f ∧
    (d.triples r dataset graph).count (d.link f) = r.functionNames.count f := by
  have hcount : ∀ t, isAboutFunction t = true →
      (d.triples r dataset graph).count t = (r.functionNames.flatMap d.functionTriples).count t := by
    intro t ht
    rw [← filter_triples d dataset graph, List.count_filter ht]
  rw [hcount _ rfl, hcount _ rfl]
  exact count_functionTriples d r.functionNames f

end ServiceDescription

/-- After any registrations the registry, the service description and the health document show the same
functions, each once and with its last registration, in the order of the bytes of their names. -/
theorem Registry.ofRegistrations_shown (rs : List (Iri × ExtensionFunction)) :
    (ofRegistrations rs).Reflects rs ∧
    (∀ (d : ServiceDescription) (dataset graph : String),
      (d.triples (ofRegistrations rs) dataset graph).filter ServiceDescription.isAboutFunction =
        (ofRegistrations rs).functionNames.flatMap
          (fun f => [ServiceDescription.typing f, d.link f]) ∧
      ∀ f, (d.triples (ofRegistrations rs) dataset graph).count (ServiceDescription.typing f) =
          (if f ∈ rs.map Prod.fst then 1 else 0) ∧
        (d.triples (ofRegistrations rs) dataset graph).count (d.link f) =
          if f ∈ rs.map Prod.fst then 1 else 0) ∧
    ∀ (e : QueryEndpoint) (uptime : Nat), e.registry = ofRegistrations rs →
      (Health.ofEndpoint e uptime).toJson.member? "extension_functions" =
        some (.ofNat (rs.map Prod.fst).dedup.length) := by
  have h := reflects_ofRegistrations rs
  refine ⟨h, fun d dataset graph => ⟨d.filter_triples dataset graph _, fun f => ?_⟩,
    fun e uptime he => ?_⟩
  · obtain ⟨htyping, hlink⟩ := d.count_triples dataset graph (ofRegistrations rs) f
    exact ⟨htyping.trans (h.count_names f), hlink.trans (h.count_names f)⟩
  · have hmember : (Health.ofEndpoint e uptime).toJson.member? "extension_functions" =
        some (.ofNat e.registry.size) := rfl
    rw [hmember, he, h.size_eq]

namespace Sample

def keeps : ExtensionFunction := ⟨fun s b => pure (s.push b)⟩

def drops : ExtensionFunction := ⟨fun s _ => pure s⟩

/-- The first function is registered anew behind one with a smaller name. -/
def registrations : List (Iri × ExtensionFunction) :=
  [(predicate, keeps), (concat, keeps), (predicate, drops)]

end Sample

open Sample Registry in
theorem Registry.ofRegistrations_shown_anew :
    (ofRegistrations registrations).lookup predicate = some drops ∧
    (ofRegistrations registrations).functionNames = [concat, predicate] ∧
    (Health.ofEndpoint (.new (.standard default "") ⟨[]⟩ (ofRegistrations registrations))
      0).toJson.member? "extension_functions" = some (.ofNat 2) := by
  obtain ⟨h, -, hhealth⟩ := ofRegistrations_shown registrations
  exact ⟨h.lookup_eq predicate, by decide, hhealth _ 0 rfl⟩

end SparqlBind
