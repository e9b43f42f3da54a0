import SparqlBind.Http.ConsolePage
import SparqlBind.Proofs.Text.Patterns
import Mathlib.Algebra.Order.BigOperators.Group.List
import Mathlib.Algebra.Order.Group.Nat

/-!
# Successive and simultaneous replacement

A template is read once into characters and slots, and filling the slots is the simultaneous
substitution. Replacing one placeholder after the other goes through the text of a template, since each
slot is followed by a character that no placeholder contains, but it does not stop at the values: in a
value, all placeholders that are replaced later are replaced as well. So the console page is the
substitution of the values changed in that way, and the one of the values themselves when no value
contains a later placeholder.
-/

namespace SparqlBind

/-! ## Replacing one placeholder -/

def isPlaceholderChar (c : Char) : Bool := c.isUpper || c == '_'

/-- A dollar sign and a name. -/
def IsPlaceholder (p : List Char) : Prop :=
  p.head? = some '$' ∧ ∀ c ∈ p.tail, isPlaceholderChar c = true

instance (p : List Char) : Decidable (IsPlaceholder p) :=
  -- Over the name only: characters are finitely many, and trying all of them takes too long.
  haveI : Decidable (∀ c ∈ p.tail, isPlaceholderChar c = true) := List.decidableBAll _ _
  inferInstanceAs (Decidable (p.head? = some '$' ∧ ∀ c ∈ p.tail, isPlaceholderChar c = true))

theorem IsPlaceholder.exists_eq_cons {p : List Char} (h : IsPlaceholder p) :
    ∃ name, p = '$' :: name ∧ ∀ c ∈ name, isPlaceholderChar c = true :=
  ⟨p.tail, List.eq_cons_of_mem_head? h.1, h.2⟩

section Replace

variable {p v a b : List Char} {c : Char}

theorem replaceFrom_of_absent {t : List Char} (h : ¬ p <:+: t) : replaceFrom p v 0 t = t := by
  induction t with
  | nil => rfl
  | cons c rest ih =>
    have hhead : p.isPrefixOf (c :: rest) = false := by
      rw [Bool.eq_false_iff, ne_eq, List.isPrefixOf_iff_prefix]
      exact fun hp => h hp.isInfix
    have hrest : ¬ p <:+: rest := fun hp => h (hp.trans (List.suffix_cons c rest).isInfix)
    simp [replaceFrom, hhead, ih hrest]

theorem replaceFrom_length (t : List Char) : replaceFrom p v t.length t = [] := by
  induction t with
  | nil => rfl
  | cons c rest ih => exact ih

theorem prefix_append_iff_of_name {name : List Char} (hname : ∀ x ∈ name, isPlaceholderChar x = true)
    (hc : isPlaceholderChar c = false) : name <+: a ++ c :: b ↔ name <+: a :=
  prefix_append_cons_iff fun hmem => absurd (hname c hmem) (by simp [hc])

/-- An occurrence never goes on behind a character that is not in a name. -/
theorem isPrefixOf_append (hp : IsPlaceholder p) (hc : isPlaceholderChar c = false) (y : Char) :
    p.isPrefixOf (y :: (a ++ c :: b)) = p.isPrefixOf (y :: a) := by
  obtain ⟨name, rfl, hname⟩ := hp.exists_eq_cons
  rw [Bool.eq_iff_iff, List.isPrefixOf_iff_prefix, List.isPrefixOf_iff_prefix,
    List.cons_prefix_cons, List.cons_prefix_cons, prefix_append_iff_of_name hname hc]

theorem replaceFrom_append (hp : IsPlaceholder p) (hc : isPlaceholderChar c = false) {skip : Nat}
    (hskip : skip ≤ a.length) : replaceFrom p v skip (a ++ c :: b) =
      replaceFrom p v skip a ++ replaceFrom p v 0 (c :: b) := by
  induction a generalizing skip with
  | nil =>
    obtain rfl := Nat.le_zero.mp hskip
    rfl
  | cons y a ih =>
    cases skip with
    | succ skip => exact ih (Nat.le_of_succ_le_succ hskip)
    | zero =>
      rw [List.cons_append]
      unfold replaceFrom
      rw [isPrefixOf_append hp hc]
      split
      · next h =>
        have hlength := (List.isPrefixOf_iff_prefix.mp h).length_le
        rw [ih (by simp only [List.length_cons] at hlength; omega), List.append_assoc]
        rfl
      · rw [ih (Nat.zero_le _)]
        rfl

end Replace

/-! ## Templates -/

/-- A part of a template: a character that stands for itself, or a placeholder. -/
inductive Piece
  | char (c : Char)
  | slot (p : String)
deriving DecidableEq

namespace Piece

/-- Reads a template. `skip` characters belong to the placeholder before them. -/
def read (names : List String) : Nat → List Char → List Piece
  | _, [] => []
  | skip + 1, _ :: rest => read names skip rest
  | 0, c :: rest =>
    match names.find? fun p => p.toList.isPrefixOf (c :: rest) with
    | some p => .slot p :: read names (p.toList.length - 1) rest
    | none => .char c :: read names 0 rest

def chars (value : String → String) : Piece → List Char
  | char c => [c]
  | slot p => (value p).toList

/-- The text of a template with a value in each slot. -/
def fill (value : String → String) (pieces : List Piece) : String :=
  String.ofList (pieces.flatMap (chars value))

/-- No character is a dollar sign, and the one after a slot is not in a name. -/
def Closed : List Piece → Bool
  | [] => true
  | .char c :: rest => c != '$' && Closed rest
  | .slot _ :: .char c :: rest => !isPlaceholderChar c && Closed (.char c :: rest)
  | .slot _ :: _ => false

variable {names : List String} {f g : String → String} {pieces : List Piece}

theorem mem_names_of_slot_mem {skip : Nat} {text : List Char} {p : String}
    (h : slot p ∈ read names skip text) : p ∈ names := by
  induction text generalizing skip with
  | nil => cases h
  | cons c rest ih =>
    cases skip with
    | succ skip => exact ih h
    | zero =>
      unfold read at h
      split at h
      · next q hq =>
        rcases List.mem_cons.mp h with heq | h
        · obtain rfl := slot.inj heq
          exact List.mem_of_find?_eq_some hq
        · exact ih h
      · rcases List.mem_cons.mp h with heq | h
        · cases heq
        · exact ih h

theorem fill_congr (h : ∀ p, slot p ∈ pieces → f p = g p) : fill f pieces = fill g pieces := by
  refine congrArg String.ofList (List.flatMap_congr fun piece hpiece => ?_)
  cases piece with
  | char c => rfl
  | slot p => exact congrArg String.toList (h p hpiece)

theorem length_fill_lt {q : String} (hle : ∀ p, slot p ∈ pieces → (f p).length ≤ (g p).length)
    (hq : slot q ∈ pieces) (hlt : (f q).length < (g q).length) :
    (fill f pieces).length < (fill g pieces).length := by
  unfold fill
  rw [String.length_ofList, String.length_ofList, List.length_flatMap, List.length_flatMap]
  refine List.sum_lt_sum _ _ (fun piece hpiece => ?_) ⟨slot q, hq, ?_⟩
  · cases piece with
    | char c => exact le_rfl
    | slot p =>
      simp only [chars, String.length_toList]
      exact hle p hpiece
  · simp only [chars, String.length_toList]
    exact hlt

theorem flatMap_chars_read (hnames : ∀ p ∈ names, IsPlaceholder p.toList) (skip : Nat)
    (text : List Char) : (read names skip text).flatMap (chars id) = text.drop skip := by
  induction text generalizing skip with
  | nil => simp [read]
  | cons c rest ih =>
    cases skip with
    | succ skip => exact ih skip
    | zero =>
      unfold read
      split
      · next p hp =>
        obtain ⟨name, hname, -⟩ := (hnames p (List.mem_of_find?_eq_some hp)).exists_eq_cons
        have hprefix : p.toList <+: c :: rest :=
          List.isPrefixOf_iff_prefix.mp (List.find?_some hp :)
        rw [hname] at hprefix
        obtain ⟨rfl, after, rfl⟩ := List.cons_prefix_cons.mp hprefix
        rw [List.flatMap_cons, ih, hname]
        simp [chars, hname]
      · rw [List.flatMap_cons, ih 0]
        rfl

/-- A template with its placeholders in the slots is the template. -/
theorem fill_read (hnames : ∀ p ∈ names, IsPlaceholder p.toList) (text : String) :
    fill id (read names 0 text.toList) = text := by
  unfold fill
  rw [flatMap_chars_read hnames, List.drop_zero, String.ofList_toList]

theorem replaceFrom_flatMap_chars {p : String} (v : String) (hp : IsPlaceholder p.toList)
    (h : Closed pieces = true) :
    replaceFrom p.toList v.toList 0 (pieces.flatMap (chars f)) =
      pieces.flatMap (chars fun q => replaceAll p v (f q)) := by
  induction pieces with
  | nil => rfl
  | cons piece rest ih =>
    cases piece with
    | char c =>
      obtain ⟨hc, hrest⟩ := Bool.and_eq_true_iff.mp h
      have hhead : p.toList.isPrefixOf (c :: rest.flatMap (chars f)) = false := by
        obtain ⟨name, hname, -⟩ := hp.exists_eq_cons
        have hc : c ≠ '$' := by simpa using hc
        simp [hname, List.isPrefixOf, Ne.symm hc]
      change replaceFrom p.toList v.toList 0 (c :: rest.flatMap (chars f)) = _
      rw [replaceFrom, hhead, ih hrest]
      rfl
    | slot q =>
      cases rest with
      | nil => cases h
      | cons piece rest =>
        cases piece with
        | slot q' => cases h
        | char c =>
          obtain ⟨hc, hrest⟩ := Bool.and_eq_true_iff.mp h
          have hc : isPlaceholderChar c = false := by simpa using hc
          have happend := replaceFrom_append (v := v.toList) (b := rest.flatMap (chars f)) hp hc
            (Nat.zero_le (f q).toList.length)
          refine happend.trans ?_
          rw [List.flatMap_cons, ← ih hrest]
          simp [chars, replaceAll]

/-- Replacing a placeholder in a filled template replaces it in the values. -/
theorem replaceAll_fill {p : String} (v : String) (hp : IsPlaceholder p.toList)
    (h : Closed pieces = true) :
    replaceAll p v (fill f pieces) = fill (fun q => replaceAll p v (f q)) pieces := by
  unfold replaceAll fill
  rw [String.toList_ofList, replaceFrom_flatMap_chars v hp h]
  rfl

end Piece

/-! ## Successive replacement -/

/-- Replaces the patterns one after the other. -/
def replaceEach (rs : List (String × String)) (text : String) : String :=
  rs.foldl (fun text r => replaceAll r.1 r.2 text) text

/-- Replaces the patterns all at once. -/
def substitute (rs : List (String × String)) (text : String) : String :=
  Piece.fill (fun p => (rs.lookup p).getD p) (Piece.read (rs.map Prod.fst) 0 text.toList)

/-- The values with the later replacements made in them. -/
def settled : List (String × String) → List (String × String)
  | [] => []
  | r :: rest => (r.1, replaceEach rest r.2) :: settled rest

@[simp] theorem map_fst_settled (rs : List (String × String)) :
    (settled rs).map Prod.fst = rs.map Prod.fst := by
  induction rs with
  | nil => rfl
  | cons r rest ih => exact congrArg (r.1 :: ·) ih

theorem replaceEach_of_absent {rs : List (String × String)} {text : String}
    (h : ∀ r ∈ rs, ¬ r.1.toList <:+: text.toList) : replaceEach rs text = text := by
  induction rs with
  | nil => rfl
  | cons r rest ih =>
    obtain ⟨hr, hrest⟩ := List.forall_mem_cons.mp h
    have hreplace : replaceAll r.1 r.2 text = text := by
      unfold replaceAll
      rw [replaceFrom_of_absent hr, String.ofList_toList]
    exact (congrArg (replaceEach rest) hreplace).trans (ih hrest)

theorem settled_of_absent {rs : List (String × String)}
    (h : rs.Pairwise fun r r' => ¬ r'.1.toList <:+: r.2.toList) : settled rs = rs := by
  induction rs with
  | nil => rfl
  | cons r rest ih =>
    obtain ⟨hr, hrest⟩ := List.pairwise_cons.mp h
    simp only [settled, ih hrest, replaceEach_of_absent hr]

theorem replaceAll_self {p : String} (v : String) (hp : IsPlaceholder p.toList) :
    replaceAll p v p = v := by
  obtain ⟨name, hname, -⟩ := hp.exists_eq_cons
  have hself : ('$' :: name).isPrefixOf ('$' :: name) = true :=
    List.isPrefixOf_iff_prefix.mpr List.prefix_rfl
  unfold replaceAll
  rw [hname, replaceFrom, if_pos hself, List.length_cons, Nat.add_sub_cancel,
    replaceFrom_length, List.append_nil, String.ofList_toList]

/-- A placeholder is left alone until it is its turn, and then its value is put in. -/
theorem replaceEach_placeholder {rs : List (String × String)} {q : String}
    (hapart : (rs.map Prod.fst).Pairwise fun p q => ¬ p.toList <:+: q.toList)
    (hname : IsPlaceholder q.toList) (hq : q ∈ rs.map Prod.fst) :
    replaceEach rs q = ((settled rs).lookup q).getD q := by
  induction rs with
  | nil => cases hq
  | cons r rest ih =>
    rw [List.map_cons, List.pairwise_cons] at hapart
    obtain ⟨hr, hrest⟩ := hapart
    change replaceEach rest (replaceAll r.1 r.2 q) = _
    by_cases heq : q = r.1
    · subst heq
      rw [replaceAll_self _ hname, settled, List.lookup_cons_self]
      rfl
    · have hmem : q ∈ rest.map Prod.fst := (List.mem_cons.mp hq).resolve_left heq
      have hreplace : replaceAll r.1 r.2 q = q := by
        unfold replaceAll
        rw [replaceFrom_of_absent (hr q hmem), String.ofList_toList]
      have hlookup : (settled (r :: rest)).lookup q = (settled rest).lookup q := by
        simp [settled, List.lookup_cons, beq_eq_false_iff_ne.mpr heq]
      rw [hreplace, hlookup, ih hrest hmem]

/-- Replacing one placeholder after the other through a filled template goes on in its values. -/
theorem replaceEach_fill {rs : List (String × String)} {pieces : List Piece} {f : String → String}
    (hnames : ∀ r ∈ rs, IsPlaceholder r.1.toList) (h : Piece.Closed pieces = true) :
    replaceEach rs (Piece.fill f pieces) = Piece.fill (fun q => replaceEach rs (f q)) pieces := by
  induction rs generalizing f with
  | nil => rfl
  | cons r rest ih =>
    obtain ⟨hr, hrest⟩ := List.forall_mem_cons.mp hnames
    change replaceEach rest (replaceAll r.1 r.2 (Piece.fill f pieces)) = _
    rw [Piece.replaceAll_fill r.2 hr h]
    exact ih hrest

theorem replaceEach_eq_substitute {rs : List (String × String)} {template : String}
    (hnames : ∀ r ∈ rs, IsPlaceholder r.1.toList)
    (hapart : (rs.map Prod.fst).Pairwise fun p q => ¬ p.toList <:+: q.toList)
    (hclosed : Piece.Closed (Piece.read (rs.map Prod.fst) 0 template.toList) = true) :
    replaceEach rs template = substitute (settled rs) template := by
  have hplaceholder : ∀ p ∈ rs.map Prod.fst, IsPlaceholder p.toList :=
    List.forall_mem_map.mpr hnames
  have hread : Piece.fill id (Piece.read (rs.map Prod.fst) 0 template.toList) = template :=
    Piece.fill_read hplaceholder template
  have hfill := replaceEach_fill (f := id) hnames hclosed
  rw [hread] at hfill
  unfold substitute
  rw [hfill, map_fst_settled]
  refine Piece.fill_congr fun q hq => ?_
  have hmem := Piece.mem_names_of_slot_mem hq
  exact replaceEach_placeholder hapart (hplaceholder q hmem) hmem

namespace Console

def placeholders : List String :=
  ["$TITLE", "$DESCRIPTION", "$FAVICON", "$EXAMPLE_QUERIES", "$EXAMPLE_QUERY", "$ENDPOINT"]

theorem map_toList_cons {chars : List Char} {texts : List String} {lines : List (List Char)}
    (h : texts.map String.toList = lines) :
    (String.ofList chars :: texts).map String.toList = chars :: lines := by
  rw [List.map_cons, String.toList_ofList, h]

theorem read_of_lines {P : List Piece → Prop} {lines : List (List Char)}
    (hlines : templateLines.map String.toList = lines)
    (h : P (Piece.read placeholders 0 (['\n'].intercalate lines))) :
    P (Piece.read placeholders 0 template.toList) := by
  rw [template, String.toList_intercalate, hlines]
  exact h

/-- Every placeholder has a slot, and no slot is followed by a character of a name. -/
theorem read_template : Piece.Closed (Piece.read placeholders 0 template.toList) = true ∧
    ∀ p ∈ placeholders, Piece.slot p ∈ Piece.read placeholders 0 template.toList := by
  apply @read_of_lines fun pieces =>
    Piece.Closed pieces = true ∧ ∀ p ∈ placeholders, Piece.slot p ∈ pieces
  case hlines =>
    unfold templateLines
    repeat apply map_toList_cons
    exact List.map_nil
  case h => decide +kernel

theorem isPlaceholder_of_mem : ∀ p ∈ placeholders, IsPlaceholder p.toList := by
  decide +kernel

/-- No placeholder is contained in another one, although two of them start alike. -/
theorem apart_placeholders :
    placeholders.Pairwise fun p q => ¬ p.toList <:+: q.toList := by
  decide +kernel

/-- The console page is the template with the values changed by the later replacements, all put in at
once; when no value contains a later placeholder, it is the one with the values themselves. -/
theorem page_eq_substitute (c : Console) :
    c.page = substitute (settled c.replacements) template ∧
    ((c.replacements.Pairwise fun r r' => ¬ r'.1.toList <:+: r.2.toList) →
      c.page = substitute c.replacements template) := by
  have hpage : c.page = substitute (settled c.replacements) template :=
    replaceEach_eq_substitute
      (fun r hr => isPlaceholder_of_mem r.1 (List.mem_map_of_mem (f := Prod.fst) hr))
      apart_placeholders read_template.1
  refine ⟨hpage, fun h => ?_⟩
  rw [hpage, settled_of_absent h]

/-- A console with an example query and nothing else out of the ordinary. -/
def sample (exampleQuery : String) : Console :=
  ⟨"/", "Title", "Description", "https://example.com/favicon.png", "https://example.com/sparql",
    exampleQuery, .object []⟩

theorem page_eq_substitute_sample : (sample "ASK \x7b\x7d").page =
    substitute (sample "ASK \x7b\x7d").replacements template :=
  (page_eq_substitute _).2 (by decide +kernel)

/-- In an example query the name of a variable is taken for a placeholder. -/
theorem page_ne_substitute_variable :
    (sample "ASK \x7b ?s ?p $ENDPOINT \x7d").page ≠
      substitute (sample "ASK \x7b ?s ?p $ENDPOINT \x7d").replacements template := by
  have hle : ∀ p ∈ placeholders,
      (((settled (sample "ASK \x7b ?s ?p $ENDPOINT \x7d").replacements).lookup p).getD p).length ≤
        (((sample "ASK \x7b ?s ?p $ENDPOINT \x7d").replacements.lookup p).getD p).length := by
    decide +kernel
  have hlt := Piece.length_fill_lt
    (fun p hp => hle p (Piece.mem_names_of_slot_mem hp))
    (read_template.2 "$EXAMPLE_QUERY" (by decide))
    (by decide +kernel)
  intro h
  have hpage := (page_eq_substitute (sample "ASK \x7b ?s ?p $ENDPOINT \x7d")).1
  exact hlt.ne (congrArg String.length (hpage.symm.trans h))

end Console

end SparqlBind
