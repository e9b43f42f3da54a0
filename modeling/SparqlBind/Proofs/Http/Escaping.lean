import SparqlBind.Proofs.Text.Patterns
import SparqlBind.Proofs.Http.ConsolePage

/-!
# Text in markup

Escaped text holds no character that ends the text of an element or an attribute value, and its entities
are read back to the text it was made of. So a reader of the console page finds each text of the console
where the template has a slot for it, whatever the texts are: a placeholder in one of them is replaced by
escaped text as well, which is escaping the texts after replacing. Only the values for the script are put
in unescaped, after the last slot for a text.
-/

namespace SparqlBind

/-! ## Entities -/

/-- The characters that are not written as they are, with their entities. -/
def entities : List (Char × List Char) :=
  [('&', "&amp;".toList), ('<', "&lt;".toList), ('>', "&gt;".toList), ('"', "&quot;".toList),
    ('\'', "&#39;".toList)]

/-- Reads the entities back from left to right. `skip` characters belong to the entity before them. -/
def decodeFrom : Nat → List Char → List Char
  | _, [] => []
  | skip + 1, _ :: rest => decodeFrom skip rest
  | 0, c :: rest =>
    match entities.find? fun e => e.2.isPrefixOf (c :: rest) with
    | some e => e.1 :: decodeFrom (e.2.length - 1) rest
    | none => c :: decodeFrom 0 rest

def unescapeHtml (s : String) : String := String.ofList (decodeFrom 0 s.toList)

/-- The character has no meaning in markup. -/
def IsPlainChar (c : Char) : Prop := c ∉ entities.map Prod.fst

instance (c : Char) : Decidable (IsPlainChar c) :=
  inferInstanceAs (Decidable (c ∉ entities.map Prod.fst))

section Entities

variable {e e' : Char × List Char}

theorem escapeHtmlChar_entity : ∀ e ∈ entities, escapeHtmlChar e.1 = e.2 := by
  decide

theorem exists_entity_eq_cons (he : e ∈ entities) :
    ∃ name, e.2 = '&' :: name ∧ ∀ c ∈ name, IsPlainChar c := by
  have htable : ∀ e ∈ entities, e.2 = '&' :: e.2.tail ∧
      (e.2.tail.all fun c => decide (IsPlainChar c)) = true := by
    decide
  obtain ⟨hhead, htail⟩ := htable e he
  exact ⟨e.2.tail, hhead, fun c hc => of_decide_eq_true (List.all_eq_true.mp htail c hc)⟩

/-- No entity begins another one, so at most one of them is read at a place. -/
theorem eq_of_entity_prefix (he : e ∈ entities) (he' : e' ∈ entities) {text : List Char}
    (h : e.2 <+: text) (h' : e'.2 <+: text) : e' = e := by
  have hapart : ∀ e ∈ entities, ∀ e' ∈ entities, e'.2 <+: e.2 → e' = e := by
    decide
  rcases List.prefix_or_prefix_of_prefix h' h with hprefix | hprefix
  · exact hapart e he e' he' hprefix
  · exact (hapart e' he' e he hprefix).symm

end Entities

theorem escapeHtmlChar_plain {c : Char} (h : IsPlainChar c) : escapeHtmlChar c = [c] := by
  simp only [IsPlainChar, entities, List.map_cons, List.map_nil, List.mem_cons, List.not_mem_nil,
    not_or, or_false] at h
  obtain ⟨hamp, hlt, hgt, hquot, hapos⟩ := h
  rw [escapeHtmlChar, if_neg hamp, if_neg hlt, if_neg hgt, if_neg hquot, if_neg hapos]

/-- A character is written as its entity or as it is. -/
theorem escapeHtmlChar_cases (c : Char) :
    (∃ e ∈ entities, e.1 = c ∧ escapeHtmlChar c = e.2) ∨ IsPlainChar c ∧ escapeHtmlChar c = [c] := by
  by_cases hc : IsPlainChar c
  · exact .inr ⟨hc, escapeHtmlChar_plain hc⟩
  · obtain ⟨e, he, rfl⟩ := List.mem_map.mp (not_not.mp hc)
    exact .inl ⟨e, he, rfl, escapeHtmlChar_entity e he⟩

theorem escapeHtml_append (s t : String) : escapeHtml (s ++ t) = escapeHtml s ++ escapeHtml t := by
  unfold escapeHtml
  rw [String.toList_append, List.flatMap_append, String.ofList_append]

theorem ne_of_mem_escapeHtml {s : String} {c : Char} (hc : c ∈ (escapeHtml s).toList) :
    c ≠ '<' ∧ c ≠ '>' ∧ c ≠ '"' ∧ c ≠ '\'' := by
  have hsign : c ∉ ['<', '>', '"', '\''] := by
    unfold escapeHtml at hc
    rw [String.toList_ofList] at hc
    obtain ⟨d, -, hd⟩ := List.mem_flatMap.mp hc
    rcases escapeHtmlChar_cases d with ⟨e, he, rfl, hentity⟩ | ⟨hplain, heq⟩
    · obtain ⟨name, hname, hplain⟩ := exists_entity_eq_cons he
      rw [hentity, hname] at hd
      rcases List.mem_cons.mp hd with rfl | hd
      · decide
      · exact fun h => hplain c hd (List.mem_cons_of_mem '&' h)
    · rw [heq, List.mem_singleton] at hd
      exact fun h => hplain (List.mem_cons_of_mem '&' (hd ▸ h))
  simpa only [List.mem_cons, List.not_mem_nil, or_false, not_or] using hsign

/-- What is written for a character holds an ampersand only at the beginning of an entity. -/
theorem mem_entities_of_escapeHtmlChar {c : Char} {before name : List Char}
    (h : escapeHtmlChar c = before ++ '&' :: name) : (c, '&' :: name) ∈ entities := by
  have hamp : ¬ IsPlainChar '&' := by decide
  rcases escapeHtmlChar_cases c with ⟨e, he, rfl, hentity⟩ | ⟨hplain, heq⟩
  · obtain ⟨name', hname, hplain⟩ := exists_entity_eq_cons he
    rw [hentity] at h
    cases before with
    | nil =>
      rw [List.nil_append] at h
      exact h ▸ he
    | cons y before =>
      rw [hname] at h
      obtain ⟨-, rfl⟩ := List.cons.inj h
      exact absurd (hplain '&' (by simp)) hamp
  · have hmem : '&' ∈ [c] := by
      rw [← heq, h]
      simp
    exact absurd (List.mem_singleton.mp hmem ▸ hplain) hamp

/-- Wherever an ampersand stands, an entity begins. -/
theorem exists_entity_prefix {s before after : List Char}
    (h : s.flatMap escapeHtmlChar = before ++ '&' :: after) :
    ∃ e ∈ entities, e.2 <+: '&' :: after := by
  induction s generalizing before with
  | nil => simp at h
  | cons c s ih =>
    rw [List.flatMap_cons, List.append_eq_append_iff] at h
    obtain ⟨more, -, hrest⟩ | ⟨block, hblock, hafter⟩ := h
    · exact ih hrest
    · cases block with
      | nil => exact @ih [] hafter.symm
      | cons x block =>
        obtain ⟨rfl, rfl⟩ := List.cons.inj hafter
        exact ⟨_, mem_entities_of_escapeHtmlChar hblock, List.prefix_append _ _⟩

/-! ## Reading escaped text back -/

theorem decodeFrom_length (read rest : List Char) :
    decodeFrom read.length (read ++ rest) = decodeFrom 0 rest := by
  induction read with
  | nil => rfl
  | cons c read ih => exact ih

theorem decodeFrom_entity {e : Char × List Char} (he : e ∈ entities) (rest : List Char) :
    decodeFrom 0 (e.2 ++ rest) = e.1 :: decodeFrom 0 rest := by
  obtain ⟨name, hname, -⟩ := exists_entity_eq_cons he
  have hfind : entities.find? (fun e' => e'.2.isPrefixOf ('&' :: (name ++ rest))) = some e := by
    have hprefix : e.2 <+: '&' :: (name ++ rest) := hname ▸ List.prefix_append _ rest
    obtain ⟨e', hsome⟩ := Option.isSome_iff_exists.mp
      (List.find?_isSome (p := fun e' : Char × List Char =>
        e'.2.isPrefixOf ('&' :: (name ++ rest))) |>.mpr
          ⟨e, he, List.isPrefixOf_iff_prefix.mpr hprefix⟩)
    have hprefix' := List.isPrefixOf_iff_prefix.mp (List.find?_some hsome :)
    rw [hsome, eq_of_entity_prefix he (List.mem_of_find?_eq_some hsome) hprefix hprefix']
  rw [hname, List.cons_append, decodeFrom, hfind]
  dsimp only
  rw [hname, List.length_cons, Nat.add_sub_cancel, decodeFrom_length]

theorem decodeFrom_plain {c : Char} (hc : IsPlainChar c) (rest : List Char) :
    decodeFrom 0 (c :: rest) = c :: decodeFrom 0 rest := by
  have hfind : entities.find? (fun e => e.2.isPrefixOf (c :: rest)) = none := by
    refine List.find?_eq_none.mpr fun e he h => ?_
    obtain ⟨name, hname, -⟩ := exists_entity_eq_cons he
    rw [List.isPrefixOf_iff_prefix, hname, List.cons_prefix_cons] at h
    exact absurd (h.1 ▸ hc) (by decide)
  rw [decodeFrom, hfind]

theorem decodeFrom_flatMap (s : List Char) : decodeFrom 0 (s.flatMap escapeHtmlChar) = s := by
  induction s with
  | nil => rfl
  | cons c s ih =>
    rw [List.flatMap_cons]
    rcases escapeHtmlChar_cases c with ⟨e, he, rfl, hentity⟩ | ⟨hc, hplain⟩
    · rw [hentity, decodeFrom_entity he, ih]
    · rw [hplain, List.singleton_append, decodeFrom_plain hc, ih]

theorem unescapeHtml_escapeHtml (s : String) : unescapeHtml (escapeHtml s) = s := by
  unfold unescapeHtml escapeHtml
  rw [String.toList_ofList, decodeFrom_flatMap, String.ofList_toList]

/-! ## Where a reader of markup stands -/

namespace Markup

/-- What the text at some place belongs to. The contents of scripts and comments are not told apart from
the text of an element. -/
inductive Context
  | element
  | tag
  | doubleQuoted
  | singleQuoted
deriving DecidableEq

namespace Context

def next : Context → Char → Context
  | element, c => if c = '<' then tag else element
  | tag, c =>
    if c = '>' then element
    else if c = '"' then doubleQuoted
    else if c = '\'' then singleQuoted
    else tag
  | doubleQuoted, c => if c = '"' then tag else doubleQuoted
  | singleQuoted, c => if c = '\'' then tag else singleQuoted

def after (context : Context) (text : List Char) : Context := text.foldl next context

/-- The text that a reader takes before the context ends, and what is left. -/
def read (context : Context) (text : List Char) : String × List Char :=
  (unescapeHtml (String.ofList (text.takeWhile fun c => context.next c = context)),
    text.dropWhile fun c => context.next c = context)

variable {context : Context}

theorem next_escaped {s : String} {c : Char} (hc : c ∈ (escapeHtml s).toList) :
    context.next c = context := by
  obtain ⟨hlt, hgt, hquot, hapos⟩ := ne_of_mem_escapeHtml hc
  cases context <;> simp only [next, hlt, hgt, hquot, hapos, if_false]

theorem after_append (a b : List Char) : context.after (a ++ b) = (context.after a).after b :=
  List.foldl_append

theorem after_eq_self {text : List Char} (h : ∀ c ∈ text, context.next c = context) :
    context.after text = context := by
  unfold after
  induction text with
  | nil => rfl
  | cons c text ih =>
    obtain ⟨hc, htext⟩ := List.forall_mem_cons.mp h
    rw [List.foldl_cons, hc, ih htext]

theorem read_escapeHtml (s : String) {c : Char} (hc : context.next c ≠ context) (rest : List Char) :
    context.read ((escapeHtml s).toList ++ c :: rest) = (s, c :: rest) := by
  have hstay : ∀ d ∈ (escapeHtml s).toList, decide (context.next d = context) = true :=
    fun d hd => decide_eq_true (next_escaped hd)
  have hend : decide (context.next c = context) = false := decide_eq_false hc
  unfold read
  rw [List.takeWhile_append_of_pos hstay, List.dropWhile_append_of_pos hstay,
    List.takeWhile_cons_of_neg (by simp [hc]), List.dropWhile_cons_of_neg (by simp [hc]),
    List.append_nil, String.ofList_toList, unescapeHtml_escapeHtml]

end Context

end Markup

/-! ## Replacing in escaped text -/

/-- The replacements with escaped values. -/
def escaped (rs : List (String × String)) : List (String × String) :=
  rs.map fun r => (r.1, escapeHtml r.2)

section Replace

variable {p v s : List Char}

theorem isPlainChar_of_mem_placeholder (hp : IsPlaceholder p) {c : Char} (hc : c ∈ p) :
    IsPlainChar c := by
  obtain ⟨name, rfl, hname⟩ := hp.exists_eq_cons
  rcases List.mem_cons.mp hc with rfl | hc
  · decide
  · intro hsign
    have htable : ((entities.map Prod.fst).all fun d => !isPlaceholderChar d) = true := by
      decide
    have hout := List.all_eq_true.mp htable c hsign
    rw [hname c hc] at hout
    cases hout

theorem IsPlaceholder.ne_nil (hp : IsPlaceholder p) : p ≠ [] := by
  obtain ⟨name, rfl, -⟩ := hp.exists_eq_cons
  exact List.cons_ne_nil _ _

/-- No entity holds a character of a placeholder. -/
theorem writtenApart_escapeHtmlChar (hp : IsPlaceholder p) : WrittenApart escapeHtmlChar p := by
  have htable : ∀ e ∈ entities, (e.2.all fun c => c != '$' && !isPlaceholderChar c) = true := by
    decide
  intro c
  rcases escapeHtmlChar_cases c with ⟨e, he, rfl, hentity⟩ | ⟨-, heq⟩
  · refine .inr ⟨fun hmem => ?_, ?_, fun x hx hmem => ?_⟩
    · exact isPlainChar_of_mem_placeholder hp hmem (List.mem_map_of_mem he)
    · obtain ⟨name, hname, -⟩ := exists_entity_eq_cons he
      rw [hentity, hname]
      exact List.cons_ne_nil _ _
    · obtain ⟨name, rfl, hname⟩ := hp.exists_eq_cons
      have hout := List.all_eq_true.mp (htable e he) x (hentity ▸ hx)
      rw [Bool.and_eq_true, bne_iff_ne] at hout
      obtain ⟨hdollar, hchar⟩ := hout
      rw [hname x ((List.mem_cons.mp hmem).resolve_left hdollar)] at hchar
      cases hchar
  · exact .inl heq

theorem dollar_not_mem_entity : ∀ e ∈ entities, '$' ∉ e.2 := by
  decide

theorem not_isPrefixOf_of_ne (hp : IsPlaceholder p) {c : Char} (hc : c ≠ '$') (rest : List Char) :
    p.isPrefixOf (c :: rest) = false := by
  obtain ⟨name, rfl, -⟩ := hp.exists_eq_cons
  simp [List.isPrefixOf, Ne.symm hc]

theorem replaceFrom_append_of_not_mem (hp : IsPlaceholder p) {block : List Char}
    (h : '$' ∉ block) (rest : List Char) :
    replaceFrom p v 0 (block ++ rest) = block ++ replaceFrom p v 0 rest := by
  induction block with
  | nil => rfl
  | cons c block ih =>
    obtain ⟨hc, hblock⟩ := List.ne_and_not_mem_of_not_mem_cons h
    rw [List.cons_append, replaceFrom, not_isPrefixOf_of_ne hp hc.symm, ih hblock]
    rfl

theorem replaceFrom_flatMap (hp : IsPlaceholder p) {skip : Nat}
    (hskip : ∀ c ∈ s.take skip, IsPlainChar c) :
    replaceFrom p (v.flatMap escapeHtmlChar) skip (s.flatMap escapeHtmlChar) =
      (replaceFrom p v skip s).flatMap escapeHtmlChar := by
  have hplain : ∀ c ∈ p, IsPlainChar c := fun _ => isPlainChar_of_mem_placeholder hp
  induction s generalizing skip with
  | nil => cases skip <;> rfl
  | cons c s ih =>
    cases skip with
    | succ skip =>
      obtain ⟨hc, hskip⟩ := List.forall_mem_cons.mp hskip
      rw [List.flatMap_cons, escapeHtmlChar_plain hc]
      exact ih hskip
    | zero =>
      rcases escapeHtmlChar_cases c with ⟨e, he, rfl, hentity⟩ | ⟨hc, heq⟩
      · have hne : p.isPrefixOf (e.1 :: s) = false := by
          refine not_isPrefixOf_of_ne hp (fun h => ?_) s
          exact absurd (List.mem_map_of_mem (f := Prod.fst) he) (h ▸ by decide)
        rw [replaceFrom, hne, if_neg Bool.false_ne_true, List.flatMap_cons, List.flatMap_cons, hentity,
          replaceFrom_append_of_not_mem hp (dollar_not_mem_entity e he), ih (by simp)]
      · have hhead : p.isPrefixOf (c :: s.flatMap escapeHtmlChar) = p.isPrefixOf (c :: s) := by
          have hiff := (writtenApart_escapeHtmlChar hp).prefix_flatMap_iff (s := c :: s)
          rw [List.flatMap_cons, heq, List.singleton_append] at hiff
          rw [Bool.eq_iff_iff, List.isPrefixOf_iff_prefix, List.isPrefixOf_iff_prefix, hiff]
        rw [List.flatMap_cons, heq, List.singleton_append, replaceFrom, replaceFrom, hhead]
        split
        · next hprefix =>
          have htake : ∀ d ∈ s.take (p.length - 1), IsPlainChar d := by
            intro d hd
            obtain ⟨name, rfl, -⟩ := hp.exists_eq_cons
            have hname := (List.cons_prefix_cons.mp (List.isPrefixOf_iff_prefix.mp hprefix)).2
            rw [List.length_cons, Nat.add_sub_cancel, ← List.prefix_iff_eq_take.mp hname] at hd
            exact hplain d (List.mem_cons_of_mem _ hd)
          rw [ih htake, List.flatMap_append]
        · rw [ih (by simp), List.flatMap_cons, heq, List.singleton_append]

theorem replaceAll_escapeHtml {p : String} (hp : IsPlaceholder p.toList) (v s : String) :
    replaceAll p (escapeHtml v) (escapeHtml s) = escapeHtml (replaceAll p v s) := by
  unfold replaceAll escapeHtml
  simp only [String.toList_ofList]
  rw [replaceFrom_flatMap hp (by simp)]

theorem replaceEach_cons (r : String × String) (rs : List (String × String)) (text : String) :
    replaceEach (r :: rs) text = replaceEach rs (replaceAll r.1 r.2 text) :=
  rfl

theorem replaceEach_escaped {rs : List (String × String)} (h : ∀ r ∈ rs, IsPlaceholder r.1.toList)
    (s : String) : replaceEach (escaped rs) (escapeHtml s) = escapeHtml (replaceEach rs s) := by
  induction rs generalizing s with
  | nil => rfl
  | cons r rest ih =>
    obtain ⟨hr, hrest⟩ := List.forall_mem_cons.mp h
    rw [escaped, List.map_cons, replaceEach_cons, replaceEach_cons, replaceAll_escapeHtml hr]
    exact ih hrest _

theorem escapeHtml_placeholder {p : String} (hp : IsPlaceholder p.toList) : escapeHtml p = p := by
  have hself : ∀ {s : List Char}, (∀ c ∈ s, IsPlainChar c) → s.flatMap escapeHtmlChar = s := by
    intro s h
    induction s with
    | nil => rfl
    | cons c s ih =>
      obtain ⟨hc, hs⟩ := List.forall_mem_cons.mp h
      rw [List.flatMap_cons, escapeHtmlChar_plain hc, ih hs, List.singleton_append]
  unfold escapeHtml
  rw [hself fun _ => isPlainChar_of_mem_placeholder hp, String.ofList_toList]

end Replace

/-! ## The texts of the page -/

namespace Piece

/-- The context ends at once. -/
def EndsContext (context : Markup.Context) : List Piece → Bool
  | .char c :: _ => context.next c != context
  | _ => false

/-- Where a slot in `names` is met, a reader stands in the text of an element or in an attribute value,
which the template ends right behind the slot. The context behind other slots is not known. -/
def Framed (names : List String) : Markup.Context → List Piece → Bool
  | _, [] => true
  | context, .char c :: rest => Framed names (context.next c) rest
  | context, .slot p :: rest =>
    if p ∈ names then
      (context == .element || context == .doubleQuoted) && EndsContext context rest &&
        Framed names context rest
    else rest.all fun piece => piece ∉ names.map slot

variable {names : List String} {value : String → String}

theorem Framed.exists_context {context : Markup.Context} {before after : List Piece} {p : String}
    (h : Framed names context (before ++ .slot p :: after) = true)
    (hvalue : ∀ q ∈ names, ∃ s, value q = escapeHtml s) (hp : p ∈ names) :
    ∃ context', (context' = .element ∨ context' = .doubleQuoted) ∧
      context.after (before.flatMap (chars value)) = context' ∧ EndsContext context' after = true := by
  induction before generalizing context with
  | nil =>
    rw [List.nil_append, Framed, if_pos hp] at h
    simp only [Bool.and_eq_true, Bool.or_eq_true, beq_iff_eq] at h
    exact ⟨context, h.1.1, rfl, h.1.2⟩
  | cons piece before ih =>
    cases piece with
    | char c => exact ih h
    | slot q =>
      rw [List.cons_append, Framed] at h
      by_cases hq : q ∈ names
      · rw [if_pos hq, Bool.and_eq_true] at h
        obtain ⟨s, hs⟩ := hvalue q hq
        have hslot : context.after (chars value (slot q)) = context := by
          rw [chars, hs]
          exact Markup.Context.after_eq_self fun c => Markup.Context.next_escaped
        rw [List.flatMap_cons, Markup.Context.after_append, hslot]
        exact ih h.2
      · -- Behind a slot for something else there is none for a text.
        rw [if_neg hq, List.all_eq_true] at h
        have hnot := h (.slot p) (by simp)
        simp [hp] at hnot

theorem read_of_endsContext {context : Markup.Context} {after : List Piece}
    (h : EndsContext context after = true) (s : String) :
    context.read ((escapeHtml s).toList ++ after.flatMap (chars value)) =
      (s, after.flatMap (chars value)) := by
  cases after with
  | nil => cases h
  | cons piece rest =>
    cases piece with
    | slot q => cases h
    | char c => exact Markup.Context.read_escapeHtml s (bne_iff_ne.mp h) _

end Piece

namespace Console

def textPlaceholders : List String := ["$TITLE", "$DESCRIPTION", "$FAVICON"]

theorem framed_template :
    Piece.Framed textPlaceholders .element (Piece.read placeholders 0 template.toList) = true := by
  apply @read_of_lines fun pieces => Piece.Framed textPlaceholders .element pieces = true
  case hlines =>
    unfold templateLines
    repeat apply map_toList_cons
    exact List.map_nil
  case h => decide +kernel

/-- The texts, in the order in which they are put in. -/
def texts (c : Console) : List (String × String) :=
  [("$TITLE", c.title), ("$DESCRIPTION", c.description), ("$FAVICON", c.favicon)]

/-- The values for the script, put in after the texts. -/
def scriptValues (c : Console) : List (String × String) :=
  [("$EXAMPLE_QUERIES", scriptValue c.exampleQueries),
    ("$EXAMPLE_QUERY", scriptValue (.string c.exampleQuery)),
    ("$ENDPOINT", scriptValue (.string c.path))]

/-- The page with its texts, before the values for the script are put in. -/
def textPage (c : Console) : String := replaceEach (escaped c.texts) template

theorem page_eq_replaceEach (c : Console) : c.page = replaceEach c.scriptValues c.textPage := by
  have hvalues : c.replacements = escaped c.texts ++ c.scriptValues := rfl
  unfold page textPage replaceEach
  rw [hvalues, List.foldl_append]

/-- The page is the template with something in each slot, and at the slot of a text, where a reader
stands in the text of an element or in a double-quoted attribute value, the reader takes that text and
goes on with the template. In a text, the placeholders of later texts stand for these. -/
def ShowsTexts (c : Console) (page : String) : Prop :=
  ∃ value : String → String, page = Piece.fill value (Piece.read placeholders 0 template.toList) ∧
    ∀ before p after, Piece.read placeholders 0 template.toList = before ++ .slot p :: after →
      p ∈ textPlaceholders →
      ∃ context, (context = .element ∨ context = .doubleQuoted) ∧
        Markup.Context.after .element (before.flatMap (Piece.chars value)) = context ∧
        context.read ((value p).toList ++ after.flatMap (Piece.chars value)) =
          (replaceEach c.texts p, after.flatMap (Piece.chars value))

theorem showsTexts_of_fill {c : Console} {value : String → String}
    (h : ∀ p ∈ textPlaceholders, value p = escapeHtml (replaceEach c.texts p)) :
    c.ShowsTexts (Piece.fill value (Piece.read placeholders 0 template.toList)) := by
  refine ⟨value, rfl, fun before p after hsplit hp => ?_⟩
  have hframed := framed_template
  rw [hsplit] at hframed
  have hvalue : ∀ q ∈ textPlaceholders, ∃ s, value q = escapeHtml s := fun q hq => ⟨_, h q hq⟩
  obtain ⟨context, hcontext, hafter, hends⟩ := Piece.Framed.exists_context hframed hvalue hp
  exact ⟨context, hcontext, hafter, h p hp ▸ Piece.read_of_endsContext hends _⟩

theorem isPlaceholder_of_mem_textPlaceholders {p : String} (hp : p ∈ textPlaceholders) :
    IsPlaceholder p.toList := by
  have hsubset : textPlaceholders ⊆ placeholders := by decide
  exact isPlaceholder_of_mem p (hsubset hp)

theorem isPlaceholder_of_mem_texts {c : Console} {r : String × String} (hr : r ∈ c.texts) :
    IsPlaceholder r.1.toList :=
  isPlaceholder_of_mem_textPlaceholders (List.mem_map_of_mem (f := Prod.fst) hr)

theorem isPlaceholder_of_mem_scriptValues {c : Console} {r : String × String}
    (hr : r ∈ c.scriptValues) : IsPlaceholder r.1.toList := by
  have hsubset : ["$EXAMPLE_QUERIES", "$EXAMPLE_QUERY", "$ENDPOINT"] ⊆ placeholders := by decide
  exact isPlaceholder_of_mem r.1 (hsubset (List.mem_map_of_mem (f := Prod.fst) hr))

theorem replaceEach_escaped_texts (c : Console) {p : String} (hp : p ∈ textPlaceholders) :
    replaceEach (escaped c.texts) p = escapeHtml (replaceEach c.texts p) := by
  rw [← replaceEach_escaped fun _ => isPlaceholder_of_mem_texts,
    escapeHtml_placeholder (isPlaceholder_of_mem_textPlaceholders hp)]

theorem textPage_eq_fill (c : Console) : c.textPage =
    Piece.fill (replaceEach (escaped c.texts)) (Piece.read placeholders 0 template.toList) := by
  have hescaped : ∀ r ∈ escaped c.texts, IsPlaceholder r.1.toList :=
    List.forall_mem_map.mpr fun _ => isPlaceholder_of_mem_texts
  have hfill := replaceEach_fill (f := id) hescaped read_template.1
  rwa [Piece.fill_read isPlaceholder_of_mem] at hfill

/-- Whatever the texts are, each of them is found where the template has it. -/
theorem showsTexts_textPage (c : Console) : c.ShowsTexts c.textPage := by
  rw [textPage_eq_fill]
  exact showsTexts_of_fill fun p hp => c.replaceEach_escaped_texts hp

/-- The values for the script change no text that has no placeholder for them. -/
theorem showsTexts_page {c : Console} (h : ∀ p ∈ textPlaceholders, ∀ r ∈ c.scriptValues,
    ¬ r.1.toList <:+: (replaceEach c.texts p).toList) : c.ShowsTexts c.page := by
  rw [page_eq_replaceEach, textPage_eq_fill,
    replaceEach_fill (fun _ => isPlaceholder_of_mem_scriptValues) read_template.1]
  refine showsTexts_of_fill fun p hp => ?_
  rw [replaceEach_escaped_texts c hp]
  refine replaceEach_of_absent fun r hr hfound => h p hp r hr ?_
  rw [escapeHtml, String.toList_ofList] at hfound
  have hp := isPlaceholder_of_mem_scriptValues hr
  exact ((writtenApart_escapeHtmlChar hp).infix_flatMap_iff hp.ne_nil).mp hfound

/-- Escaped text has no sign of markup other than the ampersands that begin its entities, is read back to
the text, and can be put together from parts. In no context does it change where a reader stands, and the
console page shows its texts. -/
theorem escapeHtml_confines_text (s t : String) :
    (∀ c ∈ (escapeHtml s).toList, c ≠ '<' ∧ c ≠ '>' ∧ c ≠ '"' ∧ c ≠ '\'') ∧
    (∀ before after, (escapeHtml s).toList = before ++ '&' :: after →
      ∃ e ∈ entities, e.2 <+: '&' :: after) ∧
    unescapeHtml (escapeHtml s) = s ∧
    escapeHtml (s ++ t) = escapeHtml s ++ escapeHtml t ∧
    (∀ (context : Markup.Context) (part : List Char), part <+: (escapeHtml s).toList →
      context.after part = context) ∧
    (∀ c : Console, c.ShowsTexts c.textPage) ∧
    ∀ c : Console, (∀ p ∈ textPlaceholders, ∀ r ∈ c.scriptValues,
      ¬ r.1.toList <:+: (replaceEach c.texts p).toList) → c.ShowsTexts c.page := by
  refine ⟨fun c => ne_of_mem_escapeHtml, fun before after h => ?_, unescapeHtml_escapeHtml s,
    escapeHtml_append s t, fun context part hpart => ?_, showsTexts_textPage,
    fun c => showsTexts_page⟩
  · rw [escapeHtml, String.toList_ofList] at h
    exact exists_entity_prefix h
  · exact Markup.Context.after_eq_self fun c hc => Markup.Context.next_escaped (hpart.subset hc)

/-- A console whose title and description would end their contexts, the title with a placeholder. -/
def sampleMarkup : Console :=
  { sample "ASK \x7b\x7d" with
    title := "</title>$DESCRIPTION", description := "\"><script>&amp;" }

theorem escapeHtml_confines_text_markup :
    (∀ p ∈ textPlaceholders, ∀ r ∈ sampleMarkup.scriptValues,
      ¬ r.1.toList <:+: (replaceEach sampleMarkup.texts p).toList) ∧
    sampleMarkup.ShowsTexts sampleMarkup.page := by
  have habsent : ∀ p ∈ textPlaceholders, ∀ r ∈ sampleMarkup.scriptValues,
      ¬ r.1.toList <:+: (replaceEach sampleMarkup.texts p).toList := by
    decide +kernel
  exact ⟨habsent, (escapeHtml_confines_text "" "").2.2.2.2.2.2 sampleMarkup habsent⟩

end Console

end SparqlBind
