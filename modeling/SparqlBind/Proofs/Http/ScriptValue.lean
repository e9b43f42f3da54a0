import SparqlBind.Http.ConsolePage
import SparqlBind.Proofs.Text.BrokenTags

/-!
# Values in a script

A value is written into the script with its end tags broken, so that it is kept and no text in it ends
the script. The beginning of a comment is left as it is: it stands in the script wherever it stands in a
string of the value.
-/

namespace SparqlBind

/-! ## Where a comment begins -/

/-- What begins a comment. -/
def commentStart : List Char := ['<', '!', '-', '-']

namespace Shortest

theorem less_not_mem_digitsText (n : Nat) : '<' ∉ digitsText n :=
  fun h => absurd (Nat.isDigit_of_mem_toDigits (by omega) (by omega) h) (by decide)

theorem less_not_mem_repr (n : Nat) : '<' ∉ n.repr.toList := by
  rw [Nat.toList_repr]
  exact less_not_mem_digitsText n

theorem less_not_mem_toString (i : Int) : '<' ∉ (toString i).toList := by
  cases i with
  | ofNat n => exact less_not_mem_repr n
  | negSucc n =>
    have happend : toString (Int.negSucc n) = "-" ++ (n + 1).repr := rfl
    rw [happend, String.toList_append, List.mem_append]
    exact not_or.mpr ⟨by decide, less_not_mem_repr (n + 1)⟩

theorem less_not_mem_point (n k : Nat) :
    '<' ∉ (digitsText n).take k ++ '.' :: (digitsText n).drop k := by
  rw [List.mem_append, List.mem_cons]
  rintro (h | h | h)
  · exact less_not_mem_digitsText n (List.mem_of_mem_take h)
  · exact absurd h (by decide)
  · exact less_not_mem_digitsText n (List.mem_of_mem_drop h)

theorem less_not_mem_positional (s : Scientific) : '<' ∉ (positional s).toList := by
  have hdigits := less_not_mem_digitsText s.digits
  unfold positional
  dsimp only
  split_ifs
  · simp [hdigits]
  · simp [hdigits]
  · rw [String.toList_ofList]
    exact less_not_mem_point _ _

theorem less_not_mem_jsonFinite (s : Scientific) : '<' ∉ (jsonFinite s).toList := by
  have hdigits := less_not_mem_digitsText s.digits
  have hpositional := less_not_mem_positional s
  have hexponent (e : Int) : '<' ∉ (exponentText e).toList := by
    rw [exponentText, String.toList_append, List.mem_append]
    exact not_or.mpr ⟨by decide, less_not_mem_toString e⟩
  unfold jsonFinite
  dsimp only
  split_ifs
  · decide
  · simp [hpositional]
  · exact hpositional
  · simp [hdigits, hexponent]
  · rw [String.toList_append, String.toList_ofList, List.mem_append]
    exact not_or.mpr ⟨less_not_mem_point _ 1, hexponent _⟩

theorem less_not_mem_render (d : Decoded) : '<' ∉ (render jsonStyle d).toList := by
  have hsign (negative : Bool) : '<' ∉ (signText negative).toList := by
    cases negative <;> decide
  cases d <;> simp [render, hsign, jsonStyle, less_not_mem_jsonFinite]

end Shortest

namespace Json

theorem less_not_mem_numberText (n : JsonNumber) : '<' ∉ (numberText n).toList := by
  cases n with
  | integer i => exact Shortest.less_not_mem_toString i
  | float x => exact Shortest.less_not_mem_render _

mutual

/-- The strings in a value, with the keys of its objects. -/
def strings : Json → List String
  | string s => [s]
  | array items => itemStrings items
  | object members => memberStrings members
  | _ => []

def itemStrings : List Json → List String
  | [] => []
  | item :: rest => item.strings ++ itemStrings rest

def memberStrings : List (String × Json) → List String
  | [] => []
  | (key, value) :: rest => key :: value.strings ++ memberStrings rest

end

/-- No escape holds a character of what begins a comment. -/
theorem writtenApart_escapeChar : WrittenApart escapeChar commentStart := by
  have hhex : ∀ n < 16, hexDigit n ∉ commentStart := by decide
  have hcontrol : ∀ c ∈ commentStart, ¬ c.toNat < 32 := by simp [commentStart]
  intro c
  unfold escapeChar
  split_ifs with hquote hslash hnewline hreturn htab hback hfeed hsmall
  any_goals
    subst c
    exact .inr ⟨by decide, by simp, by simp [commentStart]⟩
  · refine .inr ⟨fun hc => hcontrol c hc hsmall, List.cons_ne_nil _ _, ?_⟩
    have hhigh := hhex (c.toNat / 16) (by omega)
    have hlow := hhex (c.toNat % 16) (by omega)
    simp only [List.forall_mem_cons]
    exact ⟨by decide, by decide, by decide, by decide, hhigh, hlow, List.forall_mem_nil _⟩
  · exact .inl rfl

theorem infix_separator_iff {c : Char} (hc : c ∈ ['"', ',', ':', '[', ']', '\x7b', '\x7d'])
    {a b : List Char} :
    commentStart <:+: a ++ c :: b ↔ commentStart <:+: a ∨ commentStart <:+: b := by
  have hseparators : ∀ c ∈ ['"', ',', ':', '[', ']', '\x7b', '\x7d'], c ∉ commentStart := by
    simp [commentStart]
  exact infix_append_cons_iff (hseparators c hc)

theorem not_infix_nil : ¬ commentStart <:+: [] := by
  simp [commentStart]

theorem infix_between_iff {c d : Char} (hc : c ∈ ['"', ',', ':', '[', ']', '\x7b', '\x7d'])
    (hd : d ∈ ['"', ',', ':', '[', ']', '\x7b', '\x7d']) {text : List Char} :
    commentStart <:+: c :: text ++ [d] ↔ commentStart <:+: text := by
  rw [infix_separator_iff hd, or_iff_left not_infix_nil, ← List.nil_append (c :: text),
    infix_separator_iff hc, or_iff_right not_infix_nil]

theorem not_infix_of_not_mem {text : List Char} (h : '<' ∉ text) : ¬ commentStart <:+: text :=
  fun hfound => h (hfound.subset List.mem_cons_self)

theorem infix_quote_iff (s : String) : commentStart <:+: quote s ↔ commentStart <:+: s.toList := by
  rw [quote, infix_between_iff (by simp) (by simp),
    writtenApart_escapeChar.infix_flatMap_iff (List.cons_ne_nil _ _)]

theorem exists_mem_append_iff {q : String → Prop} {a b : List String} :
    (∃ s ∈ a ++ b, q s) ↔ (∃ s ∈ a, q s) ∨ ∃ s ∈ b, q s := by
  simp only [List.mem_append, or_and_right, exists_or]

mutual

theorem infix_chars_iff : ∀ v : Json,
    commentStart <:+: v.chars ↔ ∃ s ∈ v.strings, commentStart <:+: s.toList
  | null => by
    have hchars : ¬ commentStart <:+: null.chars := not_infix_of_not_mem (by decide)
    simp [hchars, strings]
  | bool b => by
    have hchars : ¬ commentStart <:+: (bool b).chars :=
      not_infix_of_not_mem (by cases b <;> decide)
    simp [hchars, strings]
  | number n => by
    have hchars := not_infix_of_not_mem (less_not_mem_numberText n)
    simp [chars, hchars, strings]
  | string s => by
    rw [chars, infix_quote_iff]
    simp [strings]
  | array items => by
    rw [chars, strings, infix_between_iff (by simp) (by simp), infix_itemChars_iff items]
  | object members => by
    rw [chars, strings, infix_between_iff (by simp) (by simp), infix_memberChars_iff members]

theorem infix_itemChars_iff : ∀ items : List Json,
    commentStart <:+: itemChars items ↔ ∃ s ∈ itemStrings items, commentStart <:+: s.toList
  | [] => by simp [itemChars, itemStrings, commentStart]
  | [item] => by simp [itemChars, itemStrings, infix_chars_iff item]
  | item :: w :: rest => by
    have hchars : itemChars (item :: w :: rest) = item.chars ++ ',' :: itemChars (w :: rest) := rfl
    have hstrings : itemStrings (item :: w :: rest) = item.strings ++ itemStrings (w :: rest) := rfl
    rw [hchars, hstrings, exists_mem_append_iff, infix_separator_iff (by simp), infix_chars_iff item,
      infix_itemChars_iff (w :: rest)]

theorem infix_memberChars_iff : ∀ members : List (String × Json),
    commentStart <:+: memberChars members ↔ ∃ s ∈ memberStrings members, commentStart <:+: s.toList
  | [] => by simp [memberChars, memberStrings, commentStart]
  | [(key, value)] => by
    rw [memberChars, infix_separator_iff (by simp), infix_quote_iff, infix_chars_iff value]
    simp [memberStrings]
  | (key, value) :: m :: rest => by
    have hchars : memberChars ((key, value) :: m :: rest) =
        quote key ++ ':' :: value.chars ++ ',' :: memberChars (m :: rest) := rfl
    have hstrings : memberStrings ((key, value) :: m :: rest) =
        (key :: value.strings) ++ memberStrings (m :: rest) := rfl
    rw [hchars, hstrings, exists_mem_append_iff, List.exists_mem_cons_iff,
      infix_separator_iff (by simp), infix_separator_iff (by simp), infix_quote_iff,
      infix_chars_iff value, infix_memberChars_iff (m :: rest)]

end

end Json

/-! ## The text in the script -/

theorem replaceFrom_eq_breakTags :
    ∀ text, replaceFrom ['<', '/'] ['<', '\\', '/'] 0 text = breakTags false text
  | [] => rfl
  | [c] => by simp [replaceFrom, breakTags, List.isPrefixOf]
  | c :: d :: rest => by
    by_cases htag : c = '<' ∧ d = '/'
    · obtain ⟨rfl, rfl⟩ := htag
      exact congrArg (fun text => '<' :: '\\' :: '/' :: text) (replaceFrom_eq_breakTags rest)
    · have hhead : ['<', '/'].isPrefixOf (c :: d :: rest) = false := by
        rw [Bool.eq_false_iff, ne_eq, List.isPrefixOf_iff_prefix, List.cons_prefix_cons,
          List.cons_prefix_cons]
        exact fun h => htag ⟨h.1.symm, h.2.1.symm⟩
      rw [replaceFrom, hhead, if_neg Bool.false_ne_true, replaceFrom_eq_breakTags (d :: rest)]
      by_cases hless : c = '<'
      · subst hless
        have hslash : d ≠ '/' := fun h => htag ⟨rfl, h⟩
        rw [breakTags_of_ne_slash (c := '<') (by decide), breakTags_of_ne_slash hslash,
          breakTags_of_ne_slash hslash]
      · rw [breakTags_false_cons hless]

theorem toList_scriptValue (v : Json) : (scriptValue v).toList = breakTags false v.chars := by
  have hpattern : "</".toList = ['<', '/'] := by decide
  have hvalue : "<\\/".toList = ['<', '\\', '/'] := by decide
  unfold scriptValue replaceAll Json.render
  rw [hpattern, hvalue, String.toList_ofList, String.toList_ofList, replaceFrom_eq_breakTags]

/-- In the script, the text of a value holds no end tag, and the beginning of a comment exactly if one
of its strings does. It is read as what the text of the value is read as: as the value itself, when that
is well formed. -/
theorem scriptValue_keeps_value (v : Json) :
    ¬ "</".toList <:+: (scriptValue v).toList ∧
    (commentStart <:+: (scriptValue v).toList ↔ ∃ s ∈ v.strings, commentStart <:+: s.toList) ∧
    (∀ w, Json.parse? v.render = some w → Json.parse? (scriptValue v) = some w) ∧
    (v.WellFormed → Json.parse? (scriptValue v) = some v) := by
  have hread : ∀ w, Json.parse? v.render = some w → Json.parse? (scriptValue v) = some w := by
    intro w h
    have htext := Json.parse?_breakTags h
    rwa [← toList_scriptValue, String.ofList_toList] at htext
  refine ⟨?_, ?_, hread, fun h => hread v (Json.parse?_render h)⟩
  · rw [toList_scriptValue]
    exact not_infix_breakTags
  · have hslash : '/' ∉ commentStart := by decide
    have hback : '\\' ∉ commentStart := by decide
    rw [toList_scriptValue, infix_breakTags_iff hslash hback (List.cons_ne_nil _ _),
      Json.infix_chars_iff]

/-- Two example queries, one with an end tag. -/
def sampleQueries : Json :=
  .object [("all", .array [.string "ASK \x7b\x7d", .ofNat 7, .null]), ("tag", .string "</script>")]

theorem scriptValue_keeps_value_tag :
    sampleQueries.WellFormed ∧ Json.parse? (scriptValue sampleQueries) = some sampleQueries := by
  have hwell : sampleQueries.WellFormed := by
    refine .object (by decide +kernel) ?_
    simp only [List.forall_mem_cons]
    refine ⟨.array ?_, .string _, List.forall_mem_nil _⟩
    simp only [List.forall_mem_cons]
    exact ⟨.string _, .number (JsonNumber.readsBack_integer (by decide) (by decide)), .null,
      List.forall_mem_nil _⟩
  exact ⟨hwell, (scriptValue_keeps_value sampleQueries).2.2.2 hwell⟩

/-- What begins a comment does so in the script. -/
theorem scriptValue_begins_comment : commentStart <:+: (scriptValue (.string "<!--")).toList := by
  decide +kernel

end SparqlBind
