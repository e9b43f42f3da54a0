import SparqlBind.Proofs.Text.Json
import SparqlBind.Proofs.Text.Patterns

/-!
# Broken tags

A text with a backslash in each end tag. A reader of JSON passes over these backslashes: it meets less-than
signs and slashes in strings only, where a slash may be escaped. So it reads the same from the text with
broken tags, which is longer, so that its fuel is enough.
-/

namespace SparqlBind

/-- The text with a backslash between each less-than sign and a slash behind it; `after` tells whether a
less-than sign stands before the text. -/
def breakTags : Bool → List Char → List Char
  | _, [] => []
  | after, c :: rest =>
    if after && c == '/' then '\\' :: c :: breakTags false rest
    else c :: breakTags (c == '<') rest

section BreakTags

variable {after : Bool} {c : Char} {p rest text : List Char}

theorem breakTags_of_ne_slash (hslash : c ≠ '/') :
    breakTags after (c :: rest) = c :: breakTags (c == '<') rest := by
  simp [breakTags, hslash]

/-- A character that is neither of the two does not matter. -/
theorem breakTags_plain (hslash : c ≠ '/') (hless : c ≠ '<') :
    breakTags after (c :: rest) = c :: breakTags false rest := by
  rw [breakTags_of_ne_slash hslash, beq_false_of_ne hless]

theorem breakTags_false_cons (hless : c ≠ '<') :
    breakTags false (c :: rest) = c :: breakTags false rest := by
  rw [breakTags, Bool.false_and, if_neg Bool.false_ne_true, beq_false_of_ne hless]

theorem eq_slash_of_broken (h : (after && c == '/') = true) : c = '/' :=
  beq_iff_eq.mp (Bool.and_eq_true_iff.mp h).2

theorem exists_cons_of_breakTags_eq_cons (h : breakTags false text = c :: rest) :
    ∃ tail, text = c :: tail := by
  cases text with
  | nil => cases h
  | cons d tail =>
    rw [breakTags, Bool.false_and, if_neg Bool.false_ne_true] at h
    exact ⟨tail, by rw [(List.cons.inj h).1]⟩

theorem head?_breakTags_true : (breakTags true text).head? ≠ some '/' := by
  cases text with
  | nil => simp [breakTags]
  | cons c text =>
    by_cases hslash : c = '/'
    · simp [breakTags, hslash]
    · simp [breakTags, hslash]

/-- No slash stands behind a less-than sign. -/
theorem not_infix_breakTags : ¬ ['<', '/'] <:+: breakTags after text := by
  induction text generalizing after with
  | nil => simp [breakTags]
  | cons c text ih =>
    rw [breakTags]
    split
    · next hbroken =>
      obtain rfl := eq_slash_of_broken hbroken
      have hfirst : ¬ ['<', '/'] <+: '\\' :: '/' :: breakTags false text := by simp
      have hsecond : ¬ ['<', '/'] <+: '/' :: breakTags false text := by simp
      rw [List.infix_cons_iff, List.infix_cons_iff]
      exact not_or.mpr ⟨hfirst, not_or.mpr ⟨hsecond, ih⟩⟩
    · rw [List.infix_cons_iff]
      refine not_or.mpr ⟨fun hprefix => ?_, ih⟩
      obtain ⟨rfl, tail, htail⟩ := List.cons_prefix_cons.mp hprefix
      have hhead : (breakTags true text).head? = some '/' := congrArg List.head? htail.symm
      exact head?_breakTags_true hhead

section Pattern

variable (hslash : '/' ∉ p) (hback : '\\' ∉ p)

include hslash hback

theorem prefix_breakTags_iff : p <+: breakTags after text ↔ p <+: text := by
  induction text generalizing p after with
  | nil => rfl
  | cons c text ih =>
    cases p with
    | nil => simp
    | cons x p =>
      obtain ⟨hx, hslash⟩ := List.ne_and_not_mem_of_not_mem_cons hslash
      obtain ⟨hx', hback⟩ := List.ne_and_not_mem_of_not_mem_cons hback
      rw [breakTags]
      split
      · next hbroken =>
        obtain rfl := eq_slash_of_broken hbroken
        simp [List.cons_prefix_cons, hx.symm, hx'.symm]
      · rw [List.cons_prefix_cons, List.cons_prefix_cons, ih hslash hback]

/-- A pattern without slashes and backslashes neither comes nor goes. -/
theorem infix_breakTags_iff (hp : p ≠ []) : p <:+: breakTags after text ↔ p <:+: text := by
  induction text generalizing after with
  | nil => rfl
  | cons c text ih =>
    have hprefix : p <+: breakTags after (c :: text) ↔ p <+: c :: text :=
      prefix_breakTags_iff hslash hback
    rw [breakTags] at hprefix ⊢
    split at hprefix
    · next hbroken =>
      obtain rfl := eq_slash_of_broken hbroken
      rw [if_pos hbroken, infix_cons_iff_of_not_mem hp hback, infix_cons_iff_of_not_mem hp hslash,
        infix_cons_iff_of_not_mem hp hslash, ih]
    · next hbroken =>
      rw [if_neg hbroken, List.infix_cons_iff, List.infix_cons_iff, hprefix, ih]

end Pattern

theorem ne_less_of_pos {q : Char → Bool} (hq : q '<' = false) (hc : q c = true) : c ≠ '<' := by
  rintro rfl
  exact absurd hc (by simp [hq])

theorem takeWhile_breakTags {q : Char → Bool} (hq : q '<' = false) :
    (breakTags false text).takeWhile q = text.takeWhile q := by
  induction text with
  | nil => rfl
  | cons c text ih =>
    by_cases hc : q c = true
    · rw [breakTags_false_cons (ne_less_of_pos hq hc), List.takeWhile_cons_of_pos hc,
        List.takeWhile_cons_of_pos hc, ih]
    · rw [List.takeWhile_cons_of_neg hc]
      exact List.takeWhile_cons_of_neg hc

theorem dropWhile_breakTags {q : Char → Bool} (hq : q '<' = false) :
    (breakTags false text).dropWhile q = breakTags false (text.dropWhile q) := by
  induction text with
  | nil => rfl
  | cons c text ih =>
    by_cases hc : q c = true
    · rw [breakTags_false_cons (ne_less_of_pos hq hc), List.dropWhile_cons_of_pos hc,
        List.dropWhile_cons_of_pos hc, ih]
    · rw [List.dropWhile_cons_of_neg hc]
      exact List.dropWhile_cons_of_neg hc

end BreakTags

/-! ## Reading -/

/-- What `f` reads from a text, `g` reads from the text with broken tags. -/
def ReadsBroken {α : Type} (f g : List Char → Option (α × List Char)) : Prop :=
  ∀ {text x rest}, f text = some (x, rest) → g (breakTags false text) = some (x, breakTags false rest)

namespace Json

theorem skipBlank_breakTags (text : List Char) :
    skipBlank (breakTags false text) = breakTags false (skipBlank text) :=
  dropWhile_breakTags (by decide)

theorem takeWhile_isDigit_breakTags (text : List Char) :
    (breakTags false text).takeWhile Char.isDigit = text.takeWhile Char.isDigit :=
  takeWhile_breakTags (by decide)

theorem dropWhile_isDigit_breakTags (text : List Char) :
    (breakTags false text).dropWhile Char.isDigit = breakTags false (text.dropWhile Char.isDigit) :=
  dropWhile_breakTags (by decide)

theorem readFraction_breakTags : ReadsBroken readFraction readFraction := by
  intro text x rest h
  cases text with
  | nil =>
    cases h
    rfl
  | cons c text =>
    by_cases hpoint : c = '.'
    · subst hpoint
      rw [breakTags_false_cons (by decide), readFraction, takeWhile_isDigit_breakTags,
        dropWhile_isDigit_breakTags]
      rw [readFraction] at h
      split at h
      · cases h
      · next hdigits =>
        cases h
        rw [if_neg hdigits]
    · have hread (tail : List Char) : readFraction (c :: tail) = some ([], c :: tail) := by
        rw [readFraction]
        rintro _ ⟨⟩
        exact hpoint rfl
      rw [hread] at h
      cases h
      exact hread _

/-- The digits of an exponent. -/
def readExponentDigits (negative : Bool) (text : List Char) : Option (Option Int × List Char) :=
  let digits := text.takeWhile Char.isDigit
  let size : Int := min (digitsValue digits) 100000
  if digits.isEmpty then none
  else some (some (if negative then -size else size), text.dropWhile Char.isDigit)

/-- The digits of an exponent behind a sign, if there is one. -/
def readSignedDigits : List Char → Option (Option Int × List Char)
  | '+' :: text => readExponentDigits false text
  | '-' :: text => readExponentDigits true text
  | text => readExponentDigits false text

theorem readExponent_cons (c : Char) (text : List Char) :
    readExponent (c :: text) =
      if c == 'e' || c == 'E' then readSignedDigits text else some (none, c :: text) :=
  rfl

theorem readSignedDigits_of_ne {c : Char} (hplus : c ≠ '+') (hminus : c ≠ '-') (text : List Char) :
    readSignedDigits (c :: text) = readExponentDigits false (c :: text) := by
  rw [readSignedDigits]
  · rintro _ ⟨⟩
    exact hplus rfl
  · rintro _ ⟨⟩
    exact hminus rfl

theorem readExponentDigits_breakTags (negative : Bool) :
    ReadsBroken (readExponentDigits negative) (readExponentDigits negative) := by
  intro text x rest h
  unfold readExponentDigits at h ⊢
  rw [takeWhile_isDigit_breakTags, dropWhile_isDigit_breakTags]
  dsimp only at h ⊢
  split at h
  · cases h
  · next hdigits =>
    cases h
    rw [if_neg hdigits]

theorem readSignedDigits_breakTags : ReadsBroken readSignedDigits readSignedDigits := by
  intro text x rest h
  cases text with
  | nil => cases h
  | cons c text =>
    by_cases hplus : c = '+'
    · subst hplus
      rw [breakTags_false_cons (by decide)]
      exact readExponentDigits_breakTags false h
    by_cases hminus : c = '-'
    · subst hminus
      rw [breakTags_false_cons (by decide)]
      exact readExponentDigits_breakTags true h
    · rw [readSignedDigits_of_ne hplus hminus] at h
      exact (readSignedDigits_of_ne hplus hminus _).trans (readExponentDigits_breakTags false h)

theorem readExponent_breakTags : ReadsBroken readExponent readExponent := by
  intro text x rest h
  cases text with
  | nil =>
    cases h
    rfl
  | cons c text =>
    rw [readExponent_cons] at h
    split at h
    · next he =>
      have hless : c ≠ '<' := ne_less_of_pos (q := fun c => c == 'e' || c == 'E') (by decide) he
      rw [breakTags_false_cons hless, readExponent_cons, if_pos he]
      exact readSignedDigits_breakTags h
    · next he =>
      cases h
      exact (readExponent_cons c _).trans (if_neg he)

theorem readUnsigned_breakTags (negative : Bool) :
    ReadsBroken (readUnsigned negative) (readUnsigned negative) := by
  intro text x rest h
  unfold readUnsigned at h ⊢
  rw [takeWhile_isDigit_breakTags, dropWhile_isDigit_breakTags]
  dsimp only at h ⊢
  split at h
  · cases h
  · next hdigits =>
    rw [if_neg hdigits]
    obtain ⟨⟨fraction, text⟩, hfraction, h⟩ := Option.bind_eq_some_iff.mp h
    obtain ⟨⟨exponent, text⟩, hexponent, h⟩ := Option.bind_eq_some_iff.mp h
    simp only [readFraction_breakTags hfraction, readExponent_breakTags hexponent, Option.bind_eq_bind,
      Option.bind_some]
    dsimp only at h
    -- What is left does not look at the text any more.
    split at h
    · next hinteger =>
      obtain ⟨n, hn, h⟩ := Option.bind_eq_some_iff.mp h
      cases h
      rw [if_pos hinteger, hn]
      rfl
    · next hinteger =>
      rw [if_neg hinteger]
      split at h
      · next hzero =>
        cases h
        rw [if_pos hzero]
        rfl
      · next hzero =>
        obtain ⟨n, hn, h⟩ := Option.bind_eq_some_iff.mp h
        cases h
        rw [if_neg hzero, hn]
        rfl

theorem readNumber_breakTags : ReadsBroken readNumber readNumber := by
  intro text x rest h
  cases text with
  | nil => cases h
  | cons c text =>
    by_cases hsign : c = '-'
    · subst hsign
      rw [breakTags_false_cons (by decide)]
      exact readUnsigned_breakTags true h
    · rw [readNumber_of_ne hsign] at h
      exact (readNumber_of_ne hsign _).trans (readUnsigned_breakTags false h)

theorem ne_of_hexValue? {x : Char} {n : Nat} (h : hexValue? x = some n) : x ≠ '/' ∧ x ≠ '<' := by
  have hslash : hexValue? '/' = none := by decide
  have hless : hexValue? '<' = none := by decide
  constructor
  · rintro rfl
    rw [hslash] at h
    cases h
  · rintro rfl
    rw [hless] at h
    cases h

/-- Neither of the two characters is a digit of a code. -/
theorem breakTags_hexCode {after : Bool} {a b c d : Char} {n : Nat} (h : hexCode? a b c d = some n)
    (rest : List Char) : breakTags after ('\\' :: 'u' :: a :: b :: c :: d :: rest) =
      '\\' :: 'u' :: a :: b :: c :: d :: breakTags false rest := by
  obtain ⟨na, ha, h⟩ := Option.bind_eq_some_iff.mp h
  obtain ⟨nb, hb, h⟩ := Option.bind_eq_some_iff.mp h
  obtain ⟨nc, hc, h⟩ := Option.bind_eq_some_iff.mp h
  obtain ⟨nd, hd, -⟩ := Option.bind_eq_some_iff.mp h
  rw [breakTags_plain (by decide) (by decide), breakTags_false_cons (by decide),
    breakTags_false_cons (ne_of_hexValue? ha).2, breakTags_false_cons (ne_of_hexValue? hb).2,
    breakTags_false_cons (ne_of_hexValue? hc).2, breakTags_false_cons (ne_of_hexValue? hd).2]

theorem readString_breakTags {after : Bool} {read text : List Char} {s : String} {rest : List Char}
    (h : readString read text = some (s, rest)) :
    readString read (breakTags after text) = some (s, breakTags false rest) := by
  fun_induction readString read text generalizing after with
  | case2 read rest =>
    cases h
    rw [breakTags_plain (by decide) (by decide), readString_close]
  | case6 read a b c d high hhigh hnot hsurrogate e f g i rest low hlow hsecond ih =>
    rw [breakTags_hexCode hhigh, breakTags_hexCode hlow,
      readString_surrogates read _ hhigh (Bool.eq_false_iff.mpr hnot) hsurrogate hlow hsecond]
    exact ih h
  | case9 read a b c d rest code hcode hlow hhigh ih =>
    rw [breakTags_hexCode hcode, readString_code read _ hcode (Bool.eq_false_iff.mpr hlow)
      (Bool.eq_false_iff.mpr hhigh)]
    exact ih h
  | case10 read c rest hcode d hescape ih =>
    have hless : c ≠ '<' := by
      rintro rfl
      cases hescape
    rw [breakTags_plain (by decide) (by decide), breakTags_false_cons hless,
      readString_simpleEscape read _ hescape]
    exact ih h
  | case13 read c rest hquote hcode hslash hcontrol ih =>
    have hplain : c ≠ '\\' := by
      rintro rfl
      cases rest with
      | nil => cases h
      | cons d rest => exact hslash d rest rfl rfl
    rw [breakTags]
    split
    · next hbroken =>
      obtain rfl := eq_slash_of_broken hbroken
      rw [readString_simpleEscape read _ rfl]
      exact ih h
    · rw [readString_plain read _ hquote hplain hcontrol]
      exact ih h
  | _ => cases h

section Fuel

variable {fuel fuel' : Nat}

theorem skipBlank_breakTags_of_eq {c : Char} {text rest : List Char} (h : skipBlank text = c :: rest)
    (hless : c ≠ '<') : skipBlank (breakTags false text) = c :: breakTags false rest := by
  rw [skipBlank_breakTags, h, breakTags_false_cons hless]

theorem readItems_breakTags_step (hvalue : ReadsBroken (readValue fuel) (readValue fuel'))
    (hitems : ReadsBroken (readItems fuel) (readItems fuel')) :
    ReadsBroken (readItems (fuel + 1)) (readItems (fuel' + 1)) := by
  intro text items rest h
  rw [readItems_succ] at h
  split at h
  · cases h
  · next item text' hitem =>
    split at h
    · next text'' hcomma =>
      obtain ⟨⟨others, text⟩, hothers, heq⟩ := Option.map_eq_some_iff.mp h
      cases heq
      exact readItems_cons (hvalue hitem) (skipBlank_breakTags_of_eq hcomma (by decide))
        (hitems hothers)
    · next text'' hclose =>
      cases h
      exact readItems_last (hvalue hitem) (skipBlank_breakTags_of_eq hclose (by decide))
    · cases h

theorem readMembers_breakTags_step (hvalue : ReadsBroken (readValue fuel) (readValue fuel'))
    (hmembers : ReadsBroken (readMembers fuel) (readMembers fuel')) :
    ReadsBroken (readMembers (fuel + 1)) (readMembers (fuel' + 1)) := by
  intro text members rest h
  rw [readMembers_succ] at h
  split at h
  · next text' hquote =>
    split at h
    · cases h
    · next key text' hkey =>
      split at h
      · next text' hcolon =>
        split at h
        · cases h
        · next value text' hval =>
          split at h
          · next text' hcomma =>
            obtain ⟨⟨others, text⟩, hothers, heq⟩ := Option.map_eq_some_iff.mp h
            cases heq
            exact readMembers_cons (skipBlank_breakTags_of_eq hquote (by decide))
              (readString_breakTags hkey) (skipBlank_breakTags_of_eq hcolon (by decide))
              (hvalue hval) (skipBlank_breakTags_of_eq hcomma (by decide)) (hmembers hothers)
          · next text' hclose =>
            cases h
            exact readMembers_last (skipBlank_breakTags_of_eq hquote (by decide))
              (readString_breakTags hkey) (skipBlank_breakTags_of_eq hcolon (by decide))
              (hvalue hval) (skipBlank_breakTags_of_eq hclose (by decide))
          · cases h
      · cases h
  · cases h

theorem readValue_breakTags_step (hitems : ReadsBroken (readItems fuel) (readItems fuel'))
    (hmembers : ReadsBroken (readMembers fuel) (readMembers fuel')) :
    ReadsBroken (readValue (fuel + 1)) (readValue (fuel' + 1)) := by
  intro text v rest h
  have hne {c : Char} {text : List Char} (h : ∀ tail, text ≠ c :: tail) (tail : List Char) :
      breakTags false text ≠ c :: tail := by
    intro heq
    obtain ⟨tail, rfl⟩ := exists_cons_of_breakTags_eq_cons heq
    exact h tail rfl
  rw [readValue_succ] at h
  rw [← readValue_skipBlank, skipBlank_breakTags]
  split at h
  · next text' hnull =>
    cases h
    rw [hnull]
    rfl
  · next text' htrue =>
    cases h
    rw [htrue]
    rfl
  · next text' hfalse =>
    cases h
    rw [hfalse]
    rfl
  · next text' hquote =>
    obtain ⟨⟨s, text⟩, hstring, heq⟩ := Option.map_eq_some_iff.mp h
    cases heq
    rw [hquote, breakTags_false_cons (by decide), readValue_quote, readString_breakTags hstring,
      Option.map_some]
  · next text' hopen =>
    rw [hopen, breakTags_false_cons (by decide)]
    split at h
    · next text'' hclose =>
      cases h
      rw [readValue_array_nil (skipBlank_breakTags_of_eq hclose (by decide))]
    · next hclose =>
      obtain ⟨⟨items, text⟩, hread, heq⟩ := Option.map_eq_some_iff.mp h
      cases heq
      rw [readValue_array (skipBlank_breakTags _) (hne hclose), hitems hread, Option.map_some]
  · next text' hopen =>
    rw [hopen, breakTags_false_cons (by decide)]
    split at h
    · next text'' hclose =>
      cases h
      rw [readValue_object_nil (skipBlank_breakTags_of_eq hclose (by decide))]
    · next hclose =>
      obtain ⟨⟨members, text⟩, hread, heq⟩ := Option.map_eq_some_iff.mp h
      cases heq
      rw [readValue_object (skipBlank_breakTags _) (hne hclose), hmembers hread, Option.map_some]
  · obtain ⟨⟨n, text⟩, hnumber, heq⟩ := Option.map_eq_some_iff.mp h
    cases heq
    rw [readValue_of_readNumber (readNumber_breakTags hnumber)]

theorem readsBroken_of_le (hle : fuel ≤ fuel') : ReadsBroken (readValue fuel) (readValue fuel') ∧
    ReadsBroken (readItems fuel) (readItems fuel') ∧
    ReadsBroken (readMembers fuel) (readMembers fuel') := by
  induction fuel generalizing fuel' with
  | zero =>
    refine ⟨?_, ?_, ?_⟩ <;> intro text x rest h <;> cases h
  | succ fuel ih =>
    obtain _ | fuel' := fuel'
    · cases hle
    · obtain ⟨hvalue, hitems, hmembers⟩ := ih (Nat.le_of_succ_le_succ hle)
      exact ⟨readValue_breakTags_step hitems hmembers, readItems_breakTags_step hvalue hitems,
        readMembers_breakTags_step hvalue hmembers⟩

end Fuel

theorem length_le_breakTags (after : Bool) (text : List Char) :
    text.length ≤ (breakTags after text).length := by
  induction text generalizing after with
  | nil => exact Nat.le_refl 0
  | cons c text ih =>
    rw [breakTags]
    split
    · exact Nat.succ_le_succ ((ih false).trans (Nat.le_succ _))
    · exact Nat.succ_le_succ (ih (c == '<'))

/-- A text with broken tags is read as the text. -/
theorem parse?_breakTags {text : List Char} {v : Json} (h : parse? (String.ofList text) = some v) :
    parse? (String.ofList (breakTags false text)) = some v := by
  have hle : 2 * text.length + 1 ≤ 2 * (breakTags false text).length + 1 := by
    have := length_le_breakTags false text
    omega
  simp only [parse?, String.toList_ofList] at h ⊢
  split at h
  · next value rest hvalue =>
    rw [(readsBroken_of_le hle).1 hvalue]
    split at h
    · next hblank =>
      rw [List.isEmpty_iff] at hblank
      simp only [skipBlank_breakTags, hblank, breakTags, List.isEmpty_nil, ↓reduceIte]
      exact h
    · cases h
  · cases h

end Json

end SparqlBind
