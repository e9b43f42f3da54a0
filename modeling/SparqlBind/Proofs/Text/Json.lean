import SparqlBind.Text.Json
import Mathlib.Data.List.TakeWhile
import Mathlib.Data.String.Basic

/-!
# Reading back what was written

A value whose objects have their members in the order of their keys, and whose numbers are read back, is
read back from its text. The reader stops behind the value, so that what follows it is free except for
what could go on with a number, and it takes no more fuel than the characters of the text allow.
-/

namespace SparqlBind

namespace Json

/-! ## Strings -/

theorem hexValue?_hexDigit : ∀ n < 16, hexValue? (hexDigit n) = some n := by
  decide

section ReadString

variable {c d : Char} (read rest : List Char)

theorem readString_close : readString read ('"' :: rest) = some (String.ofList read.reverse, rest) :=
  rfl

theorem readString_plain (hquote : c ≠ '"') (hslash : c ≠ '\\') (hcontrol : ¬ c.toNat < 32) :
    readString read (c :: rest) = readString (c :: read) rest := by
  rw [readString.eq_def]
  split <;> simp_all

theorem readString_simpleEscape (h : simpleEscape? c = some d) :
    readString read ('\\' :: c :: rest) = readString (d :: read) rest := by
  have hc : c ≠ 'u' := by
    rintro rfl
    cases h
  rw [readString]
  · simp [h]
  · simp [hc]

section Codes

variable {a b c d : Char} {high : Nat} (hcode : hexCode? a b c d = some high)
  (hlow : isLowSurrogate high = false)

include hcode hlow

theorem readString_code (hhigh : isHighSurrogate high = false) :
    readString read ('\\' :: 'u' :: a :: b :: c :: d :: rest) =
      readString (Char.ofNat high :: read) rest := by
  simp only [readString, hcode, hlow, hhigh, Bool.false_eq_true, ↓reduceIte]

theorem readString_surrogates (hhigh : isHighSurrogate high = true) {e f g h : Char} {low : Nat}
    (hcode' : hexCode? e f g h = some low) (hlow' : isLowSurrogate low = true) :
    readString read
        ('\\' :: 'u' :: a :: b :: c :: d :: '\\' :: 'u' :: e :: f :: g :: h :: rest) =
      readString (Char.ofNat (0x10000 + (high - 0xD800) * 0x400 + (low - 0xDC00)) :: read) rest := by
  simp only [readString, hcode, hlow, hhigh, hcode', hlow', Bool.false_eq_true, ↓reduceIte]

end Codes

theorem readString_control (hc : c.toNat < 32) :
    readString read
        ('\\' :: 'u' :: '0' :: '0' :: hexDigit (c.toNat / 16) :: hexDigit (c.toNat % 16) :: rest) =
      readString (c :: read) rest := by
  have hcode : hexCode? '0' '0' (hexDigit (c.toNat / 16)) (hexDigit (c.toNat % 16)) =
      some c.toNat := by
    have hzero : hexValue? '0' = some 0 := by decide
    unfold hexCode?
    rw [hzero, hexValue?_hexDigit _ (by omega), hexValue?_hexDigit _ (by omega)]
    simp only [Option.bind_eq_bind, Option.bind_some, Option.pure_def, Option.some.injEq]
    omega
  have hlow : isLowSurrogate c.toNat = false := by
    simp only [isLowSurrogate, Bool.and_eq_false_iff, decide_eq_false_iff_not]
    omega
  have hhigh : isHighSurrogate c.toNat = false := by
    simp only [isHighSurrogate, Bool.and_eq_false_iff, decide_eq_false_iff_not]
    omega
  rw [readString_code read rest hcode hlow hhigh, Char.ofNat_toNat]

end ReadString

theorem readString_escapeChar (c : Char) (read rest : List Char) :
    readString read (escapeChar c ++ rest) = readString (c :: read) rest := by
  unfold escapeChar
  split_ifs with hquote hslash hnewline hreturn htab hback hfeed hcontrol
  · subst hquote; rfl
  · subst hslash; rfl
  · subst hnewline; rfl
  · subst hreturn; rfl
  · subst htab; rfl
  · subst hback; rfl
  · subst hfeed; rfl
  · exact readString_control read rest hcontrol
  · exact readString_plain read rest hquote hslash hcontrol

theorem readString_flatMap (s read rest : List Char) :
    readString read (s.flatMap escapeChar ++ '"' :: rest) =
      some (String.ofList (read.reverse ++ s), rest) := by
  induction s generalizing read with
  | nil => rw [List.flatMap_nil, List.nil_append, readString_close, List.append_nil]
  | cons c s ih =>
    rw [List.flatMap_cons, List.append_assoc, readString_escapeChar, ih, List.reverse_cons,
      List.append_assoc, List.singleton_append]

theorem readString_quote (s : String) (rest : List Char) :
    readString [] (s.toList.flatMap escapeChar ++ '"' :: rest) = some (s, rest) := by
  rw [readString_flatMap, List.reverse_nil, List.nil_append, String.ofList_toList]

/-! ## Numbers -/

/-- The text does not go on with a number. -/
def EndsNumber (rest : List Char) : Prop :=
  ∀ c ∈ rest.head?, c.isDigit = false ∧ c ≠ '.' ∧ c ≠ 'e' ∧ c ≠ 'E'

section EndsNumber

variable {rest : List Char}

theorem EndsNumber.takeWhile_isDigit (h : EndsNumber rest) : rest.takeWhile Char.isDigit = [] := by
  cases rest with
  | nil => rfl
  | cons c rest => exact List.takeWhile_cons_of_neg (by simp [(h c rfl).1])

theorem EndsNumber.dropWhile_isDigit (h : EndsNumber rest) : rest.dropWhile Char.isDigit = rest := by
  cases rest with
  | nil => rfl
  | cons c rest => exact List.dropWhile_cons_of_neg (by simp [(h c rfl).1])

theorem EndsNumber.readFraction_eq (h : EndsNumber rest) : readFraction rest = some ([], rest) := by
  cases rest with
  | nil => rfl
  | cons c rest =>
    rw [readFraction]
    rintro _ ⟨⟩
    exact (h '.' rfl).2.1 rfl

theorem EndsNumber.readExponent_eq (h : EndsNumber rest) : readExponent rest = some (none, rest) := by
  cases rest with
  | nil => rfl
  | cons c rest =>
    obtain ⟨-, -, he, hE⟩ := h c rfl
    simp [readExponent, he, hE]

end EndsNumber

theorem digitsValue_toDigits (n : Nat) : digitsValue (Nat.toDigits 10 n) = n :=
  Nat.ofDigitChars_ten_toDigits

theorem head?_toDigits {n : Nat} (hn : 0 < n) : (Nat.toDigits 10 n).head? ≠ some '0' := by
  induction n using Nat.strong_induction_on with
  | _ n ih =>
    by_cases hlt : n < 10
    · have hdigit : ∀ d < 10, 0 < d → d.digitChar ≠ '0' := by decide
      rw [Nat.toDigits_of_lt_base hlt, List.head?_cons]
      exact fun h => hdigit n hlt hn (Option.some.inj h)
    · rw [Nat.toDigits_of_base_le (by omega) (by omega),
        List.head?_append_of_ne_nil _ Nat.toDigits_ne_nil]
      exact ih (n / 10) (by omega) (by omega)

/-- No digit is superfluous. -/
theorem toDigits_canonical (n : Nat) : ((Nat.toDigits 10 n).isEmpty ||
    ((Nat.toDigits 10 n).length > 1 && (Nat.toDigits 10 n).head? == some '0')) = false := by
  rcases Nat.eq_zero_or_pos n with rfl | hn
  · rfl
  · simp [Nat.toDigits_ne_nil, head?_toDigits hn]

theorem readUnsigned_toDigits {negative : Bool} {n : Nat} {x : JsonNumber} {rest : List Char}
    (hx : integerNumber? negative n = some x) (hrest : EndsNumber rest) :
    readUnsigned negative (Nat.toDigits 10 n ++ rest) = some (x, rest) := by
  have hdigits : ∀ c ∈ Nat.toDigits 10 n, c.isDigit = true :=
    fun c => Nat.isDigit_of_mem_toDigits (by omega) (by omega)
  unfold readUnsigned
  rw [List.takeWhile_append_of_pos hdigits, List.dropWhile_append_of_pos hdigits,
    hrest.takeWhile_isDigit, hrest.dropWhile_isDigit, List.append_nil, hrest.readFraction_eq]
  simp [toDigits_canonical, hrest.readExponent_eq, digitsValue_toDigits, hx]

end Json

namespace JsonNumber

/-- The reader finds the number in its text, before anything that does not go on with it. -/
def ReadsBack (n : JsonNumber) : Prop :=
  ∀ rest, Json.EndsNumber rest →
    Json.readNumber ((Json.numberText n).toList ++ rest) = some (n, rest)

theorem readsBack_ofNat {n : Nat} (h : n < 0x10000000000000000) :
    (integer (Int.ofNat n)).ReadsBack := by
  intro rest hrest
  have htext : (Json.numberText (integer (Int.ofNat n))).toList = Nat.toDigits 10 n := Nat.toList_repr
  have hinteger : Json.integerNumber? false n = some (integer (Int.ofNat n)) := by
    simp [Json.integerNumber?, h]
  rw [htext, Json.readNumber, Json.readUnsigned_toDigits hinteger hrest]
  intro text hsign
  have hhead : (Nat.toDigits 10 n).head? = some '-' := by
    have happend := congrArg List.head? hsign
    rwa [List.head?_append_of_ne_nil _ Nat.toDigits_ne_nil] at happend
  have hdigit := Nat.isDigit_of_mem_toDigits (by omega) (by omega) (List.mem_of_head? hhead)
  exact absurd hdigit (by decide)

theorem readsBack_negSucc {n : Nat} (h : n < 0x8000000000000000) :
    (integer (Int.negSucc n)).ReadsBack := by
  intro rest hrest
  have htext : (Json.numberText (integer (Int.negSucc n))).toList = '-' :: Nat.toDigits 10 (n + 1) := by
    have happend : Json.numberText (integer (Int.negSucc n)) = "-" ++ (n + 1).repr := rfl
    rw [happend, String.toList_append, Nat.toList_repr]
    rfl
  have hinteger : Json.integerNumber? true (n + 1) = some (integer (Int.negSucc n)) := by
    have hle : n + 1 ≤ 0x8000000000000000 := by omega
    simp [Json.integerNumber?, hle, Int.negSucc_eq]
  rw [htext, List.cons_append, Json.readNumber, Json.readUnsigned_toDigits hinteger hrest]

/-- All integers that the reader keeps exact are read back. -/
theorem readsBack_integer {i : Int} (hlow : -0x8000000000000000 ≤ i) (hhigh : i < 0x10000000000000000) :
    (integer i).ReadsBack := by
  cases i with
  | ofNat n => exact readsBack_ofNat (by rw [Int.ofNat_eq_natCast] at hhigh; omega)
  | negSucc n => exact readsBack_negSucc (by omega)

end JsonNumber

namespace Json

/-! ## Objects -/

theorem insertMember_of_lt {key : String} {value : Json} {members : List (String × Json)}
    (h : ∀ m ∈ members, m.1 < key) :
    insertMember key value members = members ++ [(key, value)] := by
  induction members with
  | nil => rfl
  | cons m rest ih =>
    obtain ⟨hm, hrest⟩ := List.forall_mem_cons.mp h
    rw [insertMember, if_neg hm.ne', if_neg hm.asymm, ih hrest, List.cons_append]

theorem foldl_insertMember_of_pairwise {members sorted : List (String × Json)}
    (h : (sorted ++ members).Pairwise fun m m' => m.1 < m'.1) :
    members.foldl (fun sorted m => insertMember m.1 m.2 sorted) sorted = sorted ++ members := by
  induction members generalizing sorted with
  | nil => rw [List.foldl_nil, List.append_nil]
  | cons m rest ih =>
    have hlast : insertMember m.1 m.2 sorted = sorted ++ [m] :=
      insertMember_of_lt fun m' hm' => (List.pairwise_append.mp h).2.2 m' hm' m List.mem_cons_self
    rw [List.append_cons] at h
    rw [List.foldl_cons, hlast, ih h, List.append_assoc, List.singleton_append]

theorem ofMembers_of_pairwise {members : List (String × Json)}
    (h : members.Pairwise fun m m' => m.1 < m'.1) : ofMembers members = object members :=
  congrArg object (@foldl_insertMember_of_pairwise members [] h)

/-! ## Values -/

/-- The members of each object are in the order of their keys, each key once, and the numbers are read
back. -/
inductive WellFormed : Json → Prop
  | null : WellFormed null
  | bool (b : Bool) : WellFormed (bool b)
  | number {n : JsonNumber} (h : n.ReadsBack) : WellFormed (number n)
  | string (s : String) : WellFormed (string s)
  | array {items : List Json} (h : ∀ v ∈ items, WellFormed v) : WellFormed (array items)
  | object {members : List (String × Json)} (hkeys : members.Pairwise fun m m' => m.1 < m'.1)
      (h : ∀ m ∈ members, WellFormed m.2) : WellFormed (object members)

/-- The reader finds the value in its text, before anything that does not go on with a number. Two units of
fuel for each character are enough. -/
def ReadsBack (v : Json) : Prop :=
  ∀ fuel rest, 2 * v.chars.length ≤ fuel + 1 → EndsNumber rest →
    readValue fuel (v.chars ++ rest) = some (v, rest)

/-- The text begins with a value: not with a blank, nor with what ends a list. -/
def BeginsValue (text : List Char) : Prop :=
  ∃ c rest, text = c :: rest ∧ isBlank c = false ∧ c ≠ ']'

theorem skipBlank_cons {c : Char} (h : isBlank c = false) (rest : List Char) :
    skipBlank (c :: rest) = c :: rest :=
  List.dropWhile_cons_of_neg (by simp [h])

theorem readValue_succ (fuel : Nat) (text : List Char) : readValue (fuel + 1) text =
    match skipBlank text with
    | 'n' :: 'u' :: 'l' :: 'l' :: rest => some (null, rest)
    | 't' :: 'r' :: 'u' :: 'e' :: rest => some (bool true, rest)
    | 'f' :: 'a' :: 'l' :: 's' :: 'e' :: rest => some (bool false, rest)
    | '"' :: rest => (readString [] rest).map fun p => (string p.1, p.2)
    | '[' :: rest =>
      match skipBlank rest with
      | ']' :: rest => some (array [], rest)
      | rest => (readItems fuel rest).map fun p => (array p.1, p.2)
    | '\x7b' :: rest =>
      match skipBlank rest with
      | '\x7d' :: rest => some (object [], rest)
      | rest => (readMembers fuel rest).map fun p => (ofMembers p.1, p.2)
    | rest => (readNumber rest).map fun p => (number p.1, p.2) :=
  rfl

/-- A value may have blanks before it. -/
theorem readValue_skipBlank (fuel : Nat) (text : List Char) :
    readValue fuel (skipBlank text) = readValue fuel text := by
  cases fuel with
  | zero => rfl
  | succ fuel =>
    have hskip : skipBlank (skipBlank text) = skipBlank text :=
      List.dropWhile_eq_self_iff.mpr (List.dropWhile_get_zero_not isBlank text)
    rw [readValue_succ, readValue_succ, hskip]

theorem readNumber_of_ne {c : Char} (h : c ≠ '-') (rest : List Char) :
    readNumber (c :: rest) = readUnsigned false (c :: rest) := by
  rw [readNumber]
  rintro _ ⟨⟩
  exact h rfl

theorem exists_cons_of_readNumber {text : List Char} {p : JsonNumber × List Char}
    (h : readNumber text = some p) : ∃ c rest, text = c :: rest ∧ (c = '-' ∨ c.isDigit = true) := by
  cases text with
  | nil => cases h
  | cons c rest =>
    refine ⟨c, rest, rfl, ?_⟩
    by_contra hc
    obtain ⟨hsign, hdigit⟩ := not_or.mp hc
    rw [readNumber_of_ne hsign, readUnsigned, List.takeWhile_cons_of_neg hdigit] at h
    cases h

theorem isBlank_of_numberHead {c : Char} (h : c = '-' ∨ c.isDigit = true) : isBlank c = false := by
  rw [Bool.eq_false_iff]
  intro hblank
  simp only [isBlank, Bool.or_eq_true, beq_iff_eq] at hblank
  rcases hblank with ((rfl | rfl) | rfl) | rfl <;> exact absurd h (by decide)

theorem beginsValue_of_readNumber {text : List Char} {p : JsonNumber × List Char}
    (h : readNumber text = some p) : BeginsValue text := by
  obtain ⟨c, rest, rfl, hc⟩ := exists_cons_of_readNumber h
  refine ⟨c, rest, rfl, isBlank_of_numberHead hc, ?_⟩
  rintro rfl
  exact absurd hc (by decide)

theorem readValue_of_readNumber {text : List Char} {p : JsonNumber × List Char}
    (h : readNumber text = some p) (fuel : Nat) :
    readValue (fuel + 1) text = some (number p.1, p.2) := by
  obtain ⟨c, rest, rfl, hc⟩ := exists_cons_of_readNumber h
  rw [readValue_succ, skipBlank_cons (isBlank_of_numberHead hc)]
  split <;> simp_all

theorem beginsValue_chars {v : Json} (h : v.WellFormed) : BeginsValue v.chars := by
  cases h with
  | null => exact ⟨'n', _, rfl, by decide, by decide⟩
  | bool b => cases b <;> exact ⟨_, _, rfl, by decide, by decide⟩
  | @number n h =>
    have hread := h [] (by rintro _ ⟨⟩)
    rw [List.append_nil] at hread
    exact beginsValue_of_readNumber hread
  | string s => exact ⟨'"', _, rfl, by decide, by decide⟩
  | array h => exact ⟨'[', _, rfl, by decide, by decide⟩
  | object hkeys h => exact ⟨'\x7b', _, rfl, by decide, by decide⟩

theorem BeginsValue.skipBlank_eq {text : List Char} (h : BeginsValue text) : skipBlank text = text := by
  obtain ⟨c, rest, rfl, hblank, -⟩ := h
  exact skipBlank_cons hblank rest

theorem BeginsValue.ne_close {text : List Char} (h : BeginsValue text) (tail : List Char) :
    text ≠ ']' :: tail := by
  obtain ⟨c, rest, rfl, -, hclose⟩ := h
  exact fun heq => hclose (List.cons.inj heq).1

theorem BeginsValue.append {text : List Char} (h : BeginsValue text) (rest : List Char) :
    BeginsValue (text ++ rest) := by
  obtain ⟨c, text, rfl, hc⟩ := h
  exact ⟨c, text ++ rest, rfl, hc⟩

theorem endsNumber_cons {c : Char} (hc : c = ',' ∨ c = ']' ∨ c = '\x7d') (rest : List Char) :
    EndsNumber (c :: rest) := by
  rintro _ ⟨⟩
  rcases hc with rfl | rfl | rfl <;> decide

theorem readsBack_of_succ {v : Json} (hv : BeginsValue v.chars)
    (h : ∀ fuel rest, 2 * v.chars.length ≤ fuel + 2 → EndsNumber rest →
      readValue (fuel + 1) (v.chars ++ rest) = some (v, rest)) : v.ReadsBack := by
  rintro (_ | fuel) rest hfuel hrest
  · obtain ⟨c, text, htext, -⟩ := hv
    rw [htext, List.length_cons] at hfuel
    omega
  · exact h fuel rest hfuel hrest

section Opened

variable {fuel : Nat} {text rest : List Char}

theorem readValue_quote :
    readValue (fuel + 1) ('"' :: text) = (readString [] text).map fun p => (string p.1, p.2) :=
  rfl

theorem readValue_bracket : readValue (fuel + 1) ('[' :: text) =
    match skipBlank text with
    | ']' :: rest => some (array [], rest)
    | rest => (readItems fuel rest).map fun p => (array p.1, p.2) :=
  rfl

theorem readValue_brace : readValue (fuel + 1) ('\x7b' :: text) =
    match skipBlank text with
    | '\x7d' :: rest => some (object [], rest)
    | rest => (readMembers fuel rest).map fun p => (ofMembers p.1, p.2) :=
  rfl

theorem readValue_array_nil (h : skipBlank text = ']' :: rest) :
    readValue (fuel + 1) ('[' :: text) = some (array [], rest) := by
  simp only [readValue_bracket, h]

theorem readValue_array (h : skipBlank text = rest) (hne : ∀ tail, rest ≠ ']' :: tail) :
    readValue (fuel + 1) ('[' :: text) = (readItems fuel rest).map fun p => (array p.1, p.2) := by
  simp only [readValue_bracket, h]

theorem readValue_object_nil (h : skipBlank text = '\x7d' :: rest) :
    readValue (fuel + 1) ('\x7b' :: text) = some (object [], rest) := by
  simp only [readValue_brace, h]

theorem readValue_object (h : skipBlank text = rest) (hne : ∀ tail, rest ≠ '\x7d' :: tail) :
    readValue (fuel + 1) ('\x7b' :: text) =
      (readMembers fuel rest).map fun p => (ofMembers p.1, p.2) := by
  simp only [readValue_brace, h]

end Opened

theorem beginsValue_itemChars {v : Json} (h : BeginsValue v.chars) (items : List Json) :
    BeginsValue (itemChars (v :: items)) := by
  cases items with
  | nil => exact h
  | cons w items => exact h.append (',' :: itemChars (w :: items))

theorem exists_memberChars_eq_quote (m : String × Json) (members : List (String × Json)) :
    ∃ text, memberChars (m :: members) = '"' :: text := by
  cases members <;> exact ⟨_, rfl⟩

section Lists

theorem readItems_succ (fuel : Nat) (text : List Char) : readItems (fuel + 1) text =
    match readValue fuel text with
    | none => none
    | some (item, rest) =>
      match skipBlank rest with
      | ',' :: rest => (readItems fuel rest).map fun p => (item :: p.1, p.2)
      | ']' :: rest => some ([item], rest)
      | _ => none :=
  rfl

theorem readMembers_succ (fuel : Nat) (text : List Char) : readMembers (fuel + 1) text =
    match skipBlank text with
    | '"' :: rest =>
      match readString [] rest with
      | none => none
      | some (key, rest) =>
        match skipBlank rest with
        | ':' :: rest =>
          match readValue fuel rest with
          | none => none
          | some (value, rest) =>
            match skipBlank rest with
            | ',' :: rest => (readMembers fuel rest).map fun p => ((key, value) :: p.1, p.2)
            | '\x7d' :: rest => some ([(key, value)], rest)
            | _ => none
        | _ => none
    | _ => none :=
  rfl

variable {fuel : Nat} {text rest : List Char} {v : Json}

theorem readItems_last {tail : List Char} (hvalue : readValue fuel text = some (v, tail))
    (hclose : skipBlank tail = ']' :: rest) : readItems (fuel + 1) text = some ([v], rest) := by
  simp only [readItems_succ, hvalue, hclose]

theorem readItems_cons {tail more : List Char} {items : List Json}
    (hvalue : readValue fuel text = some (v, tail)) (hcomma : skipBlank tail = ',' :: more)
    (hitems : readItems fuel more = some (items, rest)) :
    readItems (fuel + 1) text = some (v :: items, rest) := by
  simp only [readItems_succ, hvalue, hcomma, hitems, Option.map_some]

section Members

variable {atKey behindKey atValue tail : List Char} {key : String}

variable (hquote : skipBlank text = '"' :: atKey) (hkey : readString [] atKey = some (key, behindKey))
  (hcolon : skipBlank behindKey = ':' :: atValue) (hvalue : readValue fuel atValue = some (v, tail))

include hquote hkey hcolon hvalue

theorem readMembers_last (hclose : skipBlank tail = '\x7d' :: rest) :
    readMembers (fuel + 1) text = some ([(key, v)], rest) := by
  simp only [readMembers_succ, hquote, hkey, hcolon, hvalue, hclose]

theorem readMembers_cons {more : List Char} {members : List (String × Json)}
    (hcomma : skipBlank tail = ',' :: more) (hmembers : readMembers fuel more = some (members, rest)) :
    readMembers (fuel + 1) text = some ((key, v) :: members, rest) := by
  simp only [readMembers_succ, hquote, hkey, hcolon, hvalue, hcomma, hmembers, Option.map_some]

end Members

end Lists

theorem readItems_itemChars {items : List Json} (hne : items ≠ [])
    (hitems : ∀ v ∈ items, v.ReadsBack) {fuel : Nat}
    (hfuel : 2 * (itemChars items).length < fuel) (rest : List Char) :
    readItems fuel (itemChars items ++ ']' :: rest) = some (items, rest) := by
  induction items generalizing fuel with
  | nil => exact absurd rfl hne
  | cons v items ih =>
    obtain ⟨hv, hitems⟩ := List.forall_mem_cons.mp hitems
    obtain _ | fuel := fuel
    · omega
    cases items with
    | nil =>
      rw [itemChars] at hfuel
      have hread := hv fuel (']' :: rest) (by omega) (endsNumber_cons (by simp) rest)
      exact readItems_last hread (skipBlank_cons (by decide) rest)
    | cons w items =>
      have hchars : itemChars (v :: w :: items) = v.chars ++ ',' :: itemChars (w :: items) := rfl
      rw [hchars, List.length_append, List.length_cons] at hfuel
      rw [hchars, List.append_assoc, List.cons_append]
      have hread := hv fuel (',' :: (itemChars (w :: items) ++ ']' :: rest)) (by omega)
        (endsNumber_cons (by simp) _)
      exact readItems_cons hread (skipBlank_cons (by decide) _)
        (ih (List.cons_ne_nil w items) hitems (by omega))

theorem readMembers_memberChars {members : List (String × Json)} (hne : members ≠ [])
    (hmembers : ∀ m ∈ members, m.2.ReadsBack) {fuel : Nat}
    (hfuel : 2 * (memberChars members).length < fuel) (rest : List Char) :
    readMembers fuel (memberChars members ++ '\x7d' :: rest) = some (members, rest) := by
  induction members generalizing fuel with
  | nil => exact absurd rfl hne
  | cons m members ih =>
    obtain ⟨key, v⟩ := m
    have hv : v.ReadsBack := hmembers (key, v) List.mem_cons_self
    obtain _ | fuel := fuel
    · omega
    cases members with
    | nil =>
      have hchars : memberChars [(key, v)] ++ '\x7d' :: rest =
          '"' :: (key.toList.flatMap escapeChar ++ '"' :: ':' :: (v.chars ++ '\x7d' :: rest)) := by
        simp [memberChars, quote]
      have hread := hv fuel ('\x7d' :: rest) (by simp [memberChars] at hfuel; omega)
        (endsNumber_cons (by simp) rest)
      rw [hchars]
      exact readMembers_last (skipBlank_cons (by decide) _) (readString_quote key _)
        (skipBlank_cons (by decide) _) hread (skipBlank_cons (by decide) rest)
    | cons m members =>
      have hchars : memberChars ((key, v) :: m :: members) ++ '\x7d' :: rest =
          '"' :: (key.toList.flatMap escapeChar ++ '"' :: ':' :: (v.chars ++
            ',' :: (memberChars (m :: members) ++ '\x7d' :: rest))) := by
        simp [memberChars, quote]
      have hlength : (memberChars ((key, v) :: m :: members)).length =
          (quote key).length + v.chars.length + (memberChars (m :: members)).length + 2 := by
        simp [memberChars]
        omega
      have hread := hv fuel (',' :: (memberChars (m :: members) ++ '\x7d' :: rest)) (by omega)
        (endsNumber_cons (by simp) _)
      rw [hchars]
      exact readMembers_cons (skipBlank_cons (by decide) _) (readString_quote key _)
        (skipBlank_cons (by decide) _) hread (skipBlank_cons (by decide) _)
        (ih (List.cons_ne_nil m members) (List.forall_mem_cons.mp hmembers).2 (by omega))

theorem chars_string_append (s : String) (rest : List Char) :
    (string s).chars ++ rest = '"' :: (s.toList.flatMap escapeChar ++ '"' :: rest) := by
  simp [chars, quote]

theorem chars_array_append (items : List Json) (rest : List Char) :
    (array items).chars ++ rest = '[' :: (itemChars items ++ ']' :: rest) := by
  simp [chars]

theorem chars_object_append (members : List (String × Json)) (rest : List Char) :
    (object members).chars ++ rest = '\x7b' :: (memberChars members ++ '\x7d' :: rest) := by
  simp [chars]

theorem WellFormed.readsBack {v : Json} (h : v.WellFormed) : v.ReadsBack := by
  induction h with
  | null => exact readsBack_of_succ (beginsValue_chars .null) fun _ _ _ _ => rfl
  | bool b =>
    refine readsBack_of_succ (beginsValue_chars (.bool b)) fun _ _ _ _ => ?_
    cases b <;> rfl
  | @number n h =>
    refine readsBack_of_succ (beginsValue_chars (.number h)) fun fuel rest _ hrest => ?_
    rw [chars, readValue_of_readNumber (h rest hrest)]
  | string s =>
    refine readsBack_of_succ (beginsValue_chars (.string s)) fun fuel rest _ _ => ?_
    rw [chars_string_append, readValue_quote, readString_quote, Option.map_some]
  | @array items h ih =>
    refine readsBack_of_succ (beginsValue_chars (.array h)) fun fuel rest hfuel _ => ?_
    have hlength : (Json.array items).chars.length = (itemChars items).length + 2 := by
      simp [chars]
    rw [chars_array_append]
    cases items with
    | nil => rfl
    | cons v items =>
      have hbegins := (beginsValue_itemChars (beginsValue_chars (h v List.mem_cons_self)) items).append
        (']' :: rest)
      rw [readValue_array hbegins.skipBlank_eq hbegins.ne_close,
        readItems_itemChars (List.cons_ne_nil v items) ih (by omega)]
      rfl
  | @object members hkeys h ih =>
    refine readsBack_of_succ (beginsValue_chars (.object hkeys h)) fun fuel rest hfuel _ => ?_
    have hlength : (Json.object members).chars.length = (memberChars members).length + 2 := by
      simp [chars]
    rw [chars_object_append]
    cases members with
    | nil => rfl
    | cons m members =>
      have hread : readMembers fuel (memberChars (m :: members) ++ '\x7d' :: rest) =
          some (m :: members, rest) :=
        readMembers_memberChars (List.cons_ne_nil m members) ih (by omega) rest
      obtain ⟨text, htext⟩ := exists_memberChars_eq_quote m members
      rw [htext, List.cons_append] at hread ⊢
      rw [readValue_object (skipBlank_cons (by decide) _) (by simp), hread, Option.map_some,
        ofMembers_of_pairwise hkeys]

/-- A well-formed value is the one that its text is read as. -/
theorem parse?_render {v : Json} (h : v.WellFormed) : parse? v.render = some v := by
  have hread := h.readsBack (2 * v.chars.length + 1) [] (by omega) (by rintro _ ⟨⟩)
  rw [List.append_nil] at hread
  simp [parse?, render, hread, skipBlank]

end Json

end SparqlBind
