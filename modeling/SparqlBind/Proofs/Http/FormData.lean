import Mathlib.Data.List.Forall2
import SparqlBind.Http.Url

/-!
# Reading back what was written

The UTF-8 form of a text is read back to it, and so are pairs of names and values written as form
data. Writers differ in which bytes they escape; the reader undoes any of them, since only four bytes
have a meaning of their own.
-/

namespace SparqlBind

namespace Utf8

theorem toList_loop (bytes : ByteArray) (i : Nat) (read : List UInt8) :
    ByteArray.toList.loop bytes i read = read.reverse ++ bytes.data.toList.drop i := by
  induction i, read using ByteArray.toList.loop.induct bytes with
  | case1 i read h ih =>
    have hi : i < bytes.data.toList.length := by simpa using h
    have hget : bytes.get! i = bytes.data.toList[i] := by
      simp only [ByteArray.get!, Array.getElem_toList]
      exact getElem!_pos bytes.data i (by simpa using h)
    rw [ByteArray.toList.loop, if_pos h, ih, List.drop_eq_getElem_cons hi, hget]
    simp
  | case2 i read h =>
    have hi : bytes.data.toList.length ≤ i := by simpa using h
    rw [ByteArray.toList.loop, if_neg h, List.drop_eq_nil_of_le hi, List.append_nil]

theorem encode_eq (s : String) : encode s = s.toByteArray.data.toList := by
  change ByteArray.toList.loop s.toByteArray 0 [] = _
  rw [toList_loop]
  rfl

theorem encode_ofList (cs : List Char) :
    encode (String.ofList cs) = cs.flatMap String.utf8EncodeChar := by
  rw [encode_eq, String.toByteArray_ofList]
  exact List.toList_data_toByteArray

@[simp] theorem encode_empty : encode "" = [] := encode_ofList []

theorem encode_append (s t : String) : encode (s ++ t) = encode s ++ encode t := by
  simp [encode_eq]

theorem encode_intercalate (separator : String) (texts : List String) :
    encode (separator.intercalate texts) = (encode separator).intercalate (texts.map encode) := by
  induction texts with
  | nil => exact encode_empty
  | cons first rest ih =>
    cases rest with
    | nil => simp
    | cons second rest =>
      rw [String.intercalate_cons_cons, encode_append, encode_append, ih]
      simp only [List.map_cons, List.intercalate_cons_cons]

@[simp] theorem decode?_encode (s : String) : decode? (encode s) = some s := by
  have hbytes : (encode s).toByteArray = s.toByteArray := by
    rw [encode_eq]
    exact ByteArray.ext (by rw [List.data_toByteArray, Array.toArray_toList])
  unfold decode? String.fromUTF8?
  rw [hbytes, dif_pos s.isValidUTF8]
  rfl

/-- The bytes that have a text are those of the text. -/
theorem decode?_eq_some_iff {bytes : List UInt8} {s : String} :
    decode? bytes = some s ↔ encode s = bytes := by
  constructor
  · intro h
    unfold decode? String.fromUTF8? at h
    split at h
    · obtain rfl := Option.some.inj h
      rw [encode_eq]
      change bytes.toByteArray.data.toList = bytes
      rw [List.data_toByteArray]
    · cases h
  · rintro rfl
    exact decode?_encode s

@[simp] theorem decodeLossy_encode (s : String) : decodeLossy (encode s) = s := by
  unfold decodeLossy
  rw [decode?_encode]

end Utf8

namespace FormData

/-- The bytes that stand for something else: `%`, `+`, `&` and `=`. -/
def signs : List UInt8 := [percent, 43, 38, equalsSign]

/-- A name or a value and a way to write its bytes. -/
inductive Written : List UInt8 → List UInt8 → Prop
  | nil : Written [] []
  | plain {b : UInt8} {written bytes : List UInt8} (hb : b ∉ signs) (h : Written written bytes) :
    Written (b :: written) (b :: bytes)
  | blank {written bytes : List UInt8} (h : Written written bytes) :
    Written (43 :: written) (32 :: bytes)
  | escaped {high low b : UInt8} {written bytes : List UInt8} (hb : pairValue? high low = some b)
    (h : Written written bytes) : Written (percent :: high :: low :: written) (b :: bytes)

theorem digits_of_pairValue? {high low b : UInt8} (h : pairValue? high low = some b) :
    high ∉ signs ∧ low ∉ signs := by
  have hsigns : ∀ sign ∈ signs, hexValue? sign = none := by
    intro sign hsign
    simp only [signs, List.mem_cons, List.not_mem_nil, or_false] at hsign
    rcases hsign with rfl | rfl | rfl | rfl <;> rfl
  obtain ⟨_, hhigh, h⟩ := Option.bind_eq_some_iff.mp h
  obtain ⟨_, hlow, _⟩ := Option.bind_eq_some_iff.mp h
  constructor <;> intro hmem
  · cases (hsigns high hmem).symm.trans hhigh
  · cases (hsigns low hmem).symm.trans hlow

theorem plusToBlank_of_not_sign {b : UInt8} (h : b ∉ signs) : plusToBlank b = b := by
  refine if_neg ?_
  rintro rfl
  exact h (by decide)

theorem percentDecodeFrom_plain {b : UInt8} (h : b ≠ percent) (read rest : List UInt8) :
    percentDecodeFrom read (b :: rest) = percentDecodeFrom (b :: read) rest := by
  rcases rest with _ | ⟨_, _ | ⟨_, _⟩⟩ <;> simp only [percentDecodeFrom, if_neg h]

theorem percentDecodeFrom_escaped {high low b : UInt8} (h : pairValue? high low = some b)
    (read rest : List UInt8) :
    percentDecodeFrom read (percent :: high :: low :: rest) = percentDecodeFrom (b :: read) rest := by
  simp only [percentDecodeFrom, if_true, h]

theorem Written.percentDecodeFrom_eq {written bytes : List UInt8} (h : Written written bytes)
    (read : List UInt8) :
    percentDecodeFrom read (written.map plusToBlank) = read.reverse ++ bytes := by
  induction h generalizing read with
  | nil => simp [percentDecodeFrom]
  | @plain b _ _ hb _ ih =>
    have hpercent : b ≠ percent := fun h => hb (by simp [signs, h])
    rw [List.map_cons, plusToBlank_of_not_sign hb, percentDecodeFrom_plain hpercent, ih]
    simp
  | blank _ ih =>
    have hblank : plusToBlank 43 = 32 := by decide
    rw [List.map_cons, hblank, percentDecodeFrom_plain (by decide), ih]
    simp
  | escaped hb _ ih =>
    obtain ⟨hhigh, hlow⟩ := digits_of_pairValue? hb
    have hpercent : plusToBlank percent = percent := by decide
    rw [List.map_cons, List.map_cons, List.map_cons, hpercent, plusToBlank_of_not_sign hhigh,
      plusToBlank_of_not_sign hlow, percentDecodeFrom_escaped hb, ih]
    simp

/-- The sign between pairs and the one between a name and its value are escaped. -/
theorem Written.not_mem {written bytes : List UInt8} (h : Written written bytes) {sign : UInt8}
    (hsign : sign = 38 ∨ sign = equalsSign) : sign ∉ written := by
  have hsigns : sign ∈ signs ∧ sign ≠ 43 ∧ sign ≠ percent := by
    rcases hsign with rfl | rfl <;> decide
  have hother : ∀ b ∉ signs, sign ≠ b := fun b hb h => hb (h ▸ hsigns.1)
  induction h with
  | nil => exact List.not_mem_nil
  | plain hb _ ih => exact List.not_mem_cons_of_ne_of_not_mem (hother _ hb) ih
  | blank _ ih => exact List.not_mem_cons_of_ne_of_not_mem hsigns.2.1 ih
  | escaped hb _ ih =>
    obtain ⟨hhigh, hlow⟩ := digits_of_pairValue? hb
    exact List.not_mem_cons_of_ne_of_not_mem hsigns.2.2
      (List.not_mem_cons_of_ne_of_not_mem (hother _ hhigh)
        (List.not_mem_cons_of_ne_of_not_mem (hother _ hlow) ih))

theorem Written.decode {written : List UInt8} {s : String} (h : Written written (Utf8.encode s)) :
    FormData.decode written = s := by
  unfold FormData.decode percentDecode
  rw [h.percentDecodeFrom_eq]
  exact Utf8.decodeLossy_encode s

/-- A name and its value with a way to write them. -/
def WrittenPair (part : List UInt8) (pair : String × String) : Prop :=
  ∃ name value, Written name (Utf8.encode pair.1) ∧ Written value (Utf8.encode pair.2) ∧
    part = name ++ equalsSign :: value

/-- The bytes are form data with these pairs. -/
def Encodes (bytes : List UInt8) (pairs : List (String × String)) : Prop :=
  ∃ parts, List.Forall₂ WrittenPair parts pairs ∧ bytes = [38].intercalate parts

theorem WrittenPair.parsePair {part : List UInt8} {pair : String × String}
    (h : WrittenPair part pair) : FormData.parsePair part = pair := by
  obtain ⟨name, value, hname, hvalue, rfl⟩ := h
  have hbefore : ∀ b ∈ name, (b != equalsSign) = true := by
    intro b hb
    exact bne_iff_ne.mpr fun h => hname.not_mem (.inr rfl) (h ▸ hb)
  unfold FormData.parsePair
  rw [List.takeWhile_append_of_pos hbefore, List.dropWhile_append_of_pos hbefore]
  simp [hname.decode, hvalue.decode]

theorem splitOn_cons_of_ne {separator b : UInt8} (h : b ≠ separator) {bytes part : List UInt8}
    {parts : List (List UInt8)} (hparts : splitOn separator bytes = part :: parts) :
    splitOn separator (b :: bytes) = (b :: part) :: parts := by
  unfold splitOn at hparts ⊢
  rw [List.foldr_cons, hparts, if_neg h]

theorem exists_splitOn_eq_cons (separator : UInt8) (bytes : List UInt8) :
    ∃ part parts, splitOn separator bytes = part :: parts := by
  induction bytes with
  | nil => exact ⟨[], [], rfl⟩
  | cons b rest ih =>
    obtain ⟨part, parts, hrest⟩ := ih
    by_cases hb : b = separator
    · refine ⟨[], splitOn separator rest, ?_⟩
      unfold splitOn
      rw [List.foldr_cons, if_pos hb]
    · exact ⟨b :: part, parts, splitOn_cons_of_ne hb hrest⟩

/-- A separator ends a part, whatever comes before and after it. -/
theorem splitOn_append_cons (separator : UInt8) (before after : List UInt8) :
    splitOn separator (before ++ separator :: after) =
      splitOn separator before ++ splitOn separator after := by
  induction before with
  | nil =>
    unfold splitOn
    rw [List.nil_append, List.foldr_cons, if_pos rfl]
    rfl
  | cons b before ih =>
    by_cases hb : b = separator
    · unfold splitOn at ih ⊢
      rw [List.cons_append, List.foldr_cons, List.foldr_cons, if_pos hb, if_pos hb, ih]
      rfl
    · obtain ⟨part, parts, hparts⟩ := exists_splitOn_eq_cons separator before
      rw [hparts, List.cons_append] at ih
      rw [List.cons_append, splitOn_cons_of_ne hb ih, splitOn_cons_of_ne hb hparts, List.cons_append]

theorem splitOn_of_not_mem {separator : UInt8} {part : List UInt8} (h : separator ∉ part) :
    splitOn separator part = [part] := by
  induction part with
  | nil => rfl
  | cons b part ih =>
    obtain ⟨hb, hpart⟩ := List.ne_and_not_mem_of_not_mem_cons h
    exact splitOn_cons_of_ne hb.symm (ih hpart)

theorem splitOn_append {separator : UInt8} {part : List UInt8} (h : separator ∉ part)
    (rest : List UInt8) :
    splitOn separator (part ++ separator :: rest) = part :: splitOn separator rest := by
  rw [splitOn_append_cons, splitOn_of_not_mem h, List.singleton_append]

theorem splitOn_intercalate {separator : UInt8} {part : List UInt8} {parts : List (List UInt8)}
    (h : ∀ p ∈ part :: parts, separator ∉ p) :
    splitOn separator ([separator].intercalate (part :: parts)) = part :: parts := by
  induction parts generalizing part with
  | nil =>
    rw [List.intercalate_singleton]
    exact splitOn_of_not_mem (h part List.mem_cons_self)
  | cons next parts ih =>
    rw [List.intercalate_cons_cons, List.append_assoc, List.singleton_append,
      splitOn_append (h part List.mem_cons_self), ih fun p hp => h p (List.mem_cons_of_mem _ hp)]

theorem parse_append (before after : List UInt8) :
    parse (before ++ 38 :: after) = parse before ++ parse after := by
  unfold parse
  rw [splitOn_append_cons, List.filter_append, List.map_append]

/-- A field is found before anything that comes after it. -/
theorem field?_append {name value : String} {before : List UInt8} (h : field? name before = some value)
    (after : List UInt8) : field? name (before ++ 38 :: after) = some value := by
  unfold field? at h ⊢
  rw [parse_append, List.lookup_append, h]
  rfl

theorem WrittenPair.not_mem {part : List UInt8} {pair : String × String}
    (h : WrittenPair part pair) : 38 ∉ part := by
  obtain ⟨name, value, hname, hvalue, rfl⟩ := h
  simp only [List.mem_append, List.mem_cons, not_or]
  exact ⟨hname.not_mem (.inl rfl), by decide, hvalue.not_mem (.inl rfl)⟩

theorem not_mem_parts {parts : List (List UInt8)} {pairs : List (String × String)}
    (h : List.Forall₂ WrittenPair parts pairs) : ∀ part ∈ parts, 38 ∉ part := by
  induction h with
  | nil => exact nofun
  | cons hpart _ ih => exact List.forall_mem_cons.mpr ⟨hpart.not_mem, ih⟩

/-- Form data is read back to its pairs. -/
theorem Encodes.parse_eq {bytes : List UInt8} {pairs : List (String × String)}
    (h : Encodes bytes pairs) : parse bytes = pairs := by
  obtain ⟨parts, hparts, rfl⟩ := h
  have hread : (parts.filter fun part => !part.isEmpty).map parsePair = pairs := by
    induction hparts with
    | nil => rfl
    | @cons part _ _ _ hpart _ ih =>
      have hfull : (!part.isEmpty) = true := by
        obtain ⟨name, value, _, _, rfl⟩ := hpart
        simp
      rw [List.filter_cons, if_pos hfull, List.map_cons, ih, hpart.parsePair]
  cases hparts with
  | nil => rfl
  | @cons part _ parts _ hpart hrest =>
    unfold parse
    rw [splitOn_intercalate (not_mem_parts (.cons hpart hrest))]
    exact hread

theorem Encodes.field?_eq {bytes : List UInt8} {pairs : List (String × String)}
    (h : Encodes bytes pairs) (name : String) : field? name bytes = pairs.lookup name := by
  unfold field?
  rw [h.parse_eq]

/-! ## Writing -/

/-- The byte of a digit. -/
def digitByte (n : Nat) : UInt8 := UInt8.ofNat (upperHexDigit n).toNat

theorem digitByte_spec : ∀ n < 16, String.utf8EncodeChar (upperHexDigit n) = [digitByte n] ∧
    hexValue? (digitByte n) = some (UInt8.ofNat n) := by
  decide

theorem flatMap_percentByte (b : UInt8) : (percentByte b).flatMap String.utf8EncodeChar =
    [percent, digitByte (b.toNat / 16), digitByte (b.toNat % 16)] := by
  have hbyte := b.toNat_lt
  have hpercent : String.utf8EncodeChar '%' = [percent] := by decide
  simp only [percentByte, List.flatMap_cons, List.flatMap_nil, hpercent,
    (digitByte_spec (b.toNat / 16) (by omega)).1, (digitByte_spec (b.toNat % 16) (by omega)).1,
    List.append_nil, List.singleton_append]

theorem pairValue?_digitByte (b : UInt8) :
    pairValue? (digitByte (b.toNat / 16)) (digitByte (b.toNat % 16)) = some b := by
  have hbyte := b.toNat_lt
  have hvalue : 16 * UInt8.ofNat (b.toNat / 16) + UInt8.ofNat (b.toNat % 16) = b := by
    apply UInt8.toNat.inj
    simp
    omega
  unfold pairValue?
  rw [(digitByte_spec (b.toNat / 16) (by omega)).2, (digitByte_spec (b.toNat % 16) (by omega)).2]
  exact congrArg some hvalue

theorem bare_spec : ∀ n < 256, isBare (UInt8.ofNat n) →
    String.utf8EncodeChar (Char.ofNat (UInt8.ofNat n).toNat) = [UInt8.ofNat n] ∧
      UInt8.ofNat n ∉ signs := by
  decide +kernel

theorem written_encodeByte (b : UInt8) {written bytes : List UInt8} (h : Written written bytes) :
    Written ((encodeByte b).flatMap String.utf8EncodeChar ++ written) (b :: bytes) := by
  unfold encodeByte
  split
  next hb =>
    have hplus : ['+'].flatMap String.utf8EncodeChar = [43] := by decide
    rw [hb, hplus]
    exact .blank h
  next =>
    split
    next hbare =>
      have hspec := bare_spec b.toNat b.toNat_lt
      rw [UInt8.ofNat_toNat] at hspec
      rw [List.flatMap_singleton, (hspec hbare).1]
      exact .plain (hspec hbare).2 h
    next =>
      rw [flatMap_percentByte]
      exact .escaped (pairValue?_digitByte b) h

theorem written_encode (s : String) : Written (Utf8.encode (encode s)) (Utf8.encode s) := by
  have hbytes : ∀ bytes : List UInt8,
      Written ((bytes.flatMap encodeByte).flatMap String.utf8EncodeChar) bytes := by
    intro bytes
    induction bytes with
    | nil => exact .nil
    | cons b bytes ih =>
      rw [List.flatMap_cons, List.flatMap_append]
      exact written_encodeByte b ih
  unfold encode
  rw [Utf8.encode_ofList]
  exact hbytes _

theorem writtenPair_encodePair (pair : String × String) :
    WrittenPair (Utf8.encode (encodePair pair)) pair := by
  refine ⟨_, _, written_encode pair.1, written_encode pair.2, ?_⟩
  have hequals : Utf8.encode "=" = [equalsSign] := Utf8.encode_ofList ['=']
  unfold encodePair
  rw [Utf8.encode_append, Utf8.encode_append, hequals, List.append_assoc, List.singleton_append]

theorem encode_append (s t : String) : encode (s ++ t) = encode s ++ encode t := by
  unfold encode
  rw [Utf8.encode_append, List.flatMap_append, String.ofList_append]

/-- Form data goes on where a value at its end goes on. -/
theorem encode_render_append (pair : String × String) (name value more : String) :
    Utf8.encode (render [pair, (name, value ++ more)]) =
      Utf8.encode (render [pair, (name, value)]) ++ Utf8.encode (encode more) := by
  have hpair : encodePair (name, value ++ more) = encodePair (name, value) ++ encode more := by
    unfold encodePair
    rw [encode_append, String.append_assoc, String.append_assoc, String.append_assoc]
  unfold render
  rw [List.map_cons, List.map_cons, List.map_nil, String.intercalate_cons_cons,
    String.intercalate_singleton, List.map_cons, List.map_cons, List.map_nil,
    String.intercalate_cons_cons, String.intercalate_singleton, hpair, ← String.append_assoc,
    Utf8.encode_append]

/-- What is rendered is form data. -/
theorem encodes_render (pairs : List (String × String)) :
    Encodes (Utf8.encode (render pairs)) pairs := by
  refine ⟨pairs.map fun pair => Utf8.encode (encodePair pair), ?_, ?_⟩
  · rw [List.forall₂_map_left_iff, List.forall₂_same]
    exact fun pair _ => writtenPair_encodePair pair
  · have hampersand : Utf8.encode "&" = [38] := Utf8.encode_ofList ['&']
    unfold render
    rw [Utf8.encode_intercalate, hampersand, List.map_map]
    rfl

end FormData

end SparqlBind
