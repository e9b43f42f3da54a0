import SparqlBind.Rdf.LanguageTag
import SparqlBind.Text.CaseMap
import SparqlBind.Text.Digest
import SparqlBind.Text.Regex.Reader
import SparqlBind.Xsd.Value

/-!
# Functions of text

Most of them take a plain text or a text in a language and keep the language; a few take the text of
any IRI or literal, and a few a plain text only. Two texts go together when the second has no
language or the language of the first.
-/

namespace SparqlBind.Value

def plain? : Value → Option String
  | string s => some s
  | _ => none

/-- A text with its language, if it has one. -/
def worded? : Value → Option (String × Option String)
  | string s => some (s, none)
  | tagged s l => some (s, some l)
  | _ => none

def ofWorded (text : String) : Option String → Value
  | none => string text
  | some l => tagged text l

/-- The text of an IRI or literal. -/
def text? : Value → Option String
  | iri i => some i.text
  | blank _ => none
  | v => v.toLiteral?.map (·.value)

def language? : Value → Option String
  | iri _ => none
  | blank _ => none
  | tagged _ l => some l
  | _ => some ""

def datatype? (v : Value) : Option Iri := v.toLiteral?.map (·.datatype)

def mapText? (f : String → String) (v : Value) : Option Value :=
  v.worded?.map fun p => ofWorded (f p.1) p.2

/-- The two texts and the language of the first, if they go together. -/
def together? (a b : Value) : Option (List Char × List Char × Option String) := do
  let (s, l) ← a.worded?
  let (t, m) ← b.worded?
  if m = none || l = m then pure (s.toList, t.toList, l) else none

/-- The characters before and after the first place where `part` stands. -/
def splitAtPart (part : List Char) : List Char → Option (List Char × List Char)
  | [] => if part.isEmpty then some ([], []) else none
  | c :: rest =>
    if part.isPrefixOf (c :: rest) then some ([], (c :: rest).drop part.length)
    else (splitAtPart part rest).map fun p => (c :: p.1, p.2)

def contains? (a b : Value) : Option Value := do
  let (s, t, _) ← together? a b
  pure (boolean (splitAtPart t s).isSome)

def startsWith? (a b : Value) : Option Value := do
  let (s, t, _) ← together? a b
  pure (boolean (t.isPrefixOf s))

def endsWith? (a b : Value) : Option Value := do
  let (s, t, _) ← together? a b
  pure (boolean (t.isSuffixOf s))

def before? (a b : Value) : Option Value := do
  let (s, t, l) ← together? a b
  match splitAtPart t s with
  | some (head, _) => pure (ofWorded (String.ofList head) l)
  | none => pure (string "")

def after? (a b : Value) : Option Value := do
  let (s, t, l) ← together? a b
  match splitAtPart t s with
  | some (_, rest) => pure (ofWorded (String.ofList rest) l)
  | none => pure (string "")

/-- All texts put together. The language is kept when all have the same. -/
def concat? : List Value → Option Value
  | [] => some (string "")
  | vs => do
    let parts ← vs.mapM worded?
    let language := (parts.head?.map (·.2)).getD none
    let text := String.join (parts.map (·.1))
    pure (if parts.all (·.2 = language) then ofWorded text language else string text)

/-- Positions count characters from one. -/
def substring? (v start : Value) (length : Option Value) : Option Value := do
  let (s, l) ← v.worded?
  let rest ← match start with
    | integer n => if 1 ≤ n then some (s.toList.drop (n.toNat - 1)) else none
    | _ => none
  match length with
  | none => pure (ofWorded (String.ofList rest) l)
  | some (integer n) =>
    if 0 ≤ n then pure (ofWorded (String.ofList (rest.take n.toNat)) l) else none
  | some _ => none

def length? (v : Value) : Option Value := v.worded?.map fun p => integer p.1.length

def isUnreserved (c : Nat) : Bool :=
  (48 ≤ c && c ≤ 57) || (65 ≤ c && c ≤ 90) || (97 ≤ c && c ≤ 122) || [45, 95, 46, 126].contains c

def upperHexDigit (n : Nat) : Char := if n < 10 then Char.ofNat (48 + n) else Char.ofNat (55 + n)

def percentByte (isKept : Nat → Bool) (b : Nat) : List Char :=
  if isKept b then [Char.ofNat b] else ['%', upperHexDigit (b / 16), upperHexDigit (b % 16)]

def encodeForUri (s : String) : String :=
  String.ofList ((Digest.bytesOf s).flatMap (percentByte isUnreserved))

def digest? (f : List Nat → List Nat) (v : Value) : Option Value :=
  v.plain?.map fun s => string (Digest.hexText (f (Digest.bytesOf s)))

/-! ## Languages -/

def splitDashes : List Char → List (List Char)
  | [] => [[]]
  | '-' :: rest => [] :: splitDashes rest
  | c :: rest =>
    match splitDashes rest with
    | first :: more => (c :: first) :: more
    | [] => [[c]]

def inLanguageRange (tag range : String) : Bool :=
  if range == "*" then !tag.isEmpty
  else (splitDashes range.toLower.toList).isPrefixOf (splitDashes tag.toLower.toList)

def langMatches? (tag range : Value) : Option Value := do
  pure (boolean (inLanguageRange (← tag.plain?) (← range.plain?)))

def withLanguage? (text tag : Value) : Option Value := do
  let s ← text.plain?
  let l := (← tag.plain?).toLower
  if LanguageTag.isValid l then pure (tagged s l) else none

def withDatatype? (text datatype : Value) : Option Value := do
  match datatype with
  | iri d => pure (ofLiteral (.ofTyped (← text.plain?) d))
  | _ => none

/-! ## Patterns -/

def regexFlag (flags : RegexFlags) : Char → Option RegexFlags
  | 's' => some { flags with dotAll := true }
  | 'm' => some { flags with multiLine := true }
  | 'i' => some { flags with ignoreCase := true }
  | 'x' => some { flags with extended := true }
  | 'q' => some flags
  | _ => none

def regexFlags? (text : String) : Option RegexFlags :=
  text.toList.foldlM regexFlag ⟨false, false, false, false, false⟩

/-- The flag `q` takes the pattern as a text. -/
def regex? (pattern : String) (flags : String) : Option (Regex × List (String × Nat)) := do
  let options ← regexFlags? flags
  if flags.toList.contains 'q' then
    let kept := if options.extended then pattern.toList.filter (!CharClass.isSpace ·) else pattern.toList
    pure (Regex.ofText options (String.ofList kept), [])
  else Regex.parse? options pattern

def flagText? : Option Value → Option String
  | none => some ""
  | some v => v.plain?

def matches? (text pattern : Value) (flags : Option Value) : Option Value := do
  let (s, _) ← text.worded?
  let (r, _) ← regex? (← pattern.plain?) (← flagText? flags)
  pure (boolean (r.isMatch s))

def replace? (text pattern replacement : Value) (flags : Option Value) : Option Value := do
  let (s, l) ← text.worded?
  let (r, names) ← regex? (← pattern.plain?) (← flagText? flags)
  pure (ofWorded (r.replaceAll names s (← replacement.plain?)) l)

end SparqlBind.Value
