import SparqlBind.Text.Regex.Basic

/-!
# Reading regular expressions

The text form of regular expressions: alternatives, repetitions, groups with and without names,
classes with ranges and nested classes, escapes, and flags for case, lines, dots, greed and blanks.
Look-around and back references are refused.
-/

namespace SparqlBind

structure RegexFlags where
  ignoreCase : Bool
  multiLine : Bool
  dotAll : Bool
  swapGreed : Bool
  extended : Bool

namespace RegexReader

/-- What has been read: how many groups were opened, and the names of some. -/
structure Groups where
  count : Nat
  names : List (String × Nat)

def literal (flags : RegexFlags) (c : Char) : Regex := .set flags.ignoreCase false [.range c c]

def dot (flags : RegexFlags) : Regex :=
  .set false true (if flags.dotAll then [] else [.range '\n' '\n'])

def hexValue? (c : Char) : Option Nat :=
  if c.isDigit then some (c.toNat - 48)
  else if 'a' ≤ c && c ≤ 'f' then some (c.toNat - 87)
  else if 'A' ≤ c && c ≤ 'F' then some (c.toNat - 55)
  else none

def hexChar? (digits : List Char) : Option Char := do
  if digits.isEmpty then none
  let n ← digits.foldlM (fun n c => (hexValue? c).map (16 * n + ·)) 0
  if n < 0xD800 || (0xDFFF < n && n < 0x110000) then some (Char.ofNat n) else none

/-- Characters that may be escaped to stand for themselves. -/
def isPunctuation (c : Char) : Bool :=
  c.toNat < 128 && !c.isAlphanum && c != '<' && c != '>' && 32 ≤ c.toNat && c.toNat ≠ 127

/-- Reads the digits of an escape by code point, in braces or of a fixed number. -/
def hexEscape? (width : Nat) : List Char → Option (Char × List Char)
  | '\x7b' :: rest =>
    match rest.dropWhile (· != '\x7d') with
    | _ :: after => (hexChar? (rest.takeWhile (· != '\x7d'))).map (·, after)
    | [] => none
  | rest =>
    if rest.length < width then none
    else (hexChar? (rest.take width)).map (·, rest.drop width)

inductive Escape
  | char (c : Char)
  | item (item : ClassItem)

/-- The escapes that mean the same inside and outside of classes. -/
def escape? : List Char → Option (Escape × List Char)
  | 'd' :: rest => some (.item (.digit false), rest)
  | 'D' :: rest => some (.item (.digit true), rest)
  | 'w' :: rest => some (.item (.word false), rest)
  | 'W' :: rest => some (.item (.word true), rest)
  | 's' :: rest => some (.item (.space false), rest)
  | 'S' :: rest => some (.item (.space true), rest)
  | 'n' :: rest => some (.char '\n', rest)
  | 'r' :: rest => some (.char '\r', rest)
  | 't' :: rest => some (.char '\t', rest)
  | 'f' :: rest => some (.char '\x0c', rest)
  | 'v' :: rest => some (.char '\x0b', rest)
  | 'a' :: rest => some (.char '\x07', rest)
  | 'x' :: rest => (hexEscape? 2 rest).map fun p => (.char p.1, p.2)
  | 'u' :: rest => (hexEscape? 4 rest).map fun p => (.char p.1, p.2)
  | 'U' :: rest => (hexEscape? 8 rest).map fun p => (.char p.1, p.2)
  | c :: rest => if isPunctuation c then some (.char c, rest) else none
  | [] => none

def letters : List ClassItem := [.range 'a' 'z', .range 'A' 'Z']

def namedClasses : List (String × List ClassItem) :=
  [("alnum", .range '0' '9' :: letters), ("alpha", letters), ("ascii", [.range '\x00' '\x7f']),
    ("blank", [.range ' ' ' ', .range '\t' '\t']),
    ("cntrl", [.range '\x00' '\x1f', .range '\x7f' '\x7f']), ("digit", [.range '0' '9']),
    ("graph", [.range '!' '~']), ("lower", [.range 'a' 'z']), ("print", [.range ' ' '~']),
    ("punct", [.range '!' '/', .range ':' '@', .range '[' '\x60', .range '\x7b' '~']),
    ("space", [.range '\t' '\r', .range ' ' ' ']), ("upper", [.range 'A' 'Z']),
    ("word", .range '0' '9' :: .range '_' '_' :: letters),
    ("xdigit", [.range '0' '9', .range 'a' 'f', .range 'A' 'F'])]

/-- A class by name, as in `[:alpha:]`. -/
def namedClass? (text : List Char) : Option (ClassItem × List Char) :=
  let (negated, body) := match text with
    | '^' :: rest => (true, rest)
    | rest => (false, rest)
  let name := body.takeWhile Char.isAlpha
  match body.dropWhile Char.isAlpha with
  | ':' :: ']' :: rest =>
    (namedClasses.lookup (String.ofList name)).map fun items => (.nested negated items, rest)
  | _ => none

/-- One character of a class, or an escape that stands for several. -/
def classAtom? : List Char → Option (Escape × List Char)
  | '\\' :: rest => escape? rest
  | c :: rest => some (.char c, rest)
  | [] => none

mutual

/-- Reads the items of a class up to its end; a bracket that comes first stands for itself. -/
def classItems (fuel : Nat) (first : Bool) (text : List Char) :
    Option (List ClassItem × List Char) :=
  match fuel with
  | 0 => none
  | fuel + 1 =>
    match text with
    | [] => none
    | ']' :: rest =>
      if first then classRest fuel ']' rest else some ([], rest)
    | '[' :: ':' :: rest =>
      match namedClass? rest with
      | some (item, rest) => (classItems fuel false rest).map fun p => (item :: p.1, p.2)
      | none => none
    | '[' :: rest =>
      match classBody fuel rest with
      | some (item, rest) => (classItems fuel false rest).map fun p => (item :: p.1, p.2)
      | none => none
    | text =>
      match classAtom? text with
      | some (.char c, rest) => classRest fuel c rest
      | some (.item item, rest) => (classItems fuel false rest).map fun p => (item :: p.1, p.2)
      | none => none

/-- Reads what follows a character of a class: the end of a range, or the next items. -/
def classRest (fuel : Nat) (low : Char) (text : List Char) : Option (List ClassItem × List Char) :=
  match fuel with
  | 0 => none
  | fuel + 1 =>
    match text with
    | '-' :: ']' :: rest => some ([.range low low, .range '-' '-'], rest)
    | '-' :: rest =>
      match classAtom? rest with
      | some (.char high, rest) =>
        if high < low then none
        else (classItems fuel false rest).map fun p => (.range low high :: p.1, p.2)
      | _ => none
    | text => (classItems fuel false text).map fun p => (.range low low :: p.1, p.2)

def classBody (fuel : Nat) (text : List Char) : Option (ClassItem × List Char) :=
  match fuel with
  | 0 => none
  | fuel + 1 =>
    match text with
    | '^' :: rest => (classItems fuel true rest).map fun p => (.nested true p.1, p.2)
    | rest => (classItems fuel true rest).map fun p => (.nested false p.1, p.2)

end

/-- The numbers of a counted repetition, after its opening brace. -/
def counts? (text : List Char) : Option (Nat × Option Nat × List Char) :=
  let least := text.takeWhile Char.isDigit
  let number (digits : List Char) : Nat := digits.foldl (fun n d => 10 * n + (d.toNat - 48)) 0
  if least.isEmpty then none
  else
    let n := number least
    match text.dropWhile Char.isDigit with
    | '\x7d' :: rest => some (n, some n, rest)
    | ',' :: rest =>
      let most := rest.takeWhile Char.isDigit
      match rest.dropWhile Char.isDigit with
      | '\x7d' :: rest =>
        if most.isEmpty then some (n, none, rest)
        else if number most < n then none
        else some (n, some (number most), rest)
      | _ => none
    | _ => none

def quantifier? : List Char → Option (Nat × Option Nat × List Char)
  | '*' :: rest => some (0, none, rest)
  | '+' :: rest => some (1, none, rest)
  | '?' :: rest => some (0, some 1, rest)
  | '\x7b' :: rest => counts? rest
  | _ => none

def startsQuantifier : List Char → Bool
  | c :: _ => c == '*' || c == '+' || c == '?' || c == '\x7b'
  | [] => false

def skipExtended (flags : RegexFlags) (comment : Bool) : List Char → List Char
  | [] => []
  | c :: rest =>
    if !flags.extended then c :: rest
    else if comment then skipExtended flags (c != '\n') rest
    else if c == '#' then skipExtended flags true rest
    else if CharClass.isSpace c then skipExtended flags false rest
    else c :: rest

/-- Applies the quantifiers that follow an expression. -/
def quantify (flags : RegexFlags) : Nat → Regex → List Char → Option (Regex × List Char)
  | 0, _, _ => none
  | fuel + 1, r, text =>
    let text := skipExtended flags false text
    if !startsQuantifier text then some (r, text)
    else
      match quantifier? text with
      | none => none
      | some (least, most, rest) =>
        let (lazy, rest) := match rest with
          | '?' :: rest => (true, rest)
          | rest => (false, rest)
        quantify flags fuel (.repetition r least most (lazy == flags.swapGreed)) rest

def setFlag (on : Bool) (flags : RegexFlags) : Char → Option RegexFlags
  | 'i' => some { flags with ignoreCase := on }
  | 'm' => some { flags with multiLine := on }
  | 's' => some { flags with dotAll := on }
  | 'U' => some { flags with swapGreed := on }
  | 'x' => some { flags with extended := on }
  | 'u' => some flags
  | _ => none

/-- Reads the flags of a group, up to the character that ends them. -/
def readFlags (on : Bool) (flags : RegexFlags) : List Char → Option (RegexFlags × Char × List Char)
  | [] => none
  | ')' :: rest => some (flags, ')', rest)
  | ':' :: rest => some (flags, ':', rest)
  | '-' :: rest => if on then readFlags false flags rest else none
  | c :: rest => (setFlag on flags c).bind fun flags => readFlags on flags rest

def isGroupName (name : List Char) : Bool :=
  !name.isEmpty && name.all (fun c => c.isAlphanum || c == '_' || c == '.' || c == '[' || c == ']') &&
    !(name.head?.map Char.isDigit).getD false

def simpleAtom? (flags : RegexFlags) : List Char → Option (Regex × List Char)
  | '.' :: rest => some (dot flags, rest)
  | '^' :: rest => some (if flags.multiLine then .lineStart else .textStart, rest)
  | '$' :: rest => some (if flags.multiLine then .lineEnd else .textEnd, rest)
  | '\\' :: 'b' :: rest => some (.wordBoundary false, rest)
  | '\\' :: 'B' :: rest => some (.wordBoundary true, rest)
  | '\\' :: 'A' :: rest => some (.textStart, rest)
  | '\\' :: 'z' :: rest => some (.textEnd, rest)
  | '\\' :: rest =>
    (escape? rest).map fun
      | (.char c, rest) => (literal flags c, rest)
      | (.item item, rest) => (.set flags.ignoreCase false [item], rest)
  | c :: rest => some (literal flags c, rest)
  | [] => none

mutual

/-- Reads alternatives up to a closing bracket or the end. -/
def alternatives (fuel : Nat) (flags : RegexFlags) (groups : Groups) (text : List Char) :
    Option (Regex × Groups × List Char) :=
  match fuel with
  | 0 => none
  | fuel + 1 =>
    match pieces fuel flags groups .empty text with
    | some (r, groups, '|' :: rest) =>
      (alternatives fuel flags groups rest).map fun p => (.choice r p.1, p.2)
    | other => other

/-- Reads one piece after the other; flags set on the way hold for the rest. -/
def pieces (fuel : Nat) (flags : RegexFlags) (groups : Groups) (read : Regex) (text : List Char) :
    Option (Regex × Groups × List Char) :=
  match fuel with
  | 0 => none
  | fuel + 1 =>
    match skipExtended flags false text with
    | [] => some (read, groups, [])
    | ')' :: rest => some (read, groups, ')' :: rest)
    | '|' :: rest => some (read, groups, '|' :: rest)
    | '(' :: '?' :: 'P' :: '<' :: rest => namedGroup fuel flags groups read rest
    | '(' :: '?' :: '<' :: rest => namedGroup fuel flags groups read rest
    | '(' :: '?' :: rest =>
      match readFlags true flags rest with
      | some (inner, ')', rest) => pieces fuel inner groups read rest
      | some (inner, _, rest) =>
        match alternatives fuel inner groups rest with
        | some (r, groups, ')' :: rest) => more fuel flags groups read r rest
        | _ => none
      | none => none
    | '(' :: rest => capture fuel flags groups read rest
    | '[' :: rest =>
      match classBody fuel rest with
      | some (item, rest) =>
        more fuel flags groups read (.set flags.ignoreCase false [item]) rest
      | none => none
    | text =>
      if startsQuantifier text then none
      else
        match simpleAtom? flags text with
        | some (r, rest) => more fuel flags groups read r rest
        | none => none

def namedGroup (fuel : Nat) (flags : RegexFlags) (groups : Groups) (read : Regex)
    (text : List Char) : Option (Regex × Groups × List Char) :=
  match fuel with
  | 0 => none
  | fuel + 1 =>
    let name := text.takeWhile (· != '>')
    match text.dropWhile (· != '>') with
    | _ :: rest =>
      if !isGroupName name || (groups.names.lookup (String.ofList name)).isSome then none
      else
        capture fuel flags
          { groups with names := (String.ofList name, groups.count + 1) :: groups.names } read rest
    | [] => none

def capture (fuel : Nat) (flags : RegexFlags) (groups : Groups) (read : Regex) (text : List Char) :
    Option (Regex × Groups × List Char) :=
  match fuel with
  | 0 => none
  | fuel + 1 =>
    let index := groups.count + 1
    match alternatives fuel flags { groups with count := index } text with
    | some (r, groups, ')' :: rest) => more fuel flags groups read (.group index r) rest
    | _ => none

/-- Takes the quantifiers of a piece and goes on after it. -/
def more (fuel : Nat) (flags : RegexFlags) (groups : Groups) (read piece : Regex)
    (text : List Char) : Option (Regex × Groups × List Char) :=
  match fuel with
  | 0 => none
  | fuel + 1 =>
    match quantify flags (text.length + 1) piece text with
    | some (r, rest) =>
      let read := match read with
        | .empty => r
        | read => .sequence read r
      pieces fuel flags groups read rest
    | none => none

end

end RegexReader

namespace Regex

/-- Reads an expression, with the names of its groups. -/
def parse? (flags : RegexFlags) (text : String) : Option (Regex × List (String × Nat)) :=
  let chars := text.toList
  match RegexReader.alternatives (8 * chars.length + 8) flags ⟨0, []⟩ chars with
  | some (r, groups, []) => some (r, groups.names)
  | _ => none

/-- The expression that matches a text and nothing else. -/
def ofText (flags : RegexFlags) (text : String) : Regex :=
  text.toList.foldr (fun c r => .sequence (RegexReader.literal flags c) r) .empty

end Regex

end SparqlBind
