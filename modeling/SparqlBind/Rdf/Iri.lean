import SparqlBind.Rdf.Term

/-!
# IRI syntax

Reads IRI references with the grammar of RFC 3987, says why a text is not one, and resolves a
reference against a base by the rules of RFC 3986. Errors are found from left to right. Percent
encodings are checked and kept; nothing is normalized except the dot segments of a resolved path.
-/

namespace SparqlBind

inductive IriError
  | noScheme
  | codePoint (c : Char)
  | percentEncoding (text : List Char)
  | portCharacter (c : Char)
  | hostCharacter (c : Char)
  | hostAddress
  | doubleSlashPath
deriving DecidableEq, Inhabited

namespace IriError

def message : IriError → String
  | noScheme => "No scheme found in an absolute IRI"
  | codePoint c => "Invalid IRI code point '" ++ c.toString ++ "'"
  | percentEncoding text => "Invalid IRI percent encoding '" ++ String.ofList text ++ "'"
  | portCharacter c => "Invalid character '" ++ c.toString ++ "'"
  | hostCharacter c => "Invalid character '" ++ c.toString ++ "' in host"
  | hostAddress => "Invalid host IP (invalid IPv6 address syntax)"
  | doubleSlashPath =>
    "An IRI path is not allowed to start with // if there is no authority"

end IriError

/-- The five components of an IRI reference, each as written. -/
structure IriReference where
  scheme : Option (List Char)
  authority : Option (List Char)
  path : List Char
  query : Option (List Char)
  fragment : Option (List Char)
deriving DecidableEq, Inhabited

namespace IriReference

def isHex (c : Char) : Bool :=
  c.isDigit || ('a' ≤ c && c ≤ 'f') || ('A' ≤ c && c ≤ 'F')

/-- Characters outside ASCII that may stand anywhere in an IRI. -/
def isUcs (c : Char) : Bool :=
  let n := c.toNat
  (0xA0 ≤ n && n ≤ 0xD7FF) || (0xF900 ≤ n && n ≤ 0xFDCF) || (0xFDF0 ≤ n && n ≤ 0xFFEF) ||
    (0x10000 ≤ n && n ≤ 0xEFFFD && n % 0x10000 ≤ 0xFFFD && !(0xE0000 ≤ n && n < 0xE1000))

/-- Private use characters, which only a query may hold. -/
def isPrivate (c : Char) : Bool :=
  let n := c.toNat
  (0xE000 ≤ n && n ≤ 0xF8FF) || (0xF0000 ≤ n && n ≤ 0x10FFFD && n % 0x10000 ≤ 0xFFFD)

/-- Unreserved characters and sub-delimiters. -/
def isRegular (c : Char) : Bool :=
  c.isAlphanum || "-._~!$&'()*+,;=".toList.contains c || isUcs c

def isUserInfoChar (c : Char) : Bool := isRegular c || c == ':'

def isPathChar (c : Char) : Bool := isRegular c || c == ':' || c == '@' || c == '/'

/-- The first segment of a path without scheme and authority holds no colon. -/
def isFirstSegmentChar (c : Char) : Bool := isRegular c || c == '@'

def isFragmentChar (c : Char) : Bool := isPathChar c || c == '?'

def isQueryChar (c : Char) : Bool := isFragmentChar c || isPrivate c

def endsAuthority (c : Char) : Bool := c == '/' || c == '?' || c == '#'

/-- Reads allowed characters and percent encodings up to a character where `stop` holds or the end. -/
def readRun (allowed stop : Char → Bool) : List Char → Except IriError (List Char × List Char)
  | [] => .ok ([], [])
  | c :: rest =>
    if stop c then .ok ([], c :: rest)
    else if allowed c then do
      let (run, rest) ← readRun allowed stop rest
      pure (c :: run, rest)
    else if c == '%' then
      match rest with
      | a :: b :: rest =>
        if isHex a && isHex b then do
          let (run, rest) ← readRun allowed stop rest
          pure (c :: a :: b :: run, rest)
        else .error (.percentEncoding [c, a, b])
      | rest => .error (.percentEncoding (c :: rest))
    else .error (.codePoint c)

def isOctet (digits : List Char) : Bool :=
  !digits.isEmpty && digits.length ≤ 3 && digits.all Char.isDigit &&
    (digits.length == 1 || digits.head? != some '0') &&
    (digits.foldl (fun n d => 10 * n + (d.toNat - 48)) 0) ≤ 255

def splitOn (separator : Char) : List Char → List (List Char)
  | [] => [[]]
  | c :: rest =>
    match splitOn separator rest with
    | part :: parts => if c == separator then [] :: part :: parts else (c :: part) :: parts
    | [] => [[c]]

def isIpv4 (text : List Char) : Bool :=
  let parts := splitOn '.' text
  parts.length == 4 && parts.all isOctet

def isHexGroup (group : List Char) : Bool :=
  !group.isEmpty && group.length ≤ 4 && group.all isHex

/-- How many groups of 16 bits the colon-separated groups stand for; a last IPv4 address is two. -/
def groupCount? : List (List Char) → Option Nat
  | [] => some 0
  | [last] => if isHexGroup last then some 1 else if isIpv4 last then some 2 else none
  | group :: rest => if isHexGroup group then (groupCount? rest).map (· + 1) else none

def splitDoubleColon : List Char → Option (List Char × List Char)
  | ':' :: ':' :: rest => some ([], rest)
  | c :: rest => (splitDoubleColon rest).map fun p => (c :: p.1, p.2)
  | [] => none

def groupsOf (text : List Char) : List (List Char) := if text.isEmpty then [] else splitOn ':' text

def isIpv6 (text : List Char) : Bool :=
  match splitDoubleColon text with
  | none => groupCount? (groupsOf text) == some 8
  | some (head, tail) =>
    (groupsOf head).all isHexGroup &&
      match groupCount? (groupsOf tail) with
      | some n => (groupsOf head).length + n ≤ 7
      | none => false

def checkFutureAddress (text : List Char) : Except IriError Unit :=
  let version := text.takeWhile (· != '.')
  let rest := (text.dropWhile (· != '.')).drop 1
  match version.find? fun c => !isHex c with
  | some c => .error (.hostCharacter c)
  | none =>
    if version.isEmpty then .error (.hostCharacter (rest.head?.getD ']'))
    else if rest.isEmpty then .error (.hostCharacter ']')
    else match rest.find? fun c => !isUserInfoChar c with
      | some c => .error (.hostCharacter c)
      | none => .ok ()

def readPort : List Char → Except IriError (List Char × List Char)
  | [] => .ok ([], [])
  | c :: rest =>
    if endsAuthority c then .ok ([], c :: rest)
    else if c.isDigit then do
      let (port, rest) ← readPort rest
      pure (c :: port, rest)
    else .error (.portCharacter c)

/-- What follows a host: a port, the end of the authority, or an error. -/
def readAfterAddress (address : List Char) : List Char → Except IriError (List Char × List Char)
  | ':' :: rest => do
    let (port, rest) ← readPort rest
    pure (address ++ ':' :: port, rest)
  | c :: rest =>
    if endsAuthority c then .ok (address, c :: rest) else .error (.hostCharacter c)
  | [] => .ok (address, [])

def readHost (text : List Char) : Except IriError (List Char × List Char) :=
  match text with
  | '[' :: inner => do
    let address := inner.takeWhile (· != ']')
    match inner.dropWhile (· != ']') with
    | [] => .error (.hostCharacter '[')
    | _ :: rest => do
      match address with
      | 'v' :: future => checkFutureAddress future
      | 'V' :: future => checkFutureAddress future
      | _ => if isIpv6 address then pure () else .error .hostAddress
      readAfterAddress ('[' :: address ++ [']']) rest
  | _ => do
    let (host, rest) ← readRun isRegular (fun c => c == ':' || endsAuthority c) text
    readAfterAddress host rest

/-- A user part ends with an at sign; without one all of it is read again as the host. -/
def readAuthority (text : List Char) : Except IriError (List Char × List Char) := do
  let (user, rest) ← readRun isUserInfoChar (fun c => c == '@' || c == '[' || endsAuthority c) text
  match rest with
  | '@' :: rest => do
    let (host, rest) ← readHost rest
    pure (user ++ '@' :: host, rest)
  | _ => readHost text

def readFragment (text : List Char) : Except IriError (Option (List Char)) :=
  match text with
  | '#' :: rest => do
    let (fragment, _) ← readRun isFragmentChar (fun _ => false) rest
    pure (some fragment)
  | _ => pure none

def readQuery (text : List Char) : Except IriError (Option (List Char) × Option (List Char)) :=
  match text with
  | '?' :: rest => do
    let (query, rest) ← readRun isQueryChar (· == '#') rest
    pure (some query, ← readFragment rest)
  | _ => do pure (none, ← readFragment text)

def endsPath (c : Char) : Bool := c == '?' || c == '#'

def readPath (scheme authority : Option (List Char)) (text : List Char) :
    Except IriError IriReference := do
  let (path, rest) ← readRun isPathChar endsPath text
  let (query, fragment) ← readQuery rest
  pure ⟨scheme, authority, path, query, fragment⟩

/-- Reads what follows the scheme. -/
def readHierarchy (scheme : Option (List Char)) (text : List Char) :
    Except IriError IriReference :=
  match text with
  | '/' :: '/' :: rest => do
    let (authority, rest) ← readAuthority rest
    readPath scheme (some authority) rest
  | _ => readPath scheme none text

def isSchemeChar (c : Char) : Bool := c.isAlphanum || c == '+' || c == '-' || c == '.'

def splitScheme (text : List Char) : Option (List Char × List Char) :=
  match text with
  | c :: _ =>
    if c.isAlpha then
      match text.dropWhile isSchemeChar with
      | ':' :: rest => some (text.takeWhile isSchemeChar, rest)
      | _ => none
    else none
  | [] => none

/-- Reads a reference without scheme; one that starts with a slash is like the rest of an IRI. -/
def readRelative (text : List Char) : Except IriError IriReference :=
  match text with
  | '/' :: _ => readHierarchy none text
  | _ => do
    let (segment, rest) ← readRun isFirstSegmentChar (fun c => c == '/' || endsPath c) text
    let reference ← readPath none none rest
    pure { reference with path := segment ++ reference.path }

def ofChars (text : List Char) : Except IriError IriReference :=
  match text with
  | ':' :: _ => .error .noScheme
  | _ =>
    match splitScheme text with
    | some (scheme, rest) => readHierarchy (some scheme) rest
    | none => readRelative text

def parse (text : String) : Except IriError IriReference := ofChars text.toList

def toChars (r : IriReference) : List Char :=
  ((r.scheme.map (· ++ [':'])).getD []) ++ ((r.authority.map ('/' :: '/' :: ·)).getD []) ++ r.path ++
    ((r.query.map ('?' :: ·)).getD []) ++ ((r.fragment.map ('#' :: ·)).getD [])

/-- Removes `.` and `..` segments. `kept` holds the segments so far, the last one first. -/
def removeDots (kept : List (List Char)) : List (List Char) → List (List Char)
  | [] => kept.reverse
  | [['.']] => ([] :: kept).reverse
  | [['.', '.']] => ([] :: kept.drop 1).reverse
  | segment :: rest =>
    if segment = ['.'] then removeDots kept rest
    else if segment = ['.', '.'] then removeDots (kept.drop 1) rest
    else removeDots (segment :: kept) rest

def joinSegments : List (List Char) → List Char
  | [] => []
  | [segment] => segment
  | segment :: rest => segment ++ '/' :: joinSegments rest

def normalizePath (path : List Char) : List Char :=
  match path with
  | '/' :: rest => '/' :: joinSegments (removeDots [] (splitOn '/' rest))
  | _ => joinSegments (removeDots [] (splitOn '/' path))

/-- The base path up to its last slash, which the relative path then follows. -/
def mergePath (base : IriReference) (path : List Char) : List Char :=
  if base.authority.isSome && base.path.isEmpty then '/' :: path
  else (base.path.reverse.dropWhile (· != '/')).reverse ++ path

/-- The target of `r` seen from `base`. -/
def target (base r : IriReference) : IriReference :=
  if r.scheme.isSome then { r with path := normalizePath r.path }
  else if r.authority.isSome then { r with scheme := base.scheme, path := normalizePath r.path }
  else if r.path.isEmpty then
    { base with query := r.query.or base.query, fragment := r.fragment }
  else
    let path := if r.path.head? = some '/' then r.path else mergePath base r.path
    { base with path := normalizePath path, query := r.query, fragment := r.fragment }

def checkPath (r : IriReference) : Except IriError IriReference :=
  if r.authority.isNone && ['/', '/'].isPrefixOf r.path then .error .doubleSlashPath else .ok r

end IriReference

namespace Iri

/-- The error of a text that is not an absolute IRI. -/
def check (text : String) : Except IriError IriReference := do
  let reference ← IriReference.parse text
  if reference.scheme.isNone then .error .noScheme else pure reference

def isValid (text : String) : Bool :=
  match check text with
  | .ok _ => true
  | .error _ => false

/-- The IRI that `text` stands for, seen from `base` if there is one. -/
def resolve (base : Option IriReference) (text : String) : Except IriError Iri :=
  match base with
  | none => do
    let _ ← check text
    pure ⟨text⟩
  | some base => do
    let reference ← (IriReference.target base (← IriReference.parse text)).checkPath
    pure ⟨String.ofList reference.toChars⟩

end Iri

end SparqlBind
