import SparqlBind.Http.FormData
import SparqlBind.Rdf.Iri

/-!
# Request URLs

The path and the query of an absolute `http` or `https` URL. Its reading is forgiving: blanks around
the text and line breaks inside it are dropped, a backslash is a slash, dot segments are resolved, and
characters that a URL does not hold are percent-encoded.
-/

namespace SparqlBind

structure Url where
  path : String
  query : Option String
deriving DecidableEq, Inhabited

namespace Url

def isControl (c : Char) : Bool := c.toNat < 32 || c.toNat = 127

def escapedInPath (c : Char) : Bool := " \"<>\x60#?\x7b\x7d".toList.contains c

def escapedInQuery (c : Char) : Bool := " \"#<>'".toList.contains c

def encodeChar (escaped : Char → Bool) (c : Char) : List Char :=
  if isControl c || 127 < c.toNat || escaped c then
    (Utf8.encode c.toString).flatMap FormData.percentByte
  else [c]

def isOuterBlank (c : Char) : Bool := c.toNat ≤ 32

def isBreak (c : Char) : Bool := c == '\t' || c == '\n' || c == '\r'

/-- The text without the blanks around it and without line breaks and tabs. -/
def cleaned (text : List Char) : List Char :=
  (((text.dropWhile isOuterBlank).reverse.dropWhile isOuterBlank).reverse).filter (!isBreak ·)

def isSlash (c : Char) : Bool := c == '/' || c == '\\'

def dropScheme? (text : List Char) : Option (List Char) :=
  let scheme := String.ofList ((text.takeWhile (· != ':')).map Char.toLower)
  if scheme == "http" || scheme == "https" then some ((text.dropWhile (· != ':')).drop 1) else none

def endsAuthority (c : Char) : Bool := isSlash c || c == '?' || c == '#'

def endsPath (c : Char) : Bool := c == '?' || c == '#'

/-- Segments that are dots, also percent-encoded ones, as plain dots. -/
def plainDots (segment : List Char) : List Char :=
  let lower := String.ofList (segment.map Char.toLower)
  if lower == "%2e" then ['.']
  else if [".%2e", "%2e.", "%2e%2e"].contains lower then ['.', '.']
  else segment

def normalPath (text : List Char) : List Char :=
  let slashed := (text.map fun c => if isSlash c then '/' else c).drop 1
  let segments := (IriReference.splitOn '/' slashed).map plainDots
  '/' :: (IriReference.joinSegments (IriReference.removeDots [] segments)).flatMap
    (encodeChar escapedInPath)

def readQuery (text : List Char) : Option (List Char) :=
  match text with
  | '?' :: rest => some ((rest.takeWhile (· != '#')).flatMap (encodeChar escapedInQuery))
  | _ => none

def parse? (text : String) : Option Url := do
  let rest ← dropScheme? (cleaned text.toList)
  let afterSlashes := rest.dropWhile isSlash
  if (afterSlashes.takeWhile (!endsAuthority ·)).isEmpty then none
  let target := afterSlashes.dropWhile (!endsAuthority ·)
  pure ⟨String.ofList (normalPath (target.takeWhile (!endsPath ·))),
    (readQuery (target.dropWhile (!endsPath ·))).map String.ofList⟩

/-- The first parameter of the query with the name. -/
def parameter? (u : Url) (name : String) : Option String :=
  u.query.bind fun q => FormData.field? name (Utf8.encode q)

/-- The URL with one more parameter at the end of its query. -/
def withParameter (u : Url) (name value : String) : Url :=
  let pair := FormData.encodePair (name, value)
  match u.query with
  | none => { u with query := some pair }
  | some q => { u with query := some (if q.isEmpty then pair else q ++ "&" ++ pair) }

end Url

end SparqlBind
