import SparqlBind.Http.Url

/-!
# Requests and responses

Header names are kept in lower case and each of them once: a value appended to a name that is there
follows the old one after a comma. Values are bytes, and only those of visible characters have a text.
-/

namespace SparqlBind

structure Headers where
  entries : List (String × List UInt8)
deriving DecidableEq, Inhabited

namespace Headers

def empty : Headers := ⟨[]⟩

def get? (h : Headers) (name : String) : Option (List UInt8) := h.entries.lookup name.toLower

def appendTo (name : String) (value : List UInt8) :
    List (String × List UInt8) → List (String × List UInt8)
  | [] => [(name, value)]
  | e :: rest =>
    if e.1 = name then (name, e.2 ++ Utf8.encode ", " ++ value) :: rest
    else e :: appendTo name value rest

def append (h : Headers) (name : String) (value : List UInt8) : Headers :=
  ⟨appendTo name.toLower value h.entries⟩

def ofList (entries : List (String × List UInt8)) : Headers :=
  entries.foldl (fun h e => h.append e.1 e.2) empty

def isVisible (b : UInt8) : Bool := b = 9 || (32 ≤ b && b < 127)

/-- The text of a value, if all of its bytes are visible. -/
def text? (value : List UInt8) : Option (List Char) :=
  if value.all isVisible then some (value.map fun b => Char.ofNat b.toNat) else none

def isBlank (c : Char) : Bool := c == ' ' || c == '\t'

def trim (text : List Char) : List Char :=
  ((text.dropWhile isBlank).reverse.dropWhile isBlank).reverse

end Headers

structure Request where
  method : String
  url : Url
  headers : Headers
  body : List UInt8
deriving DecidableEq, Inhabited

namespace Request

def standardMethods : List String :=
  ["CONNECT", "DELETE", "GET", "HEAD", "OPTIONS", "PATCH", "POST", "PUT", "TRACE"]

/-- The method a text names: a standard one in either case, any other as it is written. -/
def methodOf (text : String) : String :=
  let upper := text.map Char.toUpper
  if standardMethods.contains upper then upper else text

end Request

structure Response where
  status : Nat
  headers : Headers
  body : String
deriving DecidableEq, Inhabited

namespace Response

def ofBody (status : Nat) (contentType body : String) : Response :=
  ⟨status, Headers.empty.append "content-type" (Utf8.encode contentType), body⟩

end Response

end SparqlBind
