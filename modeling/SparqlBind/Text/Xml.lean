/-!
# XML text

Characters of names and the escapes of text and attribute values.
-/

namespace SparqlBind.Xml

def isNameStart (c : Char) : Bool :=
  let n := c.toNat
  c == ':' || c == '_' || c.isAlpha || (0xC0 ≤ n && n ≤ 0xD6) || (0xD8 ≤ n && n ≤ 0xF6) ||
    (0xF8 ≤ n && n ≤ 0x2FF) || (0x370 ≤ n && n ≤ 0x37D) || (0x37F ≤ n && n ≤ 0x1FFF) ||
    (0x200C ≤ n && n ≤ 0x200D) || (0x2070 ≤ n && n ≤ 0x218F) || (0x2C00 ≤ n && n ≤ 0x2FEF) ||
    (0x3001 ≤ n && n ≤ 0xD7FF) || (0xF900 ≤ n && n ≤ 0xFDCF) || (0xFDF0 ≤ n && n ≤ 0xFFFD) ||
    (0x10000 ≤ n && n ≤ 0xEFFFF)

def isNameChar (c : Char) : Bool :=
  let n := c.toNat
  isNameStart c || c == '-' || c == '.' || c.isDigit || n == 0xB7 || (0x300 ≤ n && n ≤ 0x36F) ||
    (0x203F ≤ n && n ≤ 0x2040)

def escapeChar (c : Char) : List Char :=
  match c with
  | '<' => "&lt;".toList
  | '>' => "&gt;".toList
  | '&' => "&amp;".toList
  | '\'' => "&apos;".toList
  | '"' => "&quot;".toList
  | c => [c]

def escape (s : String) : String := String.ofList (s.toList.flatMap escapeChar)

def isBlank (c : Char) : Bool := c == ' ' || c == '\t' || c == '\n' || c == '\r'

def charReference (c : Char) : List Char := ("&#" ++ toString c.toNat ++ ";").toList

/-- Escapes a text whose blanks at both ends have to survive a reader that trims. -/
def escapeWithBlanks (s : String) : String :=
  let head := s.toList.takeWhile isBlank
  let rest := s.toList.dropWhile isBlank
  let tail := (rest.reverse.takeWhile isBlank).reverse
  let body := (rest.reverse.dropWhile isBlank).reverse
  String.ofList
    (head.flatMap charReference ++ body.flatMap escapeChar ++ tail.flatMap charReference)

def attr (name value : String) : String := " " ++ name ++ "=\"" ++ escape value ++ "\""

def element (name attributes content : String) : String :=
  "<" ++ name ++ attributes ++ ">" ++ content ++ "</" ++ name ++ ">"

end SparqlBind.Xml
