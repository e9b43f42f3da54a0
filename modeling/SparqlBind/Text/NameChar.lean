/-!
# Names

The characters of prefixed names, variables and blank node labels, and how far a name goes: a dot
belongs to it only when another character of the name follows.
-/

namespace SparqlBind.NameChar

def isNameBase (c : Char) : Bool :=
  let n := c.toNat
  c.isAlpha || (0xC0 ≤ n && n ≤ 0xD6) || (0xD8 ≤ n && n ≤ 0xF6) || (0xF8 ≤ n && n ≤ 0x2FF) ||
    (0x370 ≤ n && n ≤ 0x37D) || (0x37F ≤ n && n ≤ 0x1FFF) || (0x200C ≤ n && n ≤ 0x200D) ||
    (0x2070 ≤ n && n ≤ 0x218F) || (0x2C00 ≤ n && n ≤ 0x2FEF) || (0x3001 ≤ n && n ≤ 0xD7FF) ||
    (0xF900 ≤ n && n ≤ 0xFDCF) || (0xFDF0 ≤ n && n ≤ 0xFFFD) || (0x10000 ≤ n && n ≤ 0xEFFFF)

def isNameStart (c : Char) : Bool := isNameBase c || c == '_'

/-- What a variable name holds after its first character. -/
def isInner (c : Char) : Bool :=
  let n := c.toNat
  isNameStart c || c.isDigit || n == 0xB7 || (0x300 ≤ n && n ≤ 0x36F) ||
    (0x203F ≤ n && n ≤ 0x2040)

def isNameChar (c : Char) : Bool := isInner c || c == '-'

/-- Reads name characters; dots belong to the name only when another character of it follows. -/
def readDotted (p : Char → Bool) : List Char → List Char × List Char
  | [] => ([], [])
  | c :: rest =>
    if p c then
      let (name, rest) := readDotted p rest
      (c :: name, rest)
    else if c == '.' then
      match readDotted p rest with
      | ([], _) => ([], c :: rest)
      | (name, rest) => (c :: name, rest)
    else ([], c :: rest)

/-- Whether a text can be the label of a blank node. -/
def isLabel (label : String) : Bool :=
  match label.toList with
  | [] => false
  | c :: rest =>
    (isNameStart c || c.isDigit || c == ':') &&
      rest.all (fun c => isNameChar c || c == ':' || c == '.') && rest.getLast? != some '.'

end SparqlBind.NameChar
