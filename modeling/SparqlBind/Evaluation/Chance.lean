import SparqlBind.Binding
import SparqlBind.Text.Digest

/-!
# Chance

What the functions without a value of their own draw on. A draw is a digest of the seed of the
engine and of the row it is made for, so an engine with a fixed seed is a function.
-/

namespace SparqlBind

structure Chance where
  seed : String
deriving Inhabited

namespace Chance

def termText : Term → String
  | .iri i => "<" ++ i.text ++ ">"
  | .blank label => "_:" ++ label
  | .literal l => "\"" ++ l.value ++ "\"" ++ l.language?.getD "" ++ "^" ++ l.datatype.text

/-- The draw of a row. -/
def forRow (c : Chance) (row : Binding) : Chance :=
  ⟨row.entries.foldl (fun s e => s ++ "?" ++ e.1.name ++ termText e.2) c.seed⟩

/-- Sixteen bytes. -/
def bytes (c : Chance) : List Nat := Digest.md5 (Digest.bytesOf c.seed)

/-- A number from 0 up to, and without, 1. -/
def double (c : Chance) : Float :=
  Float.ofScientific (Digest.ofBigEndian (c.bytes.take 7) / 8) false 0 / 9007199254740992.0

def label (c : Chance) : String := Digest.hexText c.bytes

/-- The text of a random UUID, with the version and variant bits in their places. -/
def uuid (c : Chance) : String :=
  let marked := c.bytes.mapIdx fun i b =>
    if i == 6 then 64 + b % 16 else if i == 8 then 128 + b % 64 else b
  let part (start count : Nat) : String := Digest.hexText ((marked.drop start).take count)
  part 0 4 ++ "-" ++ part 4 2 ++ "-" ++ part 6 2 ++ "-" ++ part 8 2 ++ "-" ++ part 10 6

end Chance

end SparqlBind
