import SparqlBind.Rdf.Iri
import SparqlBind.Text.CharClass

/-!
# Formats of RDF documents

The formats that can be read, and how a file extension or a media type names one. Only UTF-8 texts
are read, so a media type with another character set names none.
-/

namespace SparqlBind

inductive RdfFormat
  | jsonLd (streaming : Bool)
  | n3
  | nQuads
  | nTriples
  | rdfXml
  | triG
  | turtle
deriving DecidableEq, Inhabited

namespace RdfFormat

def name : RdfFormat → String
  | jsonLd true => "Streaming JSON-LD"
  | jsonLd false => "JSON-LD"
  | n3 => "N3"
  | nQuads => "N-Quads"
  | nTriples => "N-Triples"
  | rdfXml => "RDF/XML"
  | triG => "TriG"
  | turtle => "Turtle"

def extension : RdfFormat → String
  | jsonLd _ => "jsonld"
  | n3 => "n3"
  | nQuads => "nq"
  | nTriples => "nt"
  | rdfXml => "rdf"
  | triG => "trig"
  | turtle => "ttl"

def mediaType : RdfFormat → String
  | jsonLd true => "application/ld+json;profile=http://www.w3.org/ns/json-ld#streaming"
  | jsonLd false => "application/ld+json"
  | n3 => "text/n3"
  | nQuads => "application/n-quads"
  | nTriples => "application/n-triples"
  | rdfXml => "application/rdf+xml"
  | triG => "application/trig"
  | turtle => "text/turtle"

def extensions : List (String × RdfFormat) :=
  [("json", jsonLd false), ("jsonld", jsonLd false), ("n3", n3), ("nq", nQuads), ("nt", nTriples),
    ("rdf", rdfXml), ("trig", triG), ("ttl", turtle), ("txt", nTriples), ("xml", rdfXml)]

def subtypes : List (String × RdfFormat) :=
  [("activity+json", jsonLd false), ("json", jsonLd false), ("ld+json", jsonLd false),
    ("jsonld", jsonLd false), ("n-quads", nQuads), ("n-triples", nTriples), ("n3", n3),
    ("nquads", nQuads), ("ntriples", nTriples), ("plain", nTriples), ("rdf+xml", rdfXml),
    ("trig", triG), ("turtle", turtle), ("xml", rdfXml)]

def lower (text : List Char) : String := String.ofList (text.map Char.toLower)

/-- The format of files with the extension, in either case. -/
def ofExtension? (extension : String) : Option RdfFormat :=
  extensions.lookup (lower extension.toList)

/-! ## Media types -/

/-- Cuts a text at the first occurrence of a character. -/
def cut? (c : Char) (text : List Char) : Option (List Char × List Char) :=
  match text.dropWhile (· != c) with
  | [] => none
  | _ :: rest => some (text.takeWhile (· != c), rest)

def dropExperimental (subtype : List Char) : List Char :=
  if ['x', '-'].isPrefixOf subtype then subtype.drop 2 else subtype

def parameters? (text : List Char) : Option (List (List Char × List Char)) :=
  if (CharClass.trim text).isEmpty then some []
  else (IriReference.splitOn ';' (CharClass.trim text)).mapM fun parameter =>
    (cut? '=' parameter).map fun p => (CharClass.trim p.1, CharClass.trim p.2)

def isCharset (parameter : List Char × List Char) : Bool := parameter.1 == "charset".toList

def isUtf8 (charset : List Char) : Bool := ["ascii", "utf8", "utf-8"].contains (lower charset)

def isQuoted (text : List Char) : Bool := text.head? == some '"' && text.getLast? == some '"'

def streamingProfile : List Char := "http://www.w3.org/ns/json-ld#streaming".toList

def namesStreaming (parameter : List Char × List Char) : Bool :=
  let value := if isQuoted parameter.2 then (parameter.2.drop 1).dropLast else parameter.2
  parameter.1 == "profile".toList && (IriReference.splitOn ' ' value).contains streamingProfile

def withParameters (format : RdfFormat) (parameters : List (List Char × List Char)) : RdfFormat :=
  match format with
  | jsonLd _ => jsonLd (parameters.any namesStreaming)
  | format => format

def ofMediaType? (mediaType : String) : Option RdfFormat := do
  let (essence, rest) := (cut? ';' mediaType.toList).getD (mediaType.toList, [])
  let (kind, subtype) ← cut? '/' essence
  if !(["application", "text"].contains (lower (CharClass.trim kind))) then none
  let parameters ← parameters? rest
  let format ← subtypes.lookup (lower (dropExperimental (CharClass.trim subtype)))
  if parameters.any fun p => isCharset p && !isUtf8 p.2 then none
  pure (format.withParameters parameters)

/-- The format that a word names, as an extension or else as a media type. -/
def ofName? (name : String) : Option RdfFormat := (ofExtension? name).or (ofMediaType? name)

end RdfFormat

/-! ## File names -/

namespace FilePath

/-- The last part of a path that names something. -/
def fileName? (path : String) : Option (List Char) :=
  let parts := (IriReference.splitOn '/' path.toList).filter fun p => !p.isEmpty && p != ['.']
  parts.getLast?.filter (· != ['.', '.'])

/-- What follows the last dot of the file name, unless the name starts with it. -/
def extension? (path : String) : Option String := do
  let name ← fileName? path
  let tail := (name.reverse.takeWhile (· != '.')).reverse
  if name.length ≤ tail.length + 1 then none else pure (String.ofList tail)

/-- The path without the last dot and what follows it. -/
def withoutExtension (path : String) : String :=
  String.ofList ((path.toList.reverse.dropWhile (· != '.')).drop 1).reverse

end FilePath

end SparqlBind
