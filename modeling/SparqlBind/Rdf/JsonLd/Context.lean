import SparqlBind.Rdf.Iri
import SparqlBind.Text.Json

/-!
# JSON-LD contexts

A context says what the member names and the identifiers of a document stand for. It is given in the
document itself; contexts kept elsewhere, contexts of single terms and imported ones are refused.
-/

namespace SparqlBind.JsonLd

/-- What a term's values are read as. -/
inductive Coercion
  | identifier
  | vocabulary
  | untyped
  | datatype (iri : String)
deriving DecidableEq, Inhabited

structure TermDefinition where
  /-- What the term stands for, or `none` if it stands for nothing. -/
  iri : Option String
  isPrefix : Bool
  reverse : Bool
  coercion : Option Coercion
  /-- The language of the values, where `some none` is a term without one. -/
  language : Option (Option String)
  containers : List String
deriving DecidableEq, Inhabited

structure Context where
  base : Option Iri
  vocabulary : Option String
  language : Option String
  terms : List (String × TermDefinition)
deriving DecidableEq, Inhabited

/-! ## Keywords -/

def keywords : List String :=
  ["@base", "@container", "@context", "@direction", "@graph", "@id", "@import", "@included",
    "@index", "@json", "@language", "@list", "@nest", "@none", "@prefix", "@propagate", "@protected",
    "@reverse", "@set", "@type", "@value", "@version", "@vocab"]

def isKeyword (text : String) : Bool := keywords.contains text

/-- Texts that look like keywords stand for nothing. -/
def looksLikeKeyword (text : String) : Bool :=
  match text.toList with
  | '@' :: c :: rest => (c :: rest).all Char.isAlpha
  | _ => false

/-! ## Identifiers -/

/-- The parts of a text before and after its first colon, which must not be its first character. -/
def splitCompact? (text : String) : Option (String × String) :=
  let chars := text.toList
  let mark := chars.takeWhile (· != ':')
  if chars.contains ':' && !mark.isEmpty then
    some (String.ofList mark, String.ofList (chars.drop (mark.length + 1)))
  else none

namespace Context

def initial (base : Option Iri) : Context := ⟨base, none, none, []⟩

def resolve (c : Context) (text : String) : String :=
  match Iri.resolve (c.base.bind fun b => (IriReference.parse b.text).toOption) text with
  | .ok i => i.text
  | .error _ => text

/-- What a text with a colon stands for, if it is an IRI, a blank node or a name with a known mark. -/
def expandCompact? (c : Context) (text : String) : Option String := do
  let (mark, rest) ← splitCompact? text
  if mark == "_" || "//".toList.isPrefixOf rest.toList then pure text
  else
    match c.terms.lookup mark with
    | some ⟨some start, true, _, _, _, _⟩ => pure (start ++ rest)
    | _ => if (IriReference.splitScheme text.toList).isSome then pure text else none

/-- What the name of a member or a value of a vocabulary stands for. -/
def expandName (c : Context) (text : String) : Option String :=
  if isKeyword text then some text
  else if looksLikeKeyword text then none
  else
    match c.terms.lookup text with
    | some d => d.iri
    | none =>
      match c.expandCompact? text with
      | some i => some i
      | none => some (c.vocabulary.getD "" ++ text)

/-- What a value of a vocabulary stands for when the document may name it too. -/
def expandType (c : Context) (text : String) : Option String :=
  if (c.terms.lookup text).isSome || c.vocabulary.isSome || (c.expandCompact? text).isSome ||
      isKeyword text || looksLikeKeyword text then c.expandName text
  else some (c.resolve text)

/-- What the identifier of a node stands for. -/
def expandIdentifier (c : Context) (text : String) : Option String :=
  if looksLikeKeyword text then none
  else some ((c.expandCompact? text).getD (c.resolve text))

end Context

/-! ## Definitions of terms -/

/-- A text member, which may also be `null`. -/
def nullableText? : Json → Option (Option String)
  | .null => some none
  | .string s => some (some s)
  | _ => none

def coercionOf? (c : Context) (text : String) : Option Coercion :=
  match c.expandName text with
  | some "@id" => some .identifier
  | some "@vocab" => some .vocabulary
  | some "@none" => some .untyped
  | some i => if isKeyword i || !Iri.isValid i then none else some (.datatype i)
  | none => none

def containerNames? : Json → Option (List String)
  | .null => some []
  | .string s => some [s]
  | .array items =>
    items.mapM fun
      | .string s => some s
      | _ => none
  | _ => none

def readContainers? (j : Json) : Option (List String) := do
  let names ← containerNames? j
  if names.all ["@list", "@set", "@index", "@language"].contains then pure names else none

def optionalMember {α : Type} (read : Json → Option α) (missing : α) : Option Json → Option α
  | none => some missing
  | some j => read j

/-- What an undescribed term stands for. -/
def impliedIri? (c : Context) (term : String) : Option String :=
  match c.expandCompact? term with
  | some i => some i
  | none => c.vocabulary.map (· ++ term)

def endsLikePrefix (iri : String) : Bool :=
  match iri.toList.reverse with
  | last :: _ => ":/?#[]@".toList.contains last
  | [] => false

def isPlainTerm (term : String) : Bool := term.toList.all fun c => c != ':' && c != '/'

/-- A definition written as a text. -/
def simpleDefinition? (c : Context) (term text : String) : Option TermDefinition := do
  let iri ← if text = term then impliedIri? c term else c.expandName text
  if iri = "@context" then none
  let isPrefix := isPlainTerm term && (endsLikePrefix iri || "_:".toList.isPrefixOf iri.toList)
  pure ⟨some iri, isPrefix, false, none, none, []⟩

def textMember? (members : List (String × Json)) (key : String) : Option (Option String) :=
  optionalMember (fun | .string s => some (some s) | _ => none) none (members.lookup key)

/-- A definition written as an object. -/
def fullDefinition? (c : Context) (term : String) (members : List (String × Json)) :
    Option TermDefinition := do
  if ["@context", "@nest", "@import"].any fun k => (members.lookup k).isSome then none
  let coercion ← match ← textMember? members "@type" with
    | none => pure none
    | some text => (coercionOf? c text).map some
  let language ← optionalMember (fun j => (nullableText? j).map some) none
    (members.lookup "@language")
  let containers ← optionalMember readContainers? [] (members.lookup "@container")
  let isPrefix ← optionalMember (fun | .bool b => some b | _ => none) false
    (members.lookup "@prefix")
  match ← textMember? members "@reverse" with
  | some text =>
    let iri ← c.expandName text
    pure ⟨some iri, false, true, coercion, language, containers⟩
  | none =>
    match members.lookup "@id" with
    | some .null => pure ⟨none, false, false, coercion, language, containers⟩
    | some (.string text) =>
      let iri ← if text = term then impliedIri? c term else c.expandName text
      pure ⟨some iri, isPrefix, false, coercion, language, containers⟩
    | some _ => none
    | none => pure ⟨some (← impliedIri? c term), isPrefix, false, coercion, language, containers⟩

def definition? (c : Context) (term : String) : Json → Option TermDefinition
  | .null => some ⟨none, false, false, none, none, []⟩
  | .string text => simpleDefinition? c term text
  | .object members => fullDefinition? c term members
  | _ => none

/-- The texts in a definition that other terms may explain. -/
def references (term : String) : Json → List String
  | .string text => [term, text]
  | .object members =>
    term :: ["@id", "@type", "@reverse"].filterMap fun key =>
      match members.lookup key with
      | some (.string text) => some text
      | _ => none
  | _ => []

/-- The terms that must be defined before a term. -/
def requirements (term : String) (definition : Json) : List String :=
  ((references term definition).flatMap fun text =>
    text :: ((splitCompact? text).map (·.1)).toList).filter (· != term)

/-- Defines a term after those it needs. A term that needs itself uses up the fuel, of which as much
as there are terms is enough for all others. -/
def define (members : List (String × Json)) : Nat → Context → String → Option Context
  | 0, _, _ => none
  | fuel + 1, c, term =>
    if (c.terms.lookup term).isSome then some c
    else
      match members.lookup term with
      | none => some c
      | some definition => do
        let c ← (requirements term definition).foldlM (define members fuel) c
        let d ← definition? c term definition
        pure { c with terms := (term, d) :: c.terms }

/-! ## Contexts -/

def isTerm (key : String) : Bool := !key.isEmpty && !isKeyword key && !looksLikeKeyword key

namespace Context

def withBase? (c : Context) : Json → Option Context
  | .null => some { c with base := none }
  | .string text =>
    let iri := c.resolve text
    if Iri.isValid iri then some { c with base := some ⟨iri⟩ } else none
  | _ => none

def withVocabulary? (c : Context) : Json → Option Context
  | .null => some { c with vocabulary := none }
  | .string text => do pure { c with vocabulary := some (← c.expandType text) }
  | _ => none

def withLanguage? (c : Context) : Json → Option Context
  | .null => some { c with language := none }
  | .string text => some { c with language := some text }
  | _ => none

def withMembers? (c : Context) (members : List (String × Json)) : Option Context := do
  if (members.lookup "@import").isSome then none
  let c ← optionalMember c.withBase? c (members.lookup "@base")
  let c ← optionalMember c.withVocabulary? c (members.lookup "@vocab")
  let c ← optionalMember c.withLanguage? c (members.lookup "@language")
  let terms := members.filter fun m => isTerm m.1
  let kept := { c with terms := c.terms.filter fun t => (terms.lookup t.1).isNone }
  (terms.map (·.1)).foldlM (define terms (terms.length + 1)) kept

/-- The context with one given in a document on top of it; `start` is the one to go back to. -/
def withOne? (start c : Context) : Json → Option Context
  | .null => some start
  | .object members => c.withMembers? members
  | _ => none

def extend? (start c : Context) : Json → Option Context
  | .array items => items.foldlM (withOne? start) c
  | j => withOne? start c j

/-- The declared prefixes that stand for an IRI. -/
def prefixes (c : Context) : List (String × String) :=
  c.terms.filterMap fun t =>
    match t.2.iri with
    | some i => if t.2.isPrefix && Iri.isValid i then some (t.1, i) else none
    | none => none

end Context

end SparqlBind.JsonLd
