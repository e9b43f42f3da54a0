/-!
# Language tags

Which texts are well-formed language tags: the grandfathered tags, private use tags, and tags of a
language, extended languages, script, region, variants, extensions and a private use part, in this
order. Subtags are looked up in no registry.
-/

namespace SparqlBind.LanguageTag

def grandfathered : List String :=
  ["art-lojban", "cel-gaulish", "en-gb-oed", "i-ami", "i-bnn", "i-default", "i-enochian", "i-hak",
    "i-klingon", "i-lux", "i-mingo", "i-navajo", "i-pwn", "i-tao", "i-tay", "i-tsu", "no-bok",
    "no-nyn", "sgn-be-fr", "sgn-be-nl", "sgn-ch-de", "zh-guoyu", "zh-hakka", "zh-min", "zh-min-nan",
    "zh-xiang"]

/-- What the last subtag was, and so what may follow. -/
inductive Position
  | language (extended : Nat)
  | longLanguage
  | script
  | region
  | extension (begun : Bool)
  | privateUse (begun : Bool)
deriving DecidableEq

def beforeVariant : Position → Bool
  | .language _ => true
  | .longLanguage => true
  | .script => true
  | .region => true
  | _ => false

def beforeRegion : Position → Bool
  | .language _ => true
  | .longLanguage => true
  | .script => true
  | _ => false

def beforeScript : Position → Bool
  | .language _ => true
  | .longLanguage => true
  | _ => false

def isVariant (s : List Char) : Bool :=
  s.all Char.isAlphanum && (5 ≤ s.length || (4 ≤ s.length && (s.head?.map Char.isDigit).getD false))

def isRegion (s : List Char) : Bool :=
  (s.length == 2 && s.all Char.isAlpha) || (s.length == 3 && s.all Char.isDigit)

def isComplete : Position → Bool
  | .extension begun => begun
  | .privateUse begun => begun
  | _ => true

/-- Walks over the subtags after the language; `seen` are the singletons met so far. -/
def walk (position : Position) (seen : List Char) : List (List Char) → Bool
  | [] => isComplete position
  | s :: rest =>
    if s.isEmpty || 8 < s.length || !s.all Char.isAlphanum then false
    else match position with
    | .privateUse _ => walk (.privateUse true) seen rest
    | position =>
      if s = ['x'] || s = ['X'] then isComplete position && walk (.privateUse false) seen rest
      else match s with
      | [c] => isComplete position && !seen.contains c && walk (.extension false) (c :: seen) rest
      | s =>
        match position with
        | .extension _ => walk (.extension true) seen rest
        | position =>
          match position, s.length == 3 && s.all Char.isAlpha with
          | .language n, true => n < 3 && walk (.language (n + 1)) seen rest
          | position, _ =>
            if beforeScript position && s.length == 4 && s.all Char.isAlpha then walk .script seen rest
            else if beforeRegion position && isRegion s then walk .region seen rest
            else beforeVariant position && isVariant s && walk .region seen rest

def subtags : List Char → List (List Char)
  | [] => [[]]
  | c :: rest =>
    match subtags rest with
    | part :: parts => if c == '-' then [] :: part :: parts else (c :: part) :: parts
    | [] => [[c]]

def isValid (tag : String) : Bool :=
  grandfathered.contains tag.toLower ||
    match subtags tag.toList with
    | ['x'] :: rest => walk (.privateUse false) [] rest
    | ['X'] :: rest => walk (.privateUse false) [] rest
    | language :: rest =>
      2 ≤ language.length && language.length ≤ 8 && language.all Char.isAlpha &&
        walk (if language.length < 4 then .language 0 else .longLanguage) [] rest
    | [] => false

end SparqlBind.LanguageTag
