import SparqlBind.Text.CharClass
import SparqlBind.Text.CaseMap

/-!
# Regular expressions

Expressions as trees and the search for a match. Of all matches at the first place that has one, the
search finds the one a reader prefers who tries alternatives from the left and repeats as often, or
as seldom, as the quantifier says. A repetition stops at an empty round.
-/

namespace SparqlBind

/-- A part of a character class. -/
inductive ClassItem
  | range (low high : Char)
  | word (negated : Bool)
  | digit (negated : Bool)
  | space (negated : Bool)
  | nested (negated : Bool) (items : List ClassItem)

inductive Regex
  | empty
  | set (ignoreCase negated : Bool) (items : List ClassItem)
  | lineStart
  | lineEnd
  | textStart
  | textEnd
  | wordBoundary (negated : Bool)
  | group (index : Nat) (inner : Regex)
  | sequence (first second : Regex)
  | choice (left right : Regex)
  | repetition (inner : Regex) (least : Nat) (most : Option Nat) (greedy : Bool)

mutual

def ClassItem.holds (c : Char) : ClassItem → Bool
  | .range low high => low ≤ c && c ≤ high
  | .word negated => CharClass.isWord c != negated
  | .digit negated => CharClass.isDigit c != negated
  | .space negated => CharClass.isSpace c != negated
  | .nested negated items => ClassItem.anyHolds c items != negated

def ClassItem.anyHolds (c : Char) : List ClassItem → Bool
  | [] => false
  | item :: rest => item.holds c || ClassItem.anyHolds c rest

end

namespace Regex

/-- Where a search stands: a position, and the groups captured so far, the last one first. -/
structure Progress where
  position : Nat
  captures : List (Nat × Nat × Nat)

def inSet (ignoreCase negated : Bool) (items : List ClassItem) (c : Char) : Bool :=
  let holds := ClassItem.anyHolds c items ||
    (ignoreCase && (ClassItem.anyHolds (CaseMap.fold c) items ||
      ClassItem.anyHolds (CaseMap.simpleUpper c) items ||
      ClassItem.anyHolds (CaseMap.simpleLower c) items))
  holds != negated

def wordAt (text : Array Char) (i : Nat) : Bool :=
  match text[i]? with
  | some c => CharClass.isWord c
  | none => false

def wordBefore (text : Array Char) (i : Nat) : Bool := 0 < i && wordAt text (i - 1)

def atLineStart (text : Array Char) (i : Nat) : Bool := i == 0 || text[i - 1]? == some '\n'

def atLineEnd (text : Array Char) (i : Nat) : Bool := i == text.size || text[i]? == some '\n'

/-- Repeats a step: `least` rounds first, then up to `most` more, each of which has to move on. -/
def rounds (step : (Progress → Option Progress) → Progress → Option Progress) (greedy : Bool) :
    Nat → Nat → Option Nat → (Progress → Option Progress) → Progress → Option Progress
  | 0, _, _, _, _ => none
  | fuel + 1, least, most, next, p =>
    if 0 < least then
      step (rounds step greedy fuel (least - 1) most next) p
    else if most = some 0 then next p
    else
      let again := fun _ : Unit => step (fun q =>
        if p.position < q.position then
          rounds step greedy fuel 0 (most.map (· - 1)) next q
        else none) p
      if greedy then (again ()).or (next p) else (next p).or (again ())

/-- Matches at a position and goes on with `next`; the first way that succeeds is taken. -/
def run (text : Array Char) : Regex → (Progress → Option Progress) → Progress → Option Progress
  | empty, next, p => next p
  | set ignoreCase negated items, next, p =>
    match text[p.position]? with
    | some c =>
      if inSet ignoreCase negated items c then next { p with position := p.position + 1 } else none
    | none => none
  | lineStart, next, p => if atLineStart text p.position then next p else none
  | lineEnd, next, p => if atLineEnd text p.position then next p else none
  | textStart, next, p => if p.position == 0 then next p else none
  | textEnd, next, p => if p.position == text.size then next p else none
  | wordBoundary negated, next, p =>
    if (wordBefore text p.position != wordAt text p.position) != negated then next p else none
  | group index inner, next, p =>
    run text inner (fun q =>
      next { q with captures := (index, p.position, q.position) :: q.captures }) p
  | sequence a b, next, p => run text a (run text b next) p
  | choice a b, next, p => (run text a next p).or (run text b next p)
  | repetition inner least most greedy, next, p =>
    rounds (run text inner) greedy (least + text.size + 2) least
      (most.map (· - least)) next p

structure Match where
  start : Nat
  stop : Nat
  captures : List (Nat × Nat × Nat)

def matchAt (r : Regex) (text : Array Char) (start : Nat) : Option Match :=
  (run text r some ⟨start, []⟩).map fun p => ⟨start, p.position, p.captures⟩

/-- The first match from a position on. -/
def findFrom (r : Regex) (text : Array Char) : Nat → Nat → Option Match
  | 0, _ => none
  | fuel + 1, start =>
    if text.size < start then none
    else (matchAt r text start).or (findFrom r text fuel (start + 1))

def isMatch (r : Regex) (text : String) : Bool :=
  let chars := text.toList.toArray
  (findFrom r chars (chars.size + 1) 0).isSome

/-- All matches that do not overlap. An empty match does not stand right after another match. -/
def matchesFrom (r : Regex) (text : Array Char) : Nat → Nat → Option Nat → List Match
  | 0, _, _ => []
  | fuel + 1, start, last =>
    match findFrom r text (text.size + 1) start with
    | none => []
    | some m =>
      if m.start = m.stop then
        let rest := matchesFrom r text fuel (m.stop + 1) (some m.stop)
        if last = some m.stop then rest else m :: rest
      else m :: matchesFrom r text fuel m.stop (some m.stop)

def allMatches (r : Regex) (text : Array Char) : List Match := matchesFrom r text (text.size + 2) 0 none

/-! ## Replacement -/

/-- A part of a replacement text. -/
inductive TemplatePart
  | char (c : Char)
  | group (name : String)

def isNameChar (c : Char) : Bool := c.isAlphanum || c == '_'

/-- Splits a replacement text; `$name` and braces around a name stand for a group, `$$` for `$`. -/
def templateParts : Nat → List Char → List TemplatePart
  | 0, _ => []
  | _, [] => []
  | fuel + 1, '$' :: '$' :: rest => .char '$' :: templateParts fuel rest
  | fuel + 1, '$' :: '\x7b' :: rest =>
    match rest.dropWhile (· != '\x7d') with
    | _ :: after =>
      .group (String.ofList (rest.takeWhile (· != '\x7d'))) :: templateParts fuel after
    | [] => .char '$' :: templateParts fuel ('\x7b' :: rest)
  | fuel + 1, '$' :: rest =>
    let name := rest.takeWhile isNameChar
    if name.isEmpty then .char '$' :: templateParts fuel rest
    else .group (String.ofList name) :: templateParts fuel (rest.dropWhile isNameChar)
  | fuel + 1, c :: rest => .char c :: templateParts fuel rest

def slice (text : Array Char) (start stop : Nat) : List Char := (text.extract start stop).toList

def groupText (names : List (String × Nat)) (text : Array Char) (m : Match) (name : String) :
    List Char :=
  let index := (names.lookup name).or name.toNat?
  match index with
  | some 0 => slice text m.start m.stop
  | some i =>
    match m.captures.lookup i with
    | some (start, stop) => slice text start stop
    | none => []
  | none => []

def expand (names : List (String × Nat)) (parts : List TemplatePart) (text : Array Char)
    (m : Match) : List Char :=
  parts.flatMap fun
    | .char c => [c]
    | .group name => groupText names text m name

def replaceFrom (text : Array Char) (replacement : Match → List Char) :
    Nat → List Match → List Char
  | position, [] => slice text position text.size
  | position, m :: rest =>
    slice text position m.start ++ replacement m ++ replaceFrom text replacement m.stop rest

/-- Replaces every match by the template, in which groups have numbers and maybe names. -/
def replaceAll (r : Regex) (names : List (String × Nat)) (text template : String) : String :=
  let chars := text.toList.toArray
  let parts := templateParts (template.length + 1) template.toList
  String.ofList (replaceFrom chars (expand names parts chars) 0 (r.allMatches chars))

end Regex

end SparqlBind
