import SparqlBind.CommandLine.Options

/-!
# Reading the command line

Arguments are taken from left to right. An option that waits for its value is settled, with the checks
of its values, when the next option begins or the arguments end; an argument that fits nowhere is
refused before that. Options before the command are settled after those of the command.
-/

namespace SparqlBind.CommandLine

/-- Where options are read: before the command, or after it. -/
inductive Level
  | program
  | serve
  | query
deriving DecidableEq, Inhabited

namespace Level

def options : Level → List Opt
  | program => [.logFormat, .help, .version]
  | serve => [.bind, .path, .file, .format, .base, .title, .description, .publicUrl, .favicon,
      .exampleQuery, .exampleQueries, .declare, .queryTimeout, .cors, .logFormat, .help]
  | query => [.query, .queryFile, .file, .format, .base, .accept, .declare, .queryTimeout, .logFormat,
      .help]

def long? (l : Level) (name : List Char) : Option Opt :=
  l.options.find? fun o => o.long.toList == name

def short? (l : Level) (c : Char) : Option Opt := l.options.find? fun o => o.short? == some c

end Level

/-- An option with the values it was given. -/
structure Occurrence where
  option : Opt
  values : List String
deriving DecidableEq, Inhabited

/-- The options met so far, the settled ones in their order. -/
structure Reading where
  settled : List Occurrence
  pending : Option Occurrence
  /-- Whether the pending option takes another value. -/
  isOpen : Bool
  /-- Whether all further arguments are values that no option takes. -/
  isTrailing : Bool
deriving DecidableEq, Inhabited

namespace Reading

def start : Reading := ⟨[], none, false, false⟩

def has (r : Reading) (o : Opt) : Bool := r.settled.any fun s => s.option = o

def values (r : Reading) (o : Opt) : List String :=
  (r.settled.filter fun s => s.option = o).flatMap Occurrence.values

def value? (r : Reading) (o : Opt) : Option String := (r.values o).head?

/-- Accepts an occurrence after all settled ones. -/
def accept (r : Reading) (s : Occurrence) : Except UsageError Reading := do
  if s.option.arity = .one && s.values.isEmpty then throw .invalidValue
  if !s.option.isRepeatable && r.has s.option then throw .argumentConflict
  s.values.forM (checkValue s.option)
  pure { r with settled := r.settled ++ [s], pending := none, isOpen := false }

def settle (r : Reading) : Except UsageError Reading :=
  match r.pending with
  | none => .ok r
  | some s => { r with pending := none }.accept s

/-- An option without a value of its own. -/
def flag (r : Reading) (o : Opt) : Except UsageError Reading := do
  let r ← r.settle
  match o with
  | .help => throw .displayHelp
  | .version => throw .displayVersion
  | o => r.accept ⟨o, []⟩

/-- An option whose value is in the same argument, or in the next ones. -/
def option (r : Reading) (o : Opt) (attached : Option String) : Except UsageError Reading := do
  let r ← r.settle
  match attached with
  | some text => r.accept ⟨o, [text]⟩
  | none => pure { r with pending := some ⟨o, []⟩, isOpen := true }

def long (l : Level) (r : Reading) (text : List Char) : Except UsageError Reading :=
  let name := text.takeWhile (· != '=')
  let attached := match text.dropWhile (· != '=') with
    | [] => none
    | _ :: value => some (String.ofList value)
  match l.long? name with
  | none => .error .unknownArgument
  | some o =>
    if o.arity = .flag then if attached.isSome then .error .tooManyValues else r.flag o
    else r.option o attached

/-- One-letter options in one argument, of which only the last takes a value. -/
def short (l : Level) (r : Reading) : List Char → Except UsageError Reading
  | [] => .ok r
  | c :: rest =>
    match l.short? c with
    | none => .error .unknownArgument
    | some o =>
      if o.arity = .flag then do short l (← r.flag o) rest
      else
        match rest with
        | [] => r.option o none
        | '=' :: value => r.option o (some (String.ofList value))
        | value => r.option o (some (String.ofList value))

/-- A value of the option that is open. -/
def push (r : Reading) (text : String) : Reading :=
  match r.pending with
  | none => r
  | some s =>
    { r with pending := some { s with values := s.values ++ [text] }, isOpen := s.option.arity = .any }

/-- An argument that is no command; `none` if it belongs to no option. -/
def argument? (l : Level) (r : Reading) (text : String) : Except UsageError (Option Reading) :=
  if r.isTrailing then .ok none
  else
    match text.toList with
    | ['-', '-'] => .ok (some { r with isTrailing := true })
    | '-' :: '-' :: rest => (r.long l rest).map some
    | '-' :: c :: rest => (r.short l (c :: rest)).map some
    | _ => .ok (if r.isOpen then some (r.push text) else none)

/-- The arguments after a command. -/
def command (l : Level) (r : Reading) : List String → Except UsageError Reading
  | [] => r.settle
  | text :: rest => do
    match ← r.argument? l text with
    | some r => command l r rest
    | none => throw .unknownArgument

end Reading

/-! ## Commands -/

def defaultTitle : String := "SPARQL endpoint with extension functions"

def defaultDescription : String :=
  "A SPARQL endpoint to serve custom functions implemented in Rust."

def defaultFavicon : String := "https://rdflib.readthedocs.io/en/stable/_static/RDFlib.png"

namespace Reading

def data (r : Reading) : DataSettings where
  files := r.values .file
  format := r.value? .format
  base := r.value? .base
  prefixes := (r.values .declare).filterMap fun text => (parsePrefix text).toOption
  queryTimeout := (r.value? .queryTimeout).bind fun text => (parseSeconds text).toOption

def serve (r : Reading) : ServeSettings where
  bind := (r.value? .bind).getD "localhost:7878"
  path := (r.value? .path).getD "/"
  title := (r.value? .title).getD defaultTitle
  description := (r.value? .description).getD defaultDescription
  publicUrl := (r.value? .publicUrl).getD "https://your-endpoint/sparql"
  favicon := (r.value? .favicon).getD defaultFavicon
  exampleQuery := r.value? .exampleQuery
  exampleQueries := r.value? .exampleQueries
  cors := r.has .cors
  data := r.data

def query (r : Reading) : QuerySettings where
  query := r.value? .query
  queryFile := r.value? .queryFile
  accept := r.value? .accept
  data := r.data

/-- The query is given as a text or as a file, not as both. -/
def queryCommand (r : Reading) : Except UsageError Command :=
  if r.has .query && r.has .queryFile then .error .argumentConflict else .ok (.query r.query)

end Reading

/-- The arguments after the word that asks for help: at most one command. -/
def helpOn : List String → UsageError
  | [] => .displayHelp
  | [name] => if ["serve", "query", "help"].contains name then .displayHelp else .invalidSubcommand
  | _ => .invalidSubcommand

/-- A command with the options before and after it. -/
def combine (before after : Reading) (command : Command) : Except UsageError Arguments := do
  let before ← before.settle
  let format := (after.value? .logFormat).or (before.value? .logFormat)
  pure ⟨(format.bind parseLogFormat?).getD .human, command⟩

/-- The end of the arguments without a command. -/
def withoutCommand (r : Reading) : Except UsageError Arguments := do
  let r ← r.settle
  throw (if r.settled.isEmpty then .nothingGiven else .missingSubcommand)

/-- The arguments before a command, and the command. -/
def program (r : Reading) : List String → Except UsageError Arguments
  | [] => withoutCommand r
  | text :: rest => do
    let isCommand := ["serve", "query", "help"].contains text
    if isCommand && !r.isOpen && !r.isTrailing then
      if text = "serve" then
        let after ← Reading.start.command .serve rest
        combine r after (.serve after.serve)
      else if text = "query" then
        let after ← Reading.start.command .query rest
        combine r after (← after.queryCommand)
      else throw (helpOn rest)
    else
      match ← r.argument? .program text with
      | some r => program r rest
      | none => throw (if isCommand then .unknownArgument else .invalidSubcommand)

def parse (arguments : List String) : Except UsageError Arguments := program .start arguments

end SparqlBind.CommandLine
