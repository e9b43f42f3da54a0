import SparqlBind.CommandLine.Seconds
import SparqlBind.Text.CharClass

/-!
# Options of the command line

The two commands with their settings, and the options that set them: how an option is written, how
many values it takes, and which values it refuses.
-/

namespace SparqlBind.CommandLine

inductive LogFormat
  | human
  | json
deriving DecidableEq, Inhabited

/-- Which files to load, and how queries are read and limited. -/
structure DataSettings where
  files : List String
  format : Option String
  base : Option String
  prefixes : List (String × String)
  queryTimeout : Option Duration
deriving DecidableEq, Inhabited

structure ServeSettings where
  bind : String
  path : String
  title : String
  description : String
  publicUrl : String
  favicon : String
  exampleQuery : Option String
  exampleQueries : Option String
  cors : Bool
  data : DataSettings
deriving DecidableEq, Inhabited

structure QuerySettings where
  query : Option String
  queryFile : Option String
  accept : Option String
  data : DataSettings
deriving DecidableEq, Inhabited

inductive Command
  | serve (settings : ServeSettings)
  | query (settings : QuerySettings)
deriving DecidableEq, Inhabited

structure Arguments where
  logFormat : LogFormat
  command : Command
deriving DecidableEq, Inhabited

/-! ## Refusals -/

/-- Why a command line is not one of a command. Help and version are asked for, not wrong. -/
inductive UsageError
  | displayHelp
  | displayVersion
  | nothingGiven
  | missingSubcommand
  | invalidSubcommand
  | unknownArgument
  | argumentConflict
  | invalidValue
  | tooManyValues
  | valueValidation (message : String)
deriving DecidableEq, Inhabited

namespace UsageError

def name : UsageError → String
  | displayHelp => "DisplayHelp"
  | displayVersion => "DisplayVersion"
  | nothingGiven => "DisplayHelpOnMissingArgumentOrSubcommand"
  | missingSubcommand => "MissingSubcommand"
  | invalidSubcommand => "InvalidSubcommand"
  | unknownArgument => "UnknownArgument"
  | argumentConflict => "ArgumentConflict"
  | invalidValue => "InvalidValue"
  | tooManyValues => "TooManyValues"
  | valueValidation _ => "ValueValidation"

def exitCode : UsageError → Nat
  | displayHelp => 0
  | displayVersion => 0
  | _ => 2

/-- The message about a value that its own reader has refused. -/
def message? : UsageError → Option String
  | valueValidation message => some message
  | _ => none

end UsageError

/-! ## Options -/

inductive Opt
  | logFormat
  | bind
  | path
  | file
  | format
  | base
  | title
  | description
  | publicUrl
  | favicon
  | exampleQuery
  | exampleQueries
  | declare
  | queryTimeout
  | cors
  | query
  | queryFile
  | accept
  | help
  | version
deriving DecidableEq, Inhabited

inductive Arity
  | flag
  | one
  | any
deriving DecidableEq, Inhabited

namespace Opt

def long : Opt → String
  | logFormat => "log-format"
  | bind => "bind"
  | path => "path"
  | file => "file"
  | format => "format"
  | base => "base"
  | title => "title"
  | description => "description"
  | publicUrl => "public-url"
  | favicon => "favicon"
  | exampleQuery => "example-query"
  | exampleQueries => "example-queries"
  | declare => "prefix"
  | queryTimeout => "query-timeout"
  | cors => "cors"
  | query => "query"
  | queryFile => "query-file"
  | accept => "accept"
  | help => "help"
  | version => "version"

def short? : Opt → Option Char
  | bind => some 'b'
  | file => some 'f'
  | query => some 'q'
  | help => some 'h'
  | version => some 'V'
  | _ => none

def arity : Opt → Arity
  | file => .any
  | cors => .flag
  | help => .flag
  | version => .flag
  | _ => .one

def isRepeatable : Opt → Bool
  | file => true
  | declare => true
  | _ => false

/-- The option as messages show it, with the name of its value. -/
def usage (o : Opt) : String :=
  let valueName := String.ofList (o.long.toList.map fun c => if c = '-' then '_' else c.toUpper)
  "--" ++ o.long ++ " <" ++ valueName ++ ">"

end Opt

/-! ## Values -/

/-- Reads a declaration `name=iri`, without the blanks around both parts. -/
def parsePrefix (text : String) : Except String (String × String) :=
  match text.toList.dropWhile (· != '=') with
  | [] => .error ("'" ++ text ++ "' should be of the form name=iri")
  | _ :: iri =>
    .ok (String.ofList (CharClass.trim (text.toList.takeWhile (· != '='))),
      String.ofList (CharClass.trim iri))

def parseSeconds (text : String) : Except String Duration :=
  match Seconds.parse text with
  | .ok d => .ok d
  | .error e => .error ("Invalid number of seconds '" ++ text ++ "': " ++ e.message)

def parseLogFormat? : String → Option LogFormat
  | "human" => some .human
  | "json" => some .json
  | _ => none

def refusal (o : Opt) (text message : String) : UsageError :=
  .valueValidation ("error: invalid value '" ++ text ++ "' for '" ++ o.usage ++ "': " ++ message)

/-- Refuses a value that the option does not take. File names are not empty. -/
def checkValue (o : Opt) (text : String) : Except UsageError Unit :=
  match o with
  | .declare =>
    match parsePrefix text with
    | .ok _ => .ok ()
    | .error message => .error (refusal o text message)
  | .queryTimeout =>
    match parseSeconds text with
    | .ok _ => .ok ()
    | .error message => .error (refusal o text message)
  | .logFormat => if (parseLogFormat? text).isSome then .ok () else .error .invalidValue
  | .file => if text.isEmpty then .error .invalidValue else .ok ()
  | .queryFile => if text.isEmpty then .error .invalidValue else .ok ()
  | .exampleQueries => if text.isEmpty then .error .invalidValue else .ok ()
  | _ => .ok ()

end SparqlBind.CommandLine
