import SparqlBind.Archive.Gzip
import SparqlBind.CommandLine.Arguments
import SparqlBind.Http.Server
import SparqlBind.Rdf.Loading
import SparqlBind.Startup

/-!
# The program

What the two commands do, as functions of the files and the input they find. The files are loaded in
their order, and the prefixes they declare come before those of the command line. The first failure
ends the program. Listening at an address is left to a host that can do it.
-/

namespace SparqlBind.CommandLine

/-- What a run of the program can read. -/
structure Environment where
  files : String → Option (List UInt8)
  input : List UInt8
  engine : Engine
  seed : String

inductive Failure
  | unreadableQuery (path : String)
  | inputNotText
  | unknownFormat (name : String)
  | noExtension (path : String)
  | unknownExtension (extension : String)
  | unopenedFile (path : String)
  | unloadedFile (path : String) (cause : LoadError)
  | unreadableArchive (path : String)
  | invalidPrefix (cause : Startup.InvalidPrefix)
  | invalidExamples (path : String)
  | invalidPublicUrl (url : String) (cause : IriError)
  | noPort
  | invalidPort
  | endpoint (cause : EndpointError)
deriving DecidableEq, Inhabited

namespace Failure

/-- The message of the failure and those of its causes. -/
def messages : Failure → List String
  | unreadableQuery path => ["Not able to read query file " ++ path]
  | inputNotText => ["stream did not contain valid UTF-8"]
  | unknownFormat name => ["The file format '" ++ name ++ "' is unknown"]
  | noExtension path => ["The path " ++ path ++ " has no extension to guess a file format from"]
  | unknownExtension e =>
    ["Not able to guess the file format from file name extension '" ++ e ++ "'",
      "The file extension '" ++ e ++ "' is unknown"]
  | unopenedFile path => ["Error while opening file " ++ path]
  | unloadedFile path cause => ("Error while loading file " ++ path) :: cause.messages
  | unreadableArchive path => ["Error while loading file " ++ path, "The archive is damaged"]
  | invalidPrefix cause => [cause.message, cause.cause.message]
  | invalidExamples path => ["The example queries file " ++ path ++ " is not valid JSON"]
  | invalidPublicUrl url cause =>
    ["The public URL " ++ url ++ " is not a valid IRI", cause.message]
  | noPort => ["invalid socket address"]
  | invalidPort => ["invalid port value"]
  | endpoint cause => [cause.message]

/-- The messages in one line, each after the one that it explains. -/
def chain (f : Failure) : String := String.intercalate ": " f.messages

/-- The failure as it is reported, with its causes on lines of their own. -/
def report (f : Failure) : String :=
  match f.messages with
  | [] => "Error"
  | [message] => "Error: " ++ message
  | [message, cause] => "Error: " ++ message ++ "\n\nCaused by:\n    " ++ cause
  | message :: causes =>
    "Error: " ++ message ++ "\n\nCaused by:\n" ++ String.intercalate "\n"
      (causes.zipIdx.map fun p => "    " ++ toString p.2 ++ ": " ++ p.1)

end Failure

abbrev Step := Except Failure

/-! ## Formats of files -/

def formatOfName (name : String) : Step RdfFormat :=
  match RdfFormat.ofName? name with
  | some format => .ok format
  | none => .error (.unknownFormat name)

def formatOfPath (path : String) : Step RdfFormat :=
  match FilePath.extension? path with
  | none => .error (.noExtension path)
  | some extension =>
    match RdfFormat.ofExtension? extension with
    | some format => .ok format
    | none => .error (.unknownExtension extension)

/-! ## Loading -/

structure Loaded where
  store : Store
  prefixes : List (String × String)

def isArchive (path : String) : Bool := FilePath.extension? path = some "gz"

/-- The format of a file: the given one, or the one its name tells. -/
def formatOf (given : Option RdfFormat) (path : String) : Step RdfFormat :=
  match given with
  | some format => .ok format
  | none =>
    formatOfPath (if isArchive path then FilePath.withoutExtension path else path)

def open? (e : Environment) (path : String) : Step (List UInt8) :=
  match e.files path with
  | some bytes => .ok bytes
  | none => .error (.unopenedFile path)

/-- The data of a file, without its compression. -/
def dataOf (path : String) (bytes : List UInt8) : Step (List UInt8) :=
  if isArchive path then
    match Gzip.decompress? bytes with
    | some data => .ok data
    | none => .error (.unreadableArchive path)
  else .ok bytes

def loadFile (e : Environment) (given : Option RdfFormat) (base : Option String) (loaded : Loaded)
    (path : String) (index : Nat) : Step Loaded := do
  let bytes ← open? e path
  let format ← formatOf given path
  let _ ← (Store.checkBase format base).mapError (Failure.unloadedFile path)
  let data ← dataOf path bytes
  let (store, prefixes) ← (loaded.store.load (e.seed ++ toString index ++ "_:") format base data).mapError
    (Failure.unloadedFile path)
  pure ⟨store, loaded.prefixes ++ prefixes⟩

/-- Loads the files into a new store. A wrong format name fails also without files. -/
def loadStore (e : Environment) (s : DataSettings) : Step Loaded := do
  let given ← s.format.mapM formatOfName
  s.files.zipIdx.foldlM (fun loaded p => loadFile e given s.base loaded p.1 p.2) ⟨.empty, []⟩

def startEndpoint (e : Environment) (s : DataSettings) (loaded : Loaded) : Step QueryEndpoint :=
  (Startup.endpoint e.engine loaded.store (loaded.prefixes ++ s.prefixes) s.queryTimeout).mapError
    Failure.invalidPrefix

/-! ## Answering one query -/

/-- The text of the query: the given one, a file, or else the input. -/
def queryText (e : Environment) (s : QuerySettings) : Step String :=
  match s.query, s.queryFile with
  | some text, _ => .ok text
  | none, some path =>
    match (e.files path).bind Utf8.decode? with
    | some text => .ok text
    | none => .error (.unreadableQuery path)
  | none, none =>
    match Utf8.decode? e.input with
    | some text => .ok text
    | none => .error .inputNotText

/-- The body of the answer to the query. -/
def answer (e : Environment) (s : QuerySettings) : ExceptT Failure Timed String := do
  let prepared : Step (String × QueryEndpoint) := do
    let text ← queryText e s
    let loaded ← loadStore e s.data
    pure (text, ← startEndpoint e s.data loaded)
  let (text, endpoint) ← Timed.ofExcept id prepared
  let outcome ← ((endpoint.query text s.accept).run : Timed (Except EndpointError QueryResponse))
  let response ← Timed.ofExcept .endpoint outcome
  pure response.body

/-! ## Starting a server -/

def defaultExampleQuery : String :=
  "PREFIX myfunctions: <https://w3id.org/um/sparql-functions/>\n\n" ++
    "SELECT ?concat WHERE \x7b\n" ++
    "    BIND(\"First\" AS ?first)\n" ++
    "    BIND(myfunctions:custom_concat(?first, \"last\") AS ?concat)\n\x7d"

def readExamples (e : Environment) : Option String → Step Json
  | none => .ok (.object [])
  | some path => do
    let bytes ← open? e path
    match (Utf8.decode? bytes).bind Json.parse? with
    | some examples => pure examples
    | none => throw (.invalidExamples path)

def checkPublicUrl (url : String) : Step Unit :=
  match Iri.check url with
  | .ok _ => .ok ()
  | .error cause => .error (.invalidPublicUrl url cause)

def digitsValue (digits : List Char) : Nat := digits.foldl (fun n d => 10 * n + (d.toNat - 48)) 0

def isPort (text : List Char) : Bool :=
  let digits := if text.head? = some '+' then text.drop 1 else text
  !digits.isEmpty && digits.all Char.isDigit && digitsValue digits ≤ 65535

/-- An address is a host and a port after the last colon. -/
def checkAddress (text : String) : Step Unit :=
  if !text.toList.contains ':' then .error .noPort
  else if isPort (text.toList.reverse.takeWhile (· != ':')).reverse then .ok ()
  else .error .invalidPort

/-- A server that is ready to listen. -/
structure Listening where
  address : String
  server : Server
  cors : Bool

def Listening.handle (l : Listening) (r : Request) : Timed (Option Response) :=
  if l.cors then CrossOrigin.allow l.server.handle r else l.server.handle r

def startServer (e : Environment) (s : ServeSettings) (started : Option Instant) : Step Listening := do
  let loaded ← loadStore e s.data
  let endpoint ← startEndpoint e s.data loaded
  let examples ← readExamples e s.exampleQueries
  checkPublicUrl s.publicUrl
  checkAddress s.bind
  let console : Console :=
    ⟨s.path, s.title, s.description, s.favicon, s.publicUrl,
      s.exampleQuery.getD defaultExampleQuery, examples⟩
  let label (name : String) : String := Chance.label ⟨e.seed ++ name⟩
  pure ⟨s.bind, ⟨endpoint, console, label "dataset", label "graph", started⟩, s.cors⟩

/-! ## Runs -/

/-- The files that a run may open. -/
def Command.paths : Command → List String
  | .serve s => s.data.files ++ s.exampleQueries.toList
  | .query s => s.queryFile.toList ++ s.data.files

/-- Whether a run reads its input. -/
def Command.readsInput : Command → Bool
  | .serve _ => false
  | .query s => s.query.isNone && s.queryFile.isNone

/-- How a run ends: with a text for the output, with a failure, ready to serve, or broken off because
the deadline of its query lies beyond the last instant. -/
inductive Outcome
  | written (text : String)
  | failed (failure : Failure)
  | refused (error : UsageError)
  | listening (server : Listening)
  | brokenOff

namespace Outcome

def exitCode : Outcome → Nat
  | written _ => 0
  | failed _ => 1
  | refused e => e.exitCode
  | listening _ => 0
  | brokenOff => 101

end Outcome

def versionText : String := "sparext " ++ Health.version ++ "\n"

def usageText : String :=
  "SPARQL endpoint with extension functions\n\nUsage: sparext [OPTIONS] <COMMAND>\n\n" ++
    "Commands:\n  serve  Start the SPARQL HTTP endpoint\n" ++
    "  query  Evaluate a SPARQL query against the given file(s) and write the results to stdout\n" ++
    "  help   Print this message or the help of the given subcommand(s)\n"

def run (e : Environment) (arguments : List String) (started : Option Instant) : Timed Outcome := do
  match parse arguments with
  | .error .displayVersion => pure (.written versionText)
  | .error .displayHelp => pure (.written usageText)
  | .error error => pure (.refused error)
  | .ok ⟨_, .query s⟩ => do
    match ← (answer e s).run with
    | .ok body => pure (.written body)
    | .error (.endpoint .deadlineOverflow) => pure .brokenOff
    | .error f => pure (.failed f)
  | .ok ⟨_, .serve s⟩ =>
    match startServer e s started with
    | .ok server => pure (.listening server)
    | .error f => pure (.failed f)

end SparqlBind.CommandLine
