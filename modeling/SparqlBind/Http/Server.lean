import SparqlBind.Http.ConsolePage
import SparqlBind.Http.Health
import SparqlBind.Http.Message
import SparqlBind.Http.ServiceDescription

/-!
# Answering requests

A query comes in the URL, or in the body of a POST as it is or as form data; of a body only the first
mebibyte is read. A request without a query, or with an empty one, is answered with the console page or
the service description. All other paths and methods are refused, except the health document. A query
whose deadline lies beyond the last instant breaks the connection off, and there is no response.
-/

namespace SparqlBind

structure Server where
  endpoint : QueryEndpoint
  console : Console
  /-- The names of the two blank nodes of the service description. -/
  datasetLabel : String
  graphLabel : String
  /-- When the server started, if it counts its uptime. -/
  started : Option Instant

/-- A refused request: the status of the response and the message of its body. -/
structure HttpError where
  status : Nat
  message : String
deriving DecidableEq, Inhabited

namespace HttpError

def badRequest (message : String) : HttpError := ⟨400, message⟩

def internal (message : String) : HttpError := ⟨500, message⟩

def ofEndpoint (e : EndpointError) : HttpError := ⟨e.statusCode, e.message⟩

def toResponse (e : HttpError) : Response :=
  .ofBody e.status "application/json" (Json.render (.object [("message", .string e.message)]))

end HttpError

namespace Request

def bodyLimit : Nat := 0x100000

/-- The value of the `Accept` header without the blanks around it. -/
def accept? (r : Request) : Except HttpError (Option String) :=
  match r.headers.get? "accept" with
  | none => .ok none
  | some value =>
    match Headers.text? value with
    | some text => .ok (some (String.ofList (Headers.trim text)))
    | none => .error (.badRequest "The Accept header should be a valid ASCII string")

/-- The content type without its parameters, in lower case. -/
def contentType? (r : Request) : Option String := do
  let text ← Headers.text? (← r.headers.get? "content-type")
  pure (String.ofList ((Headers.trim (text.takeWhile (· != ';'))).map Char.toLower))

/-- The query in the body of a POST request. -/
def bodyQuery (r : Request) : Except HttpError (Option String) :=
  let bytes := r.body.take bodyLimit
  if r.contentType? = some "application/sparql-query" then
    match Utf8.decode? bytes with
    | some text => .ok (some text)
    | none => .error (.badRequest "stream did not contain valid UTF-8")
  else .ok (FormData.field? "query" bytes)

/-- The query of a POST request: the one in the URL unless it is empty, else the one in the body. -/
def postedQuery (r : Request) : Except HttpError (Option String) :=
  match r.url.parameter? "query" with
  | none => r.bodyQuery
  | some query => if query.isEmpty then r.bodyQuery else .ok (some query)

end Request

namespace Server

/-- Why a request is not answered: it is refused, or its query breaks off. -/
inductive Failure
  | refused (e : HttpError)
  | brokenOff

namespace Failure

def ofEndpoint : EndpointError → Failure
  | .deadlineOverflow => brokenOff
  | e => refused (.ofEndpoint e)

def response? : Failure → Option Response
  | refused e => some e.toResponse
  | brokenOff => none

end Failure

abbrev Answer := ExceptT Failure Timed Response

def serviceDescription (s : Server) : ServiceDescription :=
  ⟨⟨s.console.publicUrl⟩, s.console.title, s.console.description⟩

def descriptionTriples (s : Server) : List Triple :=
  s.serviceDescription.triples s.endpoint.registry s.datasetLabel s.graphLabel

/-- The answer to a request without a query. -/
def describe (s : Server) (accept : Option String) : Except HttpError Response :=
  if "text/html".toList.isPrefixOf (accept.getD "").toList then
    .ok (.ofBody 200 "text/html; charset=utf-8" s.console.page)
  else if accept = some "text/turtle" then
    .ok (.ofBody 200 "text/turtle" (Turtle.render ServiceDescription.prefixes s.descriptionTriples))
  else
    match RdfXml.render ServiceDescription.prefixes s.descriptionTriples with
    | .ok body => .ok (.ofBody 200 "application/xml" body)
    | .error message => .error (.internal message)

def evaluate (s : Server) (query : String) (accept : Option String) : Answer := do
  let outcome ← ((s.endpoint.query query accept).run : Timed (Except EndpointError QueryResponse))
  let answer ← Timed.ofExcept Failure.ofEndpoint outcome
  pure (.ofBody 200 answer.mediaType answer.body)

/-- The answer to a request for the endpoint's path, with the query it brought. -/
def answer (s : Server) (r : Request) (query : Option String) : Answer := do
  let accept ← Timed.ofExcept Failure.refused r.accept?
  match query.filter fun q => !q.isEmpty with
  | none => Timed.ofExcept Failure.refused (s.describe accept)
  | some query => s.evaluate query accept

def uptime (s : Server) : Timed Nat := do
  match s.started with
  | none => pure 0
  | some start => do pure ((← Timed.now).seconds - start.seconds).toNat

def health (s : Server) : Answer := do
  let uptime ← (s.uptime : Timed Nat)
  pure (.ofBody 200 "application/json" (Health.ofEndpoint s.endpoint uptime).toJson.render)

def respond (s : Server) (r : Request) : Answer :=
  if r.url.path = s.console.path && r.method = "GET" then s.answer r (r.url.parameter? "query")
  else if r.url.path = s.console.path && r.method = "POST" then do
    s.answer r (← Timed.ofExcept Failure.refused r.postedQuery)
  else if r.url.path = "/health" && r.method = "GET" then s.health
  else throw (.refused ⟨404, r.method ++ " " ++ r.url.path ++ " is not supported by this server"⟩)

/-- The response to a request, unless the connection breaks off. -/
def handle (s : Server) (r : Request) : Timed (Option Response) := do
  match ← (s.respond r).run with
  | .ok response => pure (some response)
  | .error e => pure e.response?

end Server

/-! ## Requests from other origins -/

namespace CrossOrigin

/-- Sends back what a browser asks to be allowed. -/
def preflight (r : Request) : Response :=
  let echo (asked allowed : String) (h : Headers) : Headers :=
    match r.headers.get? asked with
    | some value => h.append allowed value
    | none => h
  let headers := echo "access-control-request-headers" "access-control-allow-headers"
    (echo "access-control-request-method" "access-control-allow-methods" .empty)
  ⟨204, headers, ""⟩

/-- A handler that lets pages of every origin read its answers. -/
def allow (handler : Request → Timed (Option Response)) (r : Request) : Timed (Option Response) := do
  let response ← if r.method = "OPTIONS" then pure (some (preflight r)) else handler r
  if (r.headers.get? "origin").isSome then
    pure (response.map fun response => { response with
      headers := response.headers.append "access-control-allow-origin" (Utf8.encode "*") })
  else pure response

end CrossOrigin

end SparqlBind
