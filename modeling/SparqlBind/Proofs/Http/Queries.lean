import SparqlBind.Http.Server
import SparqlBind.Proofs.Endpoint.Refusals
import SparqlBind.Proofs.Endpoint.Timeouts
import SparqlBind.Proofs.Http.FormData

/-!
# Ways of sending a query

A query travels in the URL, in a form or as the body itself, and the server answers the same to all of
them. An empty query takes another way through the server than no query at all, but both end at the
description of the service. The body itself is only looked at when the content type is text: with a
byte that is not visible in its parameters, the header counts as missing and the body as form data.
-/

namespace SparqlBind

/-- The first parameter with the name has the value. -/
def Url.Carries (u : Url) (name value : String) : Prop :=
  ∃ text pairs, u.query = some text ∧ FormData.Encodes (Utf8.encode text) pairs ∧
    pairs.lookup name = some value

theorem Url.Carries.parameter?_eq {u : Url} {name value : String} (h : u.Carries name value) :
    u.parameter? name = some value := by
  obtain ⟨text, pairs, hquery, hpairs, hvalue⟩ := h
  unfold parameter?
  rw [hquery, Option.bind_some, hpairs.field?_eq, hvalue]

theorem Url.carries_withParameter {u : Url} (h : u.query = none) (name value : String) :
    (u.withParameter name value).Carries name value := by
  refine ⟨FormData.encodePair (name, value), [(name, value)], ?_, ?_, ?_⟩
  · unfold withParameter
    rw [h]
  · have hrender := FormData.encodes_render [(name, value)]
    simpa only [FormData.render, List.map_cons, List.map_nil, String.intercalate_singleton]
      using hrender
  · simp

namespace Request

variable {r : Request} {path q : String}

/-- The content type is the one of queries in either case, alone or before parameters. -/
def DeclaresQuery (r : Request) : Prop :=
  ∃ value name parameters, r.headers.get? "content-type" = some value ∧
    Headers.text? value = some (name ++ parameters) ∧
    name.map Char.toLower = "application/sparql-query".toList ∧
    (parameters = [] ∨ ∃ rest, parameters = ';' :: rest)

theorem trim_of_no_blank {text : List Char} (h : ∀ c ∈ text, Headers.isBlank c = false) :
    Headers.trim text = text := by
  have hdrop : ∀ {l : List Char}, (∀ c ∈ l, Headers.isBlank c = false) →
      l.dropWhile Headers.isBlank = l := by
    intro l hl
    cases l with
    | nil => rfl
    | cons c l => exact List.dropWhile_cons_of_neg (by simp [hl c List.mem_cons_self])
  unfold Headers.trim
  rw [hdrop h, hdrop fun c hc => h c (List.mem_reverse.mp hc), List.reverse_reverse]

theorem DeclaresQuery.contentType?_eq (h : r.DeclaresQuery) :
    r.contentType? = some "application/sparql-query" := by
  obtain ⟨value, name, parameters, hvalue, htext, hname, hparameters⟩ := h
  have hletters : ∀ c ∈ name, c ≠ ';' ∧ c ≠ ' ' ∧ c ≠ '\t' := by
    intro c hc
    have hlower : c.toLower ∈ "application/sparql-query".toList := by
      rw [← hname]
      exact List.mem_map_of_mem hc
    refine ⟨?_, ?_, ?_⟩ <;> rintro rfl <;> revert hlower <;> decide
  have hblank : ∀ c ∈ name, Headers.isBlank c = false := by
    intro c hc
    simp [Headers.isBlank, hletters c hc]
  have hbefore : (name ++ parameters).takeWhile (· != ';') = name := by
    rw [List.takeWhile_append_of_pos fun c hc => bne_iff_ne.mpr (hletters c hc).1]
    rcases hparameters with rfl | ⟨rest, rfl⟩ <;> simp
  unfold contentType?
  rw [hvalue]
  simp only [Option.bind_eq_bind, Option.bind_some, htext]
  rw [hbefore, trim_of_no_blank hblank, hname]
  rfl

/-- The request brings the query to the path in one of four ways. -/
inductive Sends (path q : String) (r : Request) : Prop
  | get (hmethod : r.method = "GET") (hpath : r.url.path = path) (hurl : r.url.Carries "query" q)
  | url (hmethod : r.method = "POST") (hpath : r.url.path = path) (hurl : r.url.Carries "query" q)
    (hbody : r.body = [])
  | form (hmethod : r.method = "POST") (hpath : r.url.path = path)
    (hurl : r.url.parameter? "query" = none ∨ r.url.parameter? "query" = some "")
    (htype : r.contentType? ≠ some "application/sparql-query") {pairs : List (String × String)}
    (hform : FormData.Encodes r.body pairs) (hquery : pairs.lookup "query" = some q)
    (hlimit : r.body.length ≤ bodyLimit)
  | body (hmethod : r.method = "POST") (hpath : r.url.path = path)
    (hurl : r.url.parameter? "query" = none ∨ r.url.parameter? "query" = some "")
    (htype : r.DeclaresQuery) (hbody : r.body = Utf8.encode q) (hlimit : r.body.length ≤ bodyLimit)

theorem postedQuery_eq_bodyQuery
    (h : r.url.parameter? "query" = none ∨ r.url.parameter? "query" = some "") :
    r.postedQuery = r.bodyQuery := by
  unfold postedQuery
  rcases h with h | h
  · rw [h]
  · rw [h]
    rfl

/-- A body that is not there holds no query. -/
theorem bodyQuery_of_empty (h : r.body = []) :
    ∃ found : Option String, r.bodyQuery = .ok found ∧ (found.filter fun q => !q.isEmpty) = none := by
  unfold bodyQuery
  rw [h, List.take_nil]
  dsimp only
  split
  · rw [← Utf8.encode_empty, Utf8.decode?_encode]
    exact ⟨some "", rfl, rfl⟩
  · exact ⟨none, rfl, rfl⟩

/-- The posted query is the one sent, as far as its answer goes: nothing may stand for the empty one. -/
theorem Sends.postedQuery (h : r.Sends path q) (hmethod : r.method = "POST") :
    ∃ found : Option String, r.postedQuery = .ok found ∧
      (found.filter fun q => !q.isEmpty) = (some q).filter fun q => !q.isEmpty := by
  cases h with
  | get hget => exact absurd (hmethod.symm.trans hget) (by decide)
  | url _ _ hurl hbody =>
    by_cases hq : q.isEmpty
    · obtain ⟨found, hfound, hnone⟩ := bodyQuery_of_empty hbody
      refine ⟨found, ?_, ?_⟩
      · unfold Request.postedQuery
        rw [hurl.parameter?_eq]
        exact (if_pos hq).trans hfound
      · rw [hnone, Option.filter_some, if_neg (by simpa using hq)]
    · refine ⟨some q, ?_, rfl⟩
      unfold Request.postedQuery
      rw [hurl.parameter?_eq]
      exact if_neg hq
  | form _ _ hurl htype hform hquery hlimit =>
    refine ⟨some q, ?_, rfl⟩
    rw [postedQuery_eq_bodyQuery hurl]
    unfold bodyQuery
    rw [if_neg htype, List.take_of_length_le hlimit, hform.field?_eq, hquery]
  | body _ _ hurl htype hbody hlimit =>
    refine ⟨some q, ?_, rfl⟩
    rw [postedQuery_eq_bodyQuery hurl]
    unfold bodyQuery
    rw [if_pos htype.contentType?_eq, List.take_of_length_le hlimit, hbody]
    simp only [Utf8.decode?_encode]

end Request

namespace Server

variable {s : Server} {r r' : Request} {q : String}

/-- All that counts of a request is its `Accept` header. -/
theorem answer_congr {found found' : Option String}
    (haccept : r.headers.get? "accept" = r'.headers.get? "accept")
    (hfound : (found.filter fun q => !q.isEmpty) = found'.filter fun q => !q.isEmpty) :
    s.answer r found = s.answer r' found' := by
  unfold answer Request.accept?
  rw [haccept, hfound]

theorem respond_of_posted {found : Option String} (hmethod : r.method = "POST")
    (hpath : r.url.path = s.console.path) (hfound : r.postedQuery = .ok found) :
    s.respond r = s.answer r found := by
  unfold respond
  rw [if_neg (by simp [hmethod]), if_pos (by simp [hpath, hmethod]), hfound]
  exact pure_bind _ _

theorem respond_of_sends (h : r.Sends s.console.path q) : s.respond r = s.answer r (some q) := by
  have hposted : r.method = "POST" → r.url.path = s.console.path →
      s.respond r = s.answer r (some q) := by
    intro hmethod hpath
    obtain ⟨found, hfound, hfilter⟩ := h.postedQuery hmethod
    exact (respond_of_posted hmethod hpath hfound).trans (answer_congr rfl hfilter)
  cases h with
  | get hmethod hpath hurl =>
    unfold respond
    rw [if_pos (by simp [hpath, hmethod]), hurl.parameter?_eq]
  | url hmethod hpath | form hmethod hpath | body hmethod hpath => exact hposted hmethod hpath

/-- Two requests that send the same query with the same `Accept` header have the same answer. -/
theorem handle_of_sends (h : r.Sends s.console.path q) (h' : r'.Sends s.console.path q)
    (haccept : r.headers.get? "accept" = r'.headers.get? "accept") : s.handle r = s.handle r' := by
  unfold handle
  rw [respond_of_sends h, respond_of_sends h', answer_congr haccept rfl]

/-- What is sent back for the answer of the endpoint, if anything is. -/
def report : Except EndpointError QueryResponse → Option Response
  | .ok answer => some (.ofBody 200 answer.mediaType answer.body)
  | .error cause => (Failure.ofEndpoint cause).response?

theorem run_handle_of_sends {accept : Option String} (h : r.Sends s.console.path q)
    (hq : q.isEmpty = false) (haccept : r.accept? = .ok accept) (clock : Nat → Instant) :
    (s.handle r).run clock = report ((s.endpoint.query q accept).run.run clock) := by
  have hfilter : ((some q).filter fun q => !q.isEmpty) = some q := by
    rw [Option.filter_some, if_pos (by simp [hq])]
  have hanswer : s.answer r (some q) = s.evaluate q accept := by
    unfold answer
    rw [haccept]
    simp only [Timed.ofExcept, pure_bind, hfilter]
  have hhandle : s.handle r = (s.endpoint.query q accept).run.bind fun o => .done (report o) := by
    unfold handle
    rw [respond_of_sends h, hanswer]
    unfold evaluate
    change ((Timed.bind (Timed.bind _ _) _).bind _) = _
    rw [Timed.bind_assoc, Timed.bind_assoc]
    refine congrArg (Timed.bind _) (funext fun o => ?_)
    cases o <;> rfl
  rw [hhandle]
  exact Timed.run_bind_done clock _ _

theorem report_eq_none_iff {o : Except EndpointError QueryResponse} :
    report o = none ↔ o = .error .deadlineOverflow := by
  rcases o with (_ | _ | _ | _) | answer <;> simp [report, Failure.ofEndpoint, Failure.response?]

/-- A request with a query is left without a response when the query is read and its deadline lies
beyond the last instant, and in no other case. -/
theorem run_handle_eq_none_iff {accept : Option String} {limit : Duration}
    (h : r.Sends s.console.path q) (hq : q.isEmpty = false) (haccept : r.accept? = .ok accept)
    (htimeout : s.endpoint.timeout = some limit) (clock : Nat → Instant) :
    (s.handle r).run clock = none ↔
      (∃ query kind, classify q s.endpoint.namespaces = .ok (query, kind)) ∧
        Instant.last.total < (clock 0).total + limit.total := by
  rw [run_handle_of_sends h hq haccept, report_eq_none_iff, QueryEndpoint.query_breaksOff_iff htimeout]

end Server

namespace Sample

def server : Server where
  endpoint := endpoint []
  console := ⟨"/", "", "", "", "http://example.com/", "", .object []⟩
  datasetLabel := "d"
  graphLabel := "g"
  started := none

/-- A request to the server that asks for Turtle. -/
def turtleRequest (method : String) (url : Url) (contentType body : List UInt8) : Request :=
  ⟨method, url, ⟨[("accept", Utf8.encode "text/turtle"), ("content-type", contentType)]⟩, body⟩

theorem get?_turtleRequest (method : String) (url : Url) (contentType body : List UInt8) :
    (turtleRequest method url contentType body).headers.get? "accept" =
      some (Utf8.encode "text/turtle") := by
  have hname : "accept".toLower = "accept" := by cbv
  unfold Headers.get? turtleRequest
  rw [hname]
  rfl

def root : Url := ⟨"/", none⟩

def inUrl (method : String) : Request :=
  turtleRequest method (root.withParameter "query" "ASK {}") [] []

def inForm : Request :=
  turtleRequest "POST" root [] (Utf8.encode (FormData.render [("query", "ASK {}")]))

/-- The query as the body, with parameters of its content type. -/
def inBody (parameters : List UInt8) : Request :=
  turtleRequest "POST" root (Utf8.encode "application/SPARQL-query" ++ parameters)
    (Utf8.encode "ASK {}")

theorem sends_inUrl : (inUrl "GET").Sends "/" "ASK {}" :=
  .get rfl rfl (Url.carries_withParameter rfl _ _)

theorem sends_inUrl_post : (inUrl "POST").Sends "/" "ASK {}" :=
  .url rfl rfl (Url.carries_withParameter rfl _ _) rfl

theorem sends_inForm : inForm.Sends "/" "ASK {}" := by
  refine .form rfl rfl (.inl rfl) ?_ (FormData.encodes_render _) rfl ?_
  · have htype : inForm.contentType? = some "" := by cbv
    rw [htype]
    decide
  · cbv

theorem sends_inBody : (inBody (Utf8.encode "; q=1")).Sends "/" "ASK {}" := by
  refine .body rfl rfl (.inl rfl) ?_ rfl ?_
  · refine ⟨Utf8.encode "application/SPARQL-query" ++ Utf8.encode "; q=1",
      "application/SPARQL-query".toList, "; q=1".toList, ?_, ?_, by decide, .inr ⟨_, rfl⟩⟩ <;> cbv
  · cbv

end Sample

open Sample in
theorem Server.handle_of_sends_askAll :
    server.handle (inUrl "GET") = server.handle (inUrl "POST") ∧
    server.handle (inUrl "GET") = server.handle inForm ∧
    server.handle (inUrl "GET") = server.handle (inBody (Utf8.encode "; q=1")) :=
  have haccept : ∀ r : Request, r.headers.get? "accept" = some (Utf8.encode "text/turtle") →
      (inUrl "GET").headers.get? "accept" = r.headers.get? "accept" :=
    fun _ h => (get?_turtleRequest ..).trans h.symm
  ⟨handle_of_sends sends_inUrl sends_inUrl_post (haccept _ (get?_turtleRequest ..)),
    handle_of_sends sends_inUrl sends_inForm (haccept _ (get?_turtleRequest ..)),
    handle_of_sends sends_inUrl sends_inBody (haccept _ (get?_turtleRequest ..))⟩

open Sample in
/-- A parameter with the byte `0xE9` and the same query: it is refused as Turtle from the URL, while
from the body nothing is read and the service is described. -/
theorem Server.handle_hidden_parameter :
    (inUrl "GET").Sends "/" "ASK {}" ∧
    (inBody [59, 0xE9]).headers.get? "content-type" =
      some (Utf8.encode "application/SPARQL-query" ++ [59, 0xE9]) ∧
    (inBody [59, 0xE9]).body = Utf8.encode "ASK {}" ∧
    (inBody [59, 0xE9]).headers.get? "accept" = (inUrl "GET").headers.get? "accept" ∧
    ((server.handle (inUrl "GET")).run still).map Response.status = some 422 ∧
    ((server.handle (inBody [59, 0xE9])).run still).map Response.status = some 200 := by
  refine ⟨sends_inUrl, by cbv, rfl,
    (get?_turtleRequest ..).trans (get?_turtleRequest ..).symm, ?_, ?_⟩
  · have haccept : (inUrl "GET").accept? = .ok (some "text/turtle") := by cbv
    have hquery : (server.endpoint.query "ASK {}" (some "text/turtle")).run.run still =
        .error (.serialization (.unsupportedFormat .boolean .turtle)) :=
      QueryEndpoint.query_of_refuses (Engine.inForm_standard _ _) classify_askAll outcome_askAll rfl
    rw [run_handle_of_sends sends_inUrl (by decide) haccept, hquery]
    rfl
  · have haccept : (inBody [59, 0xE9]).accept? = .ok (some "text/turtle") := by cbv
    have hposted : (inBody [59, 0xE9]).postedQuery = .ok none := by cbv
    unfold handle
    rw [respond_of_posted rfl rfl hposted]
    unfold answer
    rw [haccept]
    rfl

end SparqlBind
