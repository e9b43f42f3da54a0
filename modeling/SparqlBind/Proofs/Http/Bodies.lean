import SparqlBind.Proofs.Http.Queries

/-!
# What is read of a body

A server does one thing for a request: it evaluates a text, describes itself, reports its health or
refuses. Of a body it sees only the first mebibyte, and what it does is what it does for these bytes.
A body within the limit is evaluated as the complete query or not at all. Beyond it, a form still
gives its complete query if a sign within the limit ends the field.
-/

namespace SparqlBind

namespace Request

variable {r : Request} {q : String}

/-- The complete query in the body: the body itself or the first field with the name. -/
def sentQuery? (r : Request) : Option String :=
  if r.contentType? = some "application/sparql-query" then Utf8.decode? r.body
  else FormData.field? "query" r.body

/-- The request with the part of its body that is read. -/
def clipped (r : Request) : Request := { r with body := r.body.take bodyLimit }

theorem clipped_eq_self (h : r.body.length ≤ bodyLimit) : r.clipped = r := by
  unfold clipped
  rw [List.take_of_length_le h]

theorem bodyQuery_clipped (r : Request) : r.clipped.bodyQuery = r.bodyQuery := by
  unfold bodyQuery clipped
  dsimp only
  rw [List.take_take, min_self]
  rfl

theorem postedQuery_clipped (r : Request) : r.clipped.postedQuery = r.postedQuery := by
  unfold postedQuery
  rw [bodyQuery_clipped]
  rfl

theorem bodyQuery_of_form (h : r.contentType? ≠ some "application/sparql-query") :
    r.bodyQuery = .ok r.clipped.sentQuery? := by
  have hclipped : r.clipped.contentType? ≠ some "application/sparql-query" := h
  have hsent : r.clipped.sentQuery? = FormData.field? "query" (r.body.take bodyLimit) :=
    if_neg hclipped
  rw [hsent]
  exact if_neg h

/-- Bytes that are no text, such as those of a character that is cut, are refused. -/
theorem bodyQuery_of_text (h : r.contentType? = some "application/sparql-query") :
    r.bodyQuery = match r.clipped.sentQuery? with
      | some q => .ok (some q)
      | none => .error (.badRequest "stream did not contain valid UTF-8") := by
  have hclipped : r.clipped.contentType? = some "application/sparql-query" := h
  have hsent : r.clipped.sentQuery? = Utf8.decode? (r.body.take bodyLimit) := if_pos hclipped
  rw [hsent]
  exact if_pos h

theorem sentQuery?_eq_some_iff (htype : r.contentType? = some "application/sparql-query") :
    r.sentQuery? = some q ↔ Utf8.encode q = r.body := by
  unfold sentQuery?
  rw [if_pos htype, Utf8.decode?_eq_some_iff]

/-- A field that ends within the limit is the one of the whole form. -/
theorem sentQuery?_of_field (htype : r.contentType? ≠ some "application/sparql-query")
    {before after : List UInt8} (hbody : r.clipped.body = before ++ 38 :: after)
    (hfield : FormData.field? "query" before = some q) :
    r.clipped.sentQuery? = some q ∧ r.sentQuery? = some q := by
  have hclipped : r.clipped.contentType? ≠ some "application/sparql-query" := htype
  have hwhole : r.body = before ++ 38 :: (after ++ r.body.drop bodyLimit) := by
    calc r.body = r.clipped.body ++ r.body.drop bodyLimit := (List.take_append_drop _ _).symm
      _ = before ++ 38 :: (after ++ r.body.drop bodyLimit) := by
        rw [hbody, List.append_assoc, List.cons_append]
  unfold sentQuery?
  rw [if_neg hclipped, if_neg htype, hbody, hwhole]
  exact ⟨FormData.field?_append hfield _, FormData.field?_append hfield _⟩

end Request

namespace Server

/-- What a server does for a request. -/
inductive Task
  | evaluate (query : String) (accept : Option String)
  | describe (accept : Option String)
  | health
  | refuse (e : HttpError)

def Task.perform (s : Server) : Task → Answer
  | evaluate query accept => s.evaluate query accept
  | describe accept => Timed.ofExcept Failure.refused (s.describe accept)
  | health => s.health
  | refuse e => throw (.refused e)

/-- The task is the evaluation of this query, or no query is evaluated because there is none or the
request is refused. -/
def Task.Serves (query : Option String) : Task → Prop
  | evaluate q _ => query = some q
  | describe _ => (query.filter fun q => !q.isEmpty) = none
  | health => False
  | refuse e => 400 ≤ e.status

def queryTask (r : Request) (query : Option String) : Task :=
  match r.accept? with
  | .error e => .refuse e
  | .ok accept =>
    match query.filter fun q => !q.isEmpty with
    | none => .describe accept
    | some q => .evaluate q accept

def task (s : Server) (r : Request) : Task :=
  if r.url.path = s.console.path && r.method = "GET" then queryTask r (r.url.parameter? "query")
  else if r.url.path = s.console.path && r.method = "POST" then
    match r.postedQuery with
    | .ok query => queryTask r query
    | .error e => .refuse e
  else if r.url.path = "/health" && r.method = "GET" then .health
  else .refuse ⟨404, r.method ++ " " ++ r.url.path ++ " is not supported by this server"⟩

variable {s : Server} {r : Request}

theorem perform_queryTask (r : Request) (query : Option String) :
    (queryTask r query).perform s = s.answer r query := by
  unfold queryTask answer
  cases r.accept? with
  | error e => rfl
  | ok accept =>
    rw [Timed.ofExcept, pure_bind]
    dsimp only
    cases query.filter fun q => !q.isEmpty <;> rfl

theorem perform_task (s : Server) (r : Request) : (s.task r).perform s = s.respond r := by
  unfold task respond
  split
  · exact perform_queryTask r _
  · split
    · cases r.postedQuery with
      | error e => rfl
      | ok query => exact (perform_queryTask r query).trans (pure_bind _ _).symm
    · split <;> rfl

theorem accept?_status {e : HttpError} (h : r.accept? = .error e) : 400 ≤ e.status := by
  unfold Request.accept? at h
  split at h
  · cases h
  · split at h
    · cases h
    · obtain rfl := Except.error.inj h
      exact le_refl 400

theorem serves_queryTask (r : Request) (query : Option String) : (queryTask r query).Serves query := by
  unfold queryTask
  cases haccept : r.accept? with
  | error e => exact accept?_status haccept
  | ok accept =>
    dsimp only
    cases hquery : query.filter fun q => !q.isEmpty with
    | none => exact hquery
    | some q => exact (Option.filter_eq_some_iff.mp hquery).1

theorem task_clipped (s : Server) (r : Request) : s.task r.clipped = s.task r := by
  unfold task
  rw [Request.postedQuery_clipped]
  rfl

theorem handle_clipped (s : Server) (r : Request) : s.handle r.clipped = s.handle r := by
  unfold handle
  rw [← perform_task s r.clipped, ← perform_task s r, task_clipped]

variable (hmethod : r.method = "POST")
  (hurl : r.url.parameter? "query" = none ∨ r.url.parameter? "query" = some "")
include hmethod hurl

theorem task_eq : s.task r =
    if r.url.path = s.console.path then
      match r.bodyQuery with
      | .ok query => queryTask r query
      | .error e => .refuse e
    else .refuse ⟨404, r.method ++ " " ++ r.url.path ++ " is not supported by this server"⟩ := by
  have hpost : r.method ≠ "GET" := fun hget => absurd (hmethod.symm.trans hget) (by decide)
  unfold task
  rw [Request.postedQuery_eq_bodyQuery hurl]
  by_cases hpath : r.url.path = s.console.path
  · simp [hpath, hmethod]
  · simp [hpath, hpost]

theorem serves_task : (s.task r).Serves r.clipped.sentQuery? := by
  rw [task_eq hmethod hurl]
  split
  · by_cases htype : r.contentType? = some "application/sparql-query"
    · rw [Request.bodyQuery_of_text htype]
      cases r.clipped.sentQuery? with
      | some q => exact serves_queryTask r (some q)
      | none => exact le_refl 400
    · rw [Request.bodyQuery_of_form htype]
      exact serves_queryTask r _
  · change 400 ≤ 404
    omega

theorem task_of_no_text (htype : r.contentType? = some "application/sparql-query")
    (h : r.clipped.sentQuery? = none) : ∃ e, s.task r = .refuse e ∧ 400 ≤ e.status := by
  rw [task_eq hmethod hurl, Request.bodyQuery_of_text htype, h]
  split
  · exact ⟨_, rfl, le_refl 400⟩
  · refine ⟨_, rfl, ?_⟩
    change 400 ≤ 404
    omega

/-- A posted body is answered as its first mebibyte is. A body within the limit has its complete query
evaluated or none at all, and so has a form whose query field ends within the limit. A body that is
itself the query has its first bytes evaluated, and is refused if they are no text. -/
theorem task_of_posted :
    s.respond r = (s.task r).perform s ∧
    s.task r = s.task r.clipped ∧ s.handle r = s.handle r.clipped ∧
    (s.task r).Serves r.clipped.sentQuery? ∧
    (r.body.length ≤ Request.bodyLimit → (s.task r).Serves r.sentQuery?) ∧
    (r.contentType? = some "application/sparql-query" →
      (∀ q, r.clipped.sentQuery? = some q ↔ Utf8.encode q = r.body.take Request.bodyLimit) ∧
      (r.clipped.sentQuery? = none → ∃ e, s.task r = .refuse e ∧ 400 ≤ e.status)) ∧
    (r.contentType? ≠ some "application/sparql-query" → ∀ before after q,
      r.body.take Request.bodyLimit = before ++ 38 :: after →
      FormData.field? "query" before = some q → (s.task r).Serves (some q) ∧ r.sentQuery? = some q) := by
  have hserves : (s.task r).Serves r.clipped.sentQuery? := serves_task hmethod hurl
  refine ⟨(perform_task s r).symm, (task_clipped s r).symm, (handle_clipped s r).symm, hserves,
    ?_, ?_, ?_⟩
  · intro hlimit
    rwa [Request.clipped_eq_self hlimit] at hserves
  · intro htype
    refine ⟨fun q => ?_, task_of_no_text hmethod hurl htype⟩
    have hclipped : r.clipped.contentType? = some "application/sparql-query" := htype
    exact Request.sentQuery?_eq_some_iff hclipped
  · intro htype before after q hbody hfield
    obtain ⟨hclipped, hwhole⟩ := Request.sentQuery?_of_field htype hbody hfield
    exact ⟨hclipped ▸ hserves, hwhole⟩

end Server

/-! ## Samples -/

namespace FormData

theorem length_encode_replicate (n : Nat) :
    (Utf8.encode (encode (String.ofList (List.replicate n '!')))).length = 3 * n := by
  have hbytes : Utf8.encode (String.ofList (List.replicate n '!')) = List.replicate n 33 := by
    have hsign : String.utf8EncodeChar '!' = [33] := by decide
    rw [Utf8.encode_ofList]
    induction n with
    | zero => rfl
    | succ n ih =>
      rw [List.replicate_succ, List.flatMap_cons, ih, hsign]
      rfl
  have hsign : ((encodeByte 33).flatMap String.utf8EncodeChar).length = 3 := by decide
  unfold encode
  rw [Utf8.encode_ofList, hbytes, List.flatMap_assoc, List.length_flatMap, List.map_replicate, hsign,
    List.sum_replicate, smul_eq_mul, Nat.mul_comm]

end FormData

namespace Sample

/-- Form data with a query after some padding. -/
def padded (n : Nat) (query : String) : List UInt8 :=
  Utf8.encode (FormData.render [("p", String.ofList (List.replicate n '!')), ("query", query)])

theorem length_padded (n : Nat) (query : String) :
    (padded n query).length = 3 * n + 9 + (Utf8.encode (FormData.encode query)).length := by
  have hname : (Utf8.encode (FormData.encode "p")).length = 1 := by cbv
  have hquery : (Utf8.encode (FormData.encode "query")).length = 5 := by cbv
  have hequals : (Utf8.encode "=").length = 1 := by cbv
  have hampersand : (Utf8.encode "&").length = 1 := by cbv
  unfold padded FormData.render FormData.encodePair
  rw [List.map_cons, List.map_cons, List.map_nil, String.intercalate_cons_cons,
    String.intercalate_singleton]
  simp only [Utf8.encode_append, List.length_append, FormData.length_encode_replicate, hname, hquery,
    hequals, hampersand]
  omega

theorem padded_append (n : Nat) (query more : String) :
    padded n (query ++ more) = padded n query ++ Utf8.encode (FormData.encode more) :=
  FormData.encode_render_append ..

/-- With as much padding as this the shorter query fills the mebibyte. -/
theorem length_padded_askAll : (padded 349519 "ASK {}").length = Request.bodyLimit := by
  have hquery : (Utf8.encode (FormData.encode "ASK {}")).length = 10 := by cbv
  rw [length_padded, hquery, Request.bodyLimit]

/-- A posted form that asks for comma-separated values. -/
def csvForm (body : List UInt8) : Request :=
  ⟨"POST", root, ⟨[("accept", Utf8.encode "text/csv")]⟩, body⟩

theorem accept?_csvForm (body : List UInt8) : (csvForm body).accept? = .ok (some "text/csv") := by
  cbv

theorem contentType?_csvForm (body : List UInt8) : (csvForm body).contentType? = none := by
  cbv

/-- A form whose query goes on after the first mebibyte. -/
def cutForm : Request := csvForm (padded 349519 ("ASK {}" ++ " VALUES () {}"))

theorem clipped_cutForm : cutForm.clipped = csvForm (padded 349519 "ASK {}") := by
  unfold cutForm Request.clipped csvForm
  rw [padded_append, List.take_left' length_padded_askAll]

theorem sentQuery?_csvForm (n : Nat) (query : String) :
    (csvForm (padded n query)).sentQuery? = some query := by
  unfold Request.sentQuery?
  rw [if_neg (by rw [contentType?_csvForm]; exact nofun)]
  exact (FormData.encodes_render _).field?_eq "query"

theorem sends_csvForm : (csvForm (padded 349519 "ASK {}")).Sends "/" "ASK {}" := by
  refine .form rfl rfl (.inl rfl) ?_ (FormData.encodes_render _) rfl length_padded_askAll.le
  rw [contentType?_csvForm]
  exact nofun

theorem bodyQuery_csvForm :
    (csvForm (padded 349519 "ASK {}")).bodyQuery = .ok (some "ASK {}") := by
  have hclipped := Request.clipped_eq_self (r := csvForm (padded 349519 "ASK {}"))
    length_padded_askAll.le
  rw [Request.bodyQuery_of_form (by rw [contentType?_csvForm]; exact nofun), hclipped,
    sentQuery?_csvForm]

def askNone : Query := ⟨.ask, .project (.values [] []) [], none, none⟩

theorem classify_askNone :
    classify "ASK {} VALUES () {}" (endpoint []).namespaces = .ok (askNone, .ask) := by cbv

theorem outcome_askNone : ((endpoint []).outcome askNone).run.run still = .ok (.boolean false) := rfl

end Sample

open Sample in
/-- A form within the limit, and one that is answered by the text its query starts with. -/
theorem Server.task_of_posted_askAll :
    (server.task inForm).Serves inForm.sentQuery? ∧
    server.handle cutForm = server.handle cutForm.clipped ∧
    (server.task cutForm).Serves cutForm.clipped.sentQuery? ∧
    cutForm.clipped.sentQuery? = some "ASK {}" := by
  obtain ⟨_, _, _, _, hlimit, _⟩ := task_of_posted (s := server) (r := inForm) rfl (.inl rfl)
  obtain ⟨_, _, hhandle, hserves, _⟩ := task_of_posted (s := server) (r := cutForm) rfl (.inl rfl)
  have hlength : inForm.body.length ≤ Request.bodyLimit := by cbv
  refine ⟨hlimit hlength, hhandle, hserves, ?_⟩
  rw [clipped_cutForm]
  exact sentQuery?_csvForm _ _

open Sample in
/-- A form is answered as the shorter one although its query goes on after the first mebibyte and has
another answer then. -/
theorem Server.handle_cutForm :
    cutForm.method = "POST" ∧ cutForm.url.parameter? "query" = none ∧
    cutForm.sentQuery? = some "ASK {} VALUES () {}" ∧
    server.task cutForm = .evaluate "ASK {}" (some "text/csv") ∧
    (server.handle cutForm).run still = some (.ofBody 200 "text/csv" "true") ∧
    (server.endpoint.query "ASK {} VALUES () {}" (some "text/csv")).run.run still =
      .ok ⟨"text/csv", "false"⟩ := by
  refine ⟨rfl, rfl, sentQuery?_csvForm _ _, ?_, ?_, ?_⟩
  · have hpath : (csvForm (padded 349519 "ASK {}")).url.path = server.console.path := rfl
    rw [← task_clipped, clipped_cutForm, task_eq rfl (.inl rfl), if_pos hpath, bodyQuery_csvForm]
    change queryTask _ _ = _
    unfold queryTask
    rw [accept?_csvForm]
    rfl
  · have hquery : (server.endpoint.query "ASK {}" (some "text/csv")).run.run still =
        .ok ⟨"text/csv", "true"⟩ :=
      QueryEndpoint.query_of_serialize classify_askAll outcome_askAll rfl
    rw [← handle_clipped, clipped_cutForm,
      run_handle_of_sends sends_csvForm (by decide) (accept?_csvForm _), hquery]
    rfl
  · exact QueryEndpoint.query_of_serialize classify_askNone outcome_askNone rfl

end SparqlBind
