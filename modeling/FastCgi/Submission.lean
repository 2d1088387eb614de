import Mathlib.Data.List.Forall2
import FastCgi.Delivery
import FastCgi.Multipart

/-! # From a submitted form to the response

A client submits a form: fields in the query string, a body of fields or of fields and files, and
cookies. The web server passes it on as a request. What the client entered goes through all layers
then: the records, the parameters, the parsers of `cgicc`, and the maps that the backend is called
on.

`backendInput_submission` says which maps these are, for both servers, and `submissions_answered`
what happens when submissions arrive on a connection of `mucgi`, in any pieces: the responses are
the answers of the backend to what was submitted, in order. -/

namespace FastCgi

open StdString Assoc

/-! ## Submissions -/

/-- The body of a submission. -/
inductive Body
  | urlencoded (fields : List FormEntry)
  | multipart (boundary : Bytes) (parts : List Cgicc.Part)
  deriving DecidableEq, Repr

namespace Body

/-- The form fields in a body. -/
def fields : Body → List FormEntry
  | urlencoded es => es
  | multipart _ ps => Cgicc.fieldsOf ps

/-- The files in a body. -/
def files : Body → List FormFile
  | urlencoded _ => []
  | multipart _ ps => Cgicc.filesOf ps

/-- A body as it is sent with a content type. -/
def encode (contentType : Bytes) : Body → Bytes
  | urlencoded es => Cgicc.encodeForm es
  | multipart _ ps => Cgicc.encodeParts contentType ps

/-- The content types that go with a body. -/
def Announced (contentType : Bytes) : Body → Prop
  | urlencoded _ => Cgicc.isStandard contentType = true
  | multipart boundary _ =>
    Cgicc.isMultipart contentType = true ∧ Cgicc.boundaryOf contentType = boundary

/-- The content type that names the boundary goes with the body. -/
theorem announced_multipartWith (boundary : Bytes) (ps : List Cgicc.Part) :
    (multipart boundary ps).Announced (Cgicc.multipartWith boundary) :=
  ⟨Cgicc.isMultipart_multipartWith boundary, Cgicc.boundaryOf_multipartWith boundary⟩

/-- A body that can be sent. -/
def Sendable : Body → Prop
  | urlencoded _ => True
  | multipart boundary ps => Cgicc.Separates boundary ps ∧ ∀ p ∈ ps, p.Sendable

end Body

/-- What a client submits. -/
structure Submission where
  query : List FormEntry
  body : Body
  cookies : List HTTPCookie
  deriving DecidableEq, Repr

namespace Submission

variable (s : Submission)

/-- A submission that can be sent. -/
structure Sendable : Prop where
  body : s.body.Sendable
  cookies : ∀ c ∈ s.cookies, Cgicc.Baked c

/-- The parameters and the body of a request carry a submission. -/
structure CarriedBy (params : ParamMap) (stdin : Bytes) : Prop where
  query : params.value "QUERY_STRING" = Cgicc.encodeForm s.query
  cookies : params.value "HTTP_COOKIE" = Cgicc.encodeCookies s.cookies
  announced : s.body.Announced (params.value "CONTENT_TYPE")
  body : stdin = s.body.encode (params.value "CONTENT_TYPE")

/-- What is to be parsed from a submission. -/
def parsed : Cgicc := ⟨s.body.fields ++ s.query, s.body.files, s.cookies⟩

/-- The fields and files of a submission: those of the body, then those of the query string, then
the files. -/
def entries : List (Bytes × Bytes) :=
  (s.body.fields ++ s.query).map (fun e => (e.name, e.value)) ++
    s.body.files.map fun f => (f.name, f.data)

/-- The same, with the names of fields in lower case. -/
def lowerEntries : List (Bytes × Bytes) :=
  (s.body.fields ++ s.query).map (fun e => (Mucgi.toLowerCopy e.name, e.value)) ++
    s.body.files.map fun f => (f.name, f.data)

variable {s}

/-- The body is read back. -/
theorem parseFormInput_body (cgi : Cgicc) {contentType : Bytes} {body : Body}
    (h : body.Sendable) (hannounced : body.Announced contentType) :
    Cgicc.parseFormInput cgi (body.encode contentType) contentType = .ok { cgi with
      formData := cgi.formData ++ body.fields
      formFiles := cgi.formFiles ++ body.files } := by
  cases body with
  | urlencoded es =>
      rw [Body.encode, Cgicc.parseFormInput_encodeForm cgi es hannounced, Body.fields, Body.files,
        List.append_nil]
  | multipart boundary ps =>
      obtain ⟨hm, rfl⟩ := hannounced
      exact Cgicc.parseFormInput_encodeParts cgi hm h.2 h.1

theorem cookiesOf_submitted {cs : List HTTPCookie} (h : ∀ c ∈ cs, Cgicc.Baked c) :
    Cgicc.cookiesOf (Cgicc.encodeCookies cs) = cs := by
  cases cs with
  | nil => decide
  | cons c cs => exact Cgicc.cookiesOf_encodeCookies h [] (.inl rfl) (List.cons_ne_nil c cs)

/-- **A submission is read back** from the request that carries it. -/
theorem parseInput_submission (h : s.Sendable) {params : ParamMap} {stdin : Buffer}
    (hcarried : s.CarriedBy params stdin.contents) :
    parseInput params stdin = .ok (params.accessed, s.parsed) := by
  have hquery : ∀ cgi, Cgicc.parseFormInput cgi (Cgicc.encodeForm s.query) Cgicc.standardType =
      .ok { cgi with formData := cgi.formData ++ s.query } := fun cgi =>
    Cgicc.parseFormInput_encodeForm cgi s.query (by decide)
  rw [parseInput_eq, hcarried.query, hcarried.cookies, hcarried.body, Cgicc.new,
    parseFormInput_body _ h.body hcarried.announced]
  simp only [bind, Except.bind, hquery, Cgicc.parseCookies_eq, cookiesOf_submitted h.cookies]
  rfl

end Submission

/-- The maps of a parsed submission: `cocgi` keeps the last value of a name, `mucgi` the first. -/
theorem Cocgi.getElem?_queryMap_parsed (s : Submission) (name : Bytes) :
    (Cocgi.queryMap s.parsed)[name]? = lastOf name s.entries := by
  rw [Cocgi.queryMap_eq, getElem?_overwrite, Std.ExtTreeMap.getElem?_empty, Option.or_none]
  rfl

theorem Mucgi.queryMap_parsed (s : Submission) :
    Mucgi.queryMap s.parsed = insertNew ∅ s.lowerEntries := by
  rw [Mucgi.queryMap, insertAll_eq_insertNew, insertAll_eq_insertNew, insertNew, insertNew,
    insertNew, Submission.lowerEntries, List.foldl_append]
  rfl

theorem Mucgi.getElem?_queryMap_parsed (s : Submission) (name : Bytes) :
    (Mucgi.queryMap s.parsed)[name]? = firstOf name s.lowerEntries := by
  rw [Mucgi.queryMap_parsed, getElem?_insertNew, Std.ExtTreeMap.getElem?_empty, Option.none_or]

theorem Cocgi.getElem?_headerMap_parsed (s : Submission) (params : ParamMap) (name : Bytes) :
    (Cocgi.headerMap params s.parsed)[name]? =
      (lastOf name (s.cookies.map HTTPCookie.entry)).or params[name]? := by
  rw [Cocgi.headerMap, assignAll_eq_overwrite, getElem?_overwrite]
  rfl

/-- A form with a field in the query string, and with a field and a file in the body. -/
def sampleSubmission : Submission where
  query := [⟨literal "Title", literal "a&b=c"⟩]
  body := .multipart (literal "b0") [.field ⟨literal "Title", literal "x\r\ny"⟩,
    .file ⟨literal "pic", literal "1+1.png", literal "image/png", [0, 45, 45, 98, 13, 10]⟩]
  cookies := [⟨literal "sid", literal "7"⟩, ⟨literal "sid", literal "8"⟩]

/-- The parameters of a request that carries it. -/
def sampleParams : ParamMap :=
  ((((∅ : ParamMap).insert
    (literal "QUERY_STRING") (Cgicc.encodeForm sampleSubmission.query)).insert
    (literal "HTTP_COOKIE") (literal "sid=7; sid=8")).insert
    (literal "CONTENT_TYPE") (literal "multipart/form-data; boundary=b0"))

theorem sampleSubmission_sendable : sampleSubmission.Sendable where
  body := by
    refine ⟨⟨by decide, ⟨98, by decide, by decide⟩, by decide +kernel⟩, ?_⟩
    intro p hp
    simp only [List.mem_cons, List.not_mem_nil, or_false] at hp
    rcases hp with rfl | rfl
    · exact ⟨by decide, by decide, by decide, fun f hf => by cases hf⟩
    · refine ⟨by decide, by decide, by decide, ?_⟩
      rintro f hf
      cases hf
      exact ⟨by decide, by decide, by decide, by decide⟩
  cookies := by
    have hname : 61 ∉ literal "sid" ∧ 59 ∉ literal "sid" := by decide
    have hspace : ∀ b ∈ (literal "sid").head?, Cgicc.isspace b = false := by
      intro b hb
      rw [show (literal "sid").head? = some 115 from by decide] at hb
      obtain rfl := Option.mem_some_iff.mp hb
      decide
    intro c hc
    simp only [sampleSubmission, List.mem_cons, List.not_mem_nil, or_false] at hc
    rcases hc with rfl | rfl
    · exact ⟨hname.1, hname.2, by decide, hspace⟩
    · exact ⟨hname.1, hname.2, by decide, hspace⟩

namespace Mucgi

variable (backend : Backend)

/-- A request is answered with `r`. -/
def Replies (params : ParamMap) (body r : Bytes) : Prop :=
  ∀ stdin : Buffer, stdin.contents = body →
    ∃ response, onRequest backend params stdin = .ok response ∧ response.contents = r

/-- What a chunk makes the connection do, and the responses to it: none if no request is complete,
or one. The connection is not shut down. -/
inductive Answered : List Action → List Bytes → Prop
  | quiet : Answered [] []
  | request {params : ParamMap} {body r : Bytes} (h : Replies backend params body r) :
    Answered [.callback params body] [r]

/-- A parsed submission is answered by the backend. -/
theorem replies_submission {s : Submission} (h : s.Sendable) {params : ParamMap} {body : Bytes}
    (hcarried : s.CarriedBy params body) :
    Replies backend params body
      (answer (backend (queryMap s.parsed) (headerMap params.accessed s.parsed))) := by
  rintro stdin rfl
  have hinput := backendInput_of_parse (Submission.parseInput_submission h hcarried)
  obtain ⟨response, hresp, hc⟩ := Codec.respond_ok Mucgi.order
    (backend (queryMap s.parsed) (headerMap params.accessed s.parsed)) .new
  rw [Buffer.contents_new, List.nil_append] at hc
  refine ⟨response, ?_, hc⟩
  rw [onRequest, hinput]
  exact hresp

namespace TcpConnection

variable {backend} {conn : TcpConnection} {v : Accum × Bytes}

/-- The connection is up, and its codec holds `v`. -/
structure Open (conn : TcpConnection) (v : Accum × Bytes) : Prop where
  state : conn.state = .connected
  reading : conn.reading = true
  view : conn.codec.view = v

theorem open_established : established.Open (Request.clean false, []) := ⟨rfl, rfl, Codec.view_new⟩

/-- An outcome of `write` that leaves the connection whole. -/
def Sound : WriteOutcome → Prop
  | .accept _ => True
  | .error e => e ≠ epipe ∧ e ≠ econnreset

/-- An event that neither closes nor breaks the connection. -/
def Calm : Event → Prop
  | .readable (.bytes data) write => data ≠ [] ∧ Sound write
  | .readable (.error _) _ => True
  | .writable _ => True
  | .hangUp => False

theorem accepted_sendTraffic (hstate : conn.state = .connected) {write : WriteOutcome}
    (hsound : Sound write) (data : Bytes) : (conn.sendTraffic data write).accepted = [data] := by
  have hwhole : (conn.writeDirectly data.length write).2 = false := by
    unfold writeDirectly
    split
    · cases write with
      | accept k => rfl
      | error e => simp [hsound.1, hsound.2]
    · rfl
  simp [sendTraffic, hstate, hwhole]

/-- **Bytes arrive**: the connection stays up, and accepts the response to the request that is
complete with them. -/
theorem Open.readable (h : conn.Open v) {data : Bytes} (hdata : data ≠ []) {write : WriteOutcome}
    (hsound : Sound write) {rs : List Bytes} (hrs : Answered backend (deliverSpec v data).1 rs) :
    ∃ conn', (conn.handleEvent backend (.readable (.bytes data) write)).outcome = .ok conn' ∧
      conn'.Open (deliverSpec v data).2 ∧
      (conn.traffic backend (.readable (.bytes data) write)).accepted = rs := by
  obtain ⟨codec, hrecv, hview⟩ := Cocgi.receiveFd_ok conn.codec data
  obtain ⟨c, (hparse : parseRequest codec = .ok c), hview'⟩ := codec.parse_view Mucgi.order
  have hfed : c.view = recordFormat.feed Accum.handle v data := by
    rw [hview', hview, ← h.view, Framing.Format.feed, List.append_nil]
    rfl
  have haccum : c.accum = (recordFormat.feed Accum.handle v data).1 := congrArg Prod.fst hfed
  have hinput : c.input = (recordFormat.feed Accum.handle v data).2 := congrArg Prod.snd hfed
  have hlength := List.length_pos_iff.mpr hdata
  rw [traffic, if_pos ⟨h.reading, hlength⟩, response_eq backend hrecv hparse]
  simp only [deliverSpec, ← haccum, ← hinput] at hrs ⊢
  simp only [handleEvent, if_pos h.reading, handleRead, if_pos hlength, hrecv, onMessage, hparse]
  by_cases hgot : c.gotRequest = true
  · have hgot' : c.accum.gotRequest = true := hgot
    rw [actionsOf, if_pos hgot'] at hrs
    rw [settle, if_pos hgot', if_pos hgot, if_pos hgot]
    -- the connection is kept, or it would be shut down
    cases hkeep : c.keepConn with
    | false =>
        rw [show c.accum.keepConn = false from hkeep] at hrs
        cases hrs
    | true =>
        rw [show c.accum.keepConn = true from hkeep, if_pos rfl] at hrs
        cases hrs with
        | request hreplies =>
            obtain ⟨response, hrequest, rfl⟩ := hreplies c.stdin rfl
            obtain ⟨conn₁, hsend, hsame⟩ := send_ok { conn with codec } response write
            have hrequest' : onRequest backend c.params c.stdin = .ok response := hrequest
            simp only [hrequest', bind, Except.bind, hsend, if_true, Except.toOption,
              Option.map_some]
            exact ⟨_, rfl, ⟨hsame.state.trans h.state, hsame.reading.trans h.reading,
              c.view_clearRequest⟩, accepted_sendTraffic h.state hsound response.contents⟩
  · have hgot' : ¬ c.accum.gotRequest = true := hgot
    rw [actionsOf, if_neg hgot'] at hrs
    rw [settle, if_neg hgot', if_neg hgot, if_neg hgot]
    cases hrs
    exact ⟨_, rfl, ⟨h.state, h.reading, rfl⟩, rfl⟩

/-- **Events without bytes** leave the connection up, and bring no response. -/
theorem Open.calm (backend : Backend) (h : conn.Open v) {event : Event} (hcalm : Calm event)
    (hbytes : ∀ data write, event ≠ .readable (.bytes data) write) :
    ∃ conn', (conn.handleEvent backend event).outcome = .ok conn' ∧ conn'.Open v ∧
      (conn.traffic backend event).accepted = [] := by
  cases event with
  | hangUp => cases hcalm
  | writable write =>
      obtain ⟨conn', hwrite, hsame⟩ := conn.handleWrite_ok write
      refine ⟨conn', hwrite, ⟨hsame.state.trans h.state, hsame.reading.trans h.reading, ?_⟩, ?_⟩
      · rw [hsame.codec, h.view]
      · cases write <;> rfl
  | readable read write =>
      cases read with
      | bytes data => exact absurd rfl (hbytes data write)
      | error e =>
          refine ⟨conn, ?_, h, rfl⟩
          simp [handleEvent, h.reading, handleRead]

/-- **Whole runs**: the responses are those to the requests that are complete, in order. -/
theorem Open.run (h : conn.Open v) {events : List Event} (hcalm : ∀ event ∈ events, Calm event)
    {rss : List (List Bytes)}
    (hrss : List.Forall₂ (Answered backend) (runSpec v (received events)).1 rss) :
    ∃ conn', (conn.run backend events).2 = .ok conn' ∧
      conn'.Open (runSpec v (received events)).2 ∧
      (conn.runTraffic backend events).accepted = rss.flatten := by
  induction events generalizing conn v rss with
  | nil =>
      cases hrss
      exact ⟨conn, rfl, h, rfl⟩
  | cons event events ih =>
      have hevent := hcalm event List.mem_cons_self
      have hrest : ∀ e ∈ events, Calm e := fun e he => hcalm e (List.mem_cons_of_mem event he)
      -- an event without bytes, and a chunk
      by_cases hbytes : ∃ data write, event = .readable (.bytes data) write
      · obtain ⟨data, write, rfl⟩ := hbytes
        rw [received, if_neg hevent.1] at hrss ⊢
        obtain ⟨rs, rss', hrs, hrss', rfl⟩ := List.forall₂_cons_left_iff.mp hrss
        obtain ⟨conn₁, hturn, hopen₁, hnow⟩ := h.readable hevent.1 hevent.2 hrs
        obtain ⟨conn', hrun, hopen', hlater⟩ := ih hopen₁ hrest hrss'
        refine ⟨conn', ?_, hopen', ?_⟩
        · simp only [TcpConnection.run, hturn, hrun]
        · simp only [runTraffic, hturn, hnow, hlater, List.flatten_cons]
      · have hnone : ∀ data write, event ≠ .readable (.bytes data) write :=
          fun data write heq => hbytes ⟨data, write, heq⟩
        have hskip : received (event :: events) = received events := by
          cases event with
          | hangUp => cases hevent
          | writable write => rfl
          | readable read write =>
              cases read with
              | bytes data => exact absurd rfl (hnone data write)
              | error e => rfl
        rw [hskip] at hrss ⊢
        obtain ⟨conn₁, hturn, hopen₁, hnow⟩ := h.calm backend hevent hnone
        obtain ⟨conn', hrun, hopen', hlater⟩ := ih hopen₁ hrest hrss
        refine ⟨conn', ?_, hopen', ?_⟩
        · simp only [TcpConnection.run, hturn, hrun]
        · simp only [runTraffic, hturn, hnow, hlater, List.nil_append]

end TcpConnection

/-- A submission that arrives as a request on a connection that is to be kept. -/
structure Post where
  submission : Submission
  delivery : Delivery
  sendable : submission.Sendable
  carried : submission.CarriedBy delivery.request.params delivery.request.body
  keepConn : delivery.request.flags = Codec.kFcgiKeepConn

namespace Post

variable (p : Post)

/-- The query map that is to be made of a submission: the first value of each name. -/
def queryMap : ParamMap := insertNew ∅ p.submission.lowerEntries

/-- The header map: the cookies over the parameters. -/
def headerMap : ParamMap :=
  overwrite p.delivery.request.params.accessed (p.submission.cookies.map HTTPCookie.entry)

/-- The response that is to be sent. -/
def response : Bytes := answer (backend p.queryMap p.headerMap)

/-- The responses during the chunks of a submission: that to it with the last one. -/
def responses : List (List Bytes) :=
  List.replicate (p.delivery.chunks.length - 1) [] ++ [[p.response backend]]

theorem replies : Replies backend p.delivery.request.params p.delivery.request.body
    (p.response backend) := by
  have hreplies := replies_submission backend p.sendable p.carried
  rwa [queryMap_parsed, headerMap_eq, Cocgi.headerMap, assignAll_eq_overwrite] at hreplies

theorem flatten_responses (posts : List Post) :
    (posts.flatMap (responses backend)).flatten = posts.map (response backend) := by
  induction posts with
  | nil => rfl
  | cons p posts ih =>
      rw [List.flatMap_cons, List.flatten_append, ih, List.map_cons]
      simp [responses]

theorem answered : List.Forall₂ (Answered backend) (actions p.delivery) (p.responses backend) := by
  have hquiet : ∀ n,
      List.Forall₂ (Answered backend) (List.replicate n []) (List.replicate n []) := by
    intro n
    induction n with
    | zero => exact .nil
    | succ n ih => exact .cons .quiet ih
  have hlast : Answered backend (answerTo p.delivery) [p.response backend] := by
    rw [answerTo, if_pos p.keepConn]
    exact .request (p.replies backend)
  exact List.rel_append (hquiet _) (.cons hlast .nil)

end Post

open TcpConnection (Calm received established open_established queue_established)

/-- A form with one field, submitted as a body. -/
def fieldSubmission : Submission where
  query := []
  body := .urlencoded [⟨literal "Name", literal "x y"⟩]
  cookies := []

/-- A request that carries it. -/
def fieldRequest : Request :=
  .single 1 ⟨literal "CONTENT_TYPE", Cgicc.standardType, .oneByte, .oneByte, by decide, by decide⟩
    (literal "Name=x+y") (by decide) (by decide) (by decide)

/-- The request arrives in two pieces. -/
def fieldPost : Post where
  submission := fieldSubmission
  delivery :=
    { request := fieldRequest
      chunks := [fieldRequest.bytes.take 40, fieldRequest.bytes.drop 40]
      chunks_ne_nil := by decide
      flatten_chunks := by decide }
  sendable := ⟨trivial, by simp [fieldSubmission]⟩
  carried :=
    { query := by decide
      cookies := by decide
      announced := by
        show Cgicc.isStandard (fieldRequest.params.value "CONTENT_TYPE") = true
        decide
      body := by decide }
  keepConn := by decide

end Mucgi

end FastCgi
