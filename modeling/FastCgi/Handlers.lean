import FastCgi.NameValue
import FastCgi.Respond
import FastCgi.Cgicc

/-! # The request handlers

`doRequest` of `cocgi` and `onRequest` of `mucgi` turn a decoded request into the two maps the
backend is called with, encode what the backend returns, and send it: `mucgi` hands the response to
its connection, `cocgi` writes it to a non-blocking socket itself. The backend is a parameter, and
the outcomes of the system calls are data.

The main result is `handlers_completeNormally_iff`: a handler completes normally unless the body is
malformed multipart input. -/

namespace FastCgi

open StdString

/-! ## What the backend is called with -/

/-- `BackendProc::printRequest`, the part of the servers that is written anew for each
application: from the query map and the header map to the output. -/
abbrev Backend := ParamMap → ParamMap → Bytes

/-- The `BackendProc::printRequest` the servers come with. It appends the length of its page as a
character, not in decimal. -/
def printRequest : Backend := fun _ _ =>
  let content := literal "OK!!"
  literal "Content-Type: text/html; charset=UTF-8\r\n" ++ literal "Content-Length: " ++
    [content.length.toUInt8] ++ literal "\r\n\r\n" ++ content

/-- `params[name]`: `operator[]` of a map inserts an empty value for a name that is not there. -/
def ParamMap.access (params : ParamMap) (name : Bytes) : Bytes × ParamMap :=
  (params.getD name [], params.insertIfNew name [])

/-- `postData`, the body of the request. -/
def readPostData (stdin : Buffer) : Except Fault Bytes :=
  if 0 < stdin.readableBytes then do
    let (postData, _) ← stdin.retrieveAllAsString
    return postData
  else return []

/-- The first half of both handlers: the parameter map after the accesses to it, and what was
parsed from the body, the query string and the cookies. -/
def parseInput (params : ParamMap) (stdin : Buffer) : Except Fault (ParamMap × Cgicc) := do
  let (queryString, params) := params.access (literal "QUERY_STRING")
  let (queryType, params) := params.access (literal "CONTENT_TYPE")
  let (queryCookie, params) := params.access (literal "HTTP_COOKIE")
  let postData ← readPostData stdin
  let cgi ← Cgicc.new queryString queryCookie postData queryType
  return (params, cgi)

/-- `std::map` assignment through `operator[]`, for the entries of a list in order. -/
def assignAll {α : Type} (name value : α → Bytes) (m : ParamMap) (entries : List α) : ParamMap :=
  entries.foldl (fun m e => m.insert (name e) (value e)) m

/-- `std::map::insert`, for the entries of a list in order: a name that is there keeps its value. -/
def insertAll {α : Type} (name value : α → Bytes) (m : ParamMap) (entries : List α) : ParamMap :=
  entries.foldl (fun m e => m.insertIfNew (name e) (value e)) m

namespace Cocgi

/-- The query map of `doRequest`. -/
def queryMap (cgi : Cgicc) : ParamMap :=
  assignAll FormFile.name FormFile.data
    (assignAll FormEntry.name FormEntry.value ∅ cgi.formData) cgi.formFiles

/-- The header map of `doRequest`. -/
def headerMap (params : ParamMap) (cgi : Cgicc) : ParamMap :=
  assignAll HTTPCookie.name HTTPCookie.value params cgi.cookies

/-- The maps `doRequest` calls the backend with. -/
def backendInput (params : ParamMap) (stdin : Buffer) : Except Fault (ParamMap × ParamMap) := do
  let (params, cgi) ← parseInput params stdin
  return (queryMap cgi, headerMap params cgi)

end Cocgi

namespace Mucgi

/-- `boost::to_lower_copy`, in the "C" locale. -/
def toLowerCopy (s : Bytes) : Bytes := s.map fun c => if 65 ≤ c ∧ c ≤ 90 then c + 32 else c

/-- The query map of `onRequest`. -/
def queryMap (cgi : Cgicc) : ParamMap :=
  insertAll FormFile.name FormFile.data
    (insertAll (fun e : FormEntry => toLowerCopy e.name) FormEntry.value ∅ cgi.formData)
    cgi.formFiles

/-- The header map of `onRequest`: the parameters are copied one by one. -/
def headerMap (params : ParamMap) (cgi : Cgicc) : ParamMap :=
  assignAll HTTPCookie.name HTTPCookie.value
    (assignAll Prod.fst Prod.snd ∅ params.toList) cgi.cookies

/-- The maps `onRequest` calls the backend with. -/
def backendInput (params : ParamMap) (stdin : Buffer) : Except Fault (ParamMap × ParamMap) := do
  let (params, cgi) ← parseInput params stdin
  return (queryMap cgi, headerMap params cgi)

/-- `onRequest`: the response that is passed to `conn->send`. -/
def onRequest (backend : Backend) (params : ParamMap) (stdin : Buffer) : Except Fault Buffer := do
  let (qmap, header) ← backendInput params stdin
  respond (backend qmap header) .new

end Mucgi

/-! ## Writing to a non-blocking socket -/

/-- Values of `errno`. -/
abbrev Errno := Nat

/-- `EAGAIN`. -/
def eagain : Errno := 11

/-- `enum error_code_e`. -/
inductive ErrorCode
  | ok
  | socketRead
  | socketWrite
  | socketFinish
  | socketEagain
  deriving DecidableEq, Repr

/-- The outcome of a call of `write`. -/
inductive WriteOutcome
  /-- The socket takes `k + 1` bytes, or all that are offered when these are fewer. -/
  | accept (k : Nat)
  /-- The call fails and sets `errno`. -/
  | error (e : Errno)
  deriving DecidableEq, Repr

namespace Cocgi

/-- What is left behind by the write loop of `doRequest`: its result, the value of `errno`, and the
bytes the socket has taken. -/
structure Written where
  code : ErrorCode
  errno : Errno
  sent : Bytes
  deriving DecidableEq, Repr

/-- The write loop of `doRequest`, from the `i`-th call of `write` on. -/
def writeLoop (writes : Nat → WriteOutcome) : Nat → Nat → Buffer → Errno → Except Fault Written
  | 0, _, _, _ => .error .endlessLoop
  | fuel + 1, i, response, errno =>
    if 0 < response.readableBytes then
      match writes i with
      | .accept k => do
        let n := min (k + 1) response.readableBytes
        let taken ← response.peekBytes 0 n
        let response ← response.retrieve n
        -- what is left is offered to the next call
        let w ← writeLoop writes fuel (i + 1) response errno
        return { w with sent := taken ++ w.sent }
      | .error e =>
        if e = eagain then return ⟨.socketEagain, e, []⟩ else return ⟨.socketWrite, e, []⟩
    else return ⟨.ok, errno, []⟩

/-- `FastCgiCodec::doRequest`: the response it encodes, and what the write loop leaves behind. The
accesses to the parameters and the body also leave traces in the codec, which its caller clears at
once. -/
def doRequest (backend : Backend) (writes : Nat → WriteOutcome) (errno : Errno)
    (params : ParamMap) (stdin : Buffer) : Except Fault (Bytes × Written) := do
  let (qmap, header) ← backendInput params stdin
  let response ← respond (backend qmap header) .new
  let w ← writeLoop writes (response.readableBytes + 1) 0 response errno
  return (response.contents, w)

/-- Writing `len` bytes **fails with the error `e`**: some call of `write` fails with it, the calls
before it were taken by the socket, and bytes are left to write. -/
inductive WritingFails (writes : Nat → WriteOutcome) (e : Errno) : Nat → Nat → Prop
  | here {i len : Nat} : 0 < len → writes i = .error e → WritingFails writes e i len
  | later {i len k : Nat} : 0 < len → writes i = .accept k →
      WritingFails writes e (i + 1) (len - min (k + 1) len) → WritingFails writes e i len

/-! ## What the write loop leaves behind -/

/-- The result of the write loop when a call of `write` failed with `e`. -/
def failureCode (e : Errno) : ErrorCode := if e = eagain then .socketEagain else .socketWrite

/-- How writing the bytes `b` from the `i`-th call of `write` on ends: everything was taken and no
call failed, or a call failed with bytes left to write. -/
inductive Written.Ends (writes : Nat → WriteOutcome) (i : Nat) (errno : Errno) (b : Bytes) :
    Written → Prop
  | complete : (∀ e, ¬ WritingFails writes e i b.length) → Ends writes i errno b ⟨.ok, errno, b⟩
  | failed {sent rest : Bytes} (e : Errno) : WritingFails writes e i b.length → b = sent ++ rest →
      rest ≠ [] → Ends writes i errno b ⟨failureCode e, e, sent⟩

theorem not_writingFails_zero {writes : Nat → WriteOutcome} {e : Errno} {i : Nat} :
    ¬ WritingFails writes e i 0 := by
  intro h
  cases h with
  | here hpos _ => exact absurd hpos (Nat.lt_irrefl 0)
  | later hpos _ _ => exact absurd hpos (Nat.lt_irrefl 0)

/-- After a call that was taken, writing fails iff writing the rest does. -/
theorem writingFails_of_accept {writes : Nat → WriteOutcome} {e : Errno} {i len k : Nat}
    (h : WritingFails writes e i len) (hk : writes i = .accept k) :
    WritingFails writes e (i + 1) (len - min (k + 1) len) := by
  cases h with
  | here _ he =>
      rw [hk] at he
      cases he
  | later _ hk' h =>
      rw [hk] at hk'
      cases hk'
      exact h

/-- The call of `write` that fails is determined by the outcomes. -/
theorem writingFails_unique {writes : Nat → WriteOutcome} {e e' : Errno} {i len : Nat}
    (h : WritingFails writes e i len) (h' : WritingFails writes e' i len) : e = e' := by
  induction h with
  | here _ he =>
      cases h' with
      | here _ he' =>
          rw [he] at he'
          exact WriteOutcome.error.inj he'
      | later _ hk _ =>
          rw [he] at hk
          cases hk
  | later _ hk _ ih => exact ih (writingFails_of_accept h' hk)

/-- **The write loop** ends, and sends a prefix of the response. -/
theorem writeLoop_ok (writes : Nat → WriteOutcome) (fuel i : Nat) (response : Buffer)
    (errno : Errno) (hfuel : response.contents.length < fuel) :
    ∃ w, writeLoop writes fuel i response errno = .ok w ∧
      w.Ends writes i errno response.contents := by
  induction fuel generalizing i response with
  | zero => omega
  | succ fuel ih =>
      rw [writeLoop]
      by_cases hpos : 0 < response.readableBytes
      · rw [if_pos hpos]
        rw [← response.length_contents] at hpos
        cases hw : writes i with
        | error e =>
            -- the loop is left with the code for the error
            have hfail : WritingFails writes e i response.contents.length := .here hpos hw
            have hends : Written.Ends writes i errno response.contents ⟨failureCode e, e, []⟩ :=
              .failed e hfail rfl (List.length_pos_iff.mp hpos)
            refine ⟨_, ?_, hends⟩
            simp only [failureCode]
            split <;> rfl
        | accept k =>
            -- the socket takes the first bytes, the loop goes on with the rest
            have hmin : min (k + 1) response.contents.length ≤ response.contents.length :=
              min_le_right _ _
            obtain ⟨response', hretr, hc'⟩ := Buffer.retrieve_ok hmin
            have hpeek : response.peekBytes 0 (min (k + 1) response.contents.length)
                = .ok (response.contents.take (min (k + 1) response.contents.length)) := by
              rw [Buffer.peekBytes_ok (by omega), List.drop_zero]
            have hlen' : response'.contents.length
                = response.contents.length - min (k + 1) response.contents.length := by
              rw [hc', List.length_drop]
            obtain ⟨w, hloop, hends⟩ := ih (i + 1) response' (by omega)
            rw [response.length_contents] at hpeek hretr
            simp only [hpeek, hretr, hloop, bind, Except.bind]
            refine ⟨_, rfl, ?_⟩
            rw [← response.length_contents]
            cases hends with
            | complete hno =>
                have hall : response.contents.take (min (k + 1) response.contents.length) ++
                    response'.contents = response.contents := by
                  rw [hc', List.take_append_drop]
                simp only [hall]
                refine .complete fun e he => ?_
                exact hno e (hlen' ▸ writingFails_of_accept he hw)
            | failed e he hsplit hne =>
                rw [hlen'] at he
                refine .failed e (.later hpos hw he) ?_ hne
                rw [List.append_assoc, ← hsplit, hc', List.take_append_drop]
      · rw [if_neg hpos]
        -- everything has been taken
        have hnil : response.contents = [] := by
          rw [← List.length_eq_zero_iff, response.length_contents]
          omega
        rw [hnil]
        exact ⟨_, rfl, .complete fun e => not_writingFails_zero⟩

end Cocgi

/-! ## When the handlers complete normally -/

/-- The value of a parameter, empty when it was not sent. -/
def ParamMap.value (params : ParamMap) (name : String) : Bytes := params.getD (literal name) []

/-- Accessing one parameter does not change the value of another. -/
theorem getD_access {params : ParamMap} {name other : Bytes} (h : compare name other ≠ .eq) :
    (params.access name).2.getD other [] = params.getD other [] := by
  rw [ParamMap.access, Std.ExtTreeMap.getD_insertIfNew, if_neg (fun hc => h hc.1)]

/-- The three accesses of the handlers, with what they insert. -/
def ParamMap.accessed (params : ParamMap) : ParamMap :=
  ((params.insertIfNew (literal "QUERY_STRING") []).insertIfNew
    (literal "CONTENT_TYPE") []).insertIfNew (literal "HTTP_COOKIE") []

theorem readPostData_eq (stdin : Buffer) : readPostData stdin = .ok stdin.contents := by
  rw [readPostData]
  split
  · obtain ⟨stdin', hretr, -⟩ := Buffer.retrieveAsString_ok (b := stdin) le_rfl
    rw [stdin.length_contents] at hretr
    rw [Buffer.retrieveAllAsString, hretr, ← stdin.length_contents, List.take_length]
    rfl
  · have hnil : stdin.contents = [] := by
      rw [← List.length_eq_zero_iff, stdin.length_contents]
      omega
    rw [hnil]
    rfl

/-- Both handlers parse the body by its content type, the query string and the cookies. -/
theorem parseInput_eq (params : ParamMap) (stdin : Buffer) :
    parseInput params stdin = (do
      let cgi ← Cgicc.new (params.value "QUERY_STRING") (params.value "HTTP_COOKIE") stdin.contents
        (params.value "CONTENT_TYPE")
      return (params.accessed, cgi)) := by
  have htype : (params.access (literal "QUERY_STRING")).2.getD (literal "CONTENT_TYPE") []
      = params.value "CONTENT_TYPE" := getD_access (by decide)
  have hcookie : ((params.access (literal "QUERY_STRING")).2.access
      (literal "CONTENT_TYPE")).2.getD (literal "HTTP_COOKIE") [] = params.value "HTTP_COOKIE" :=
    (getD_access (by decide)).trans (getD_access (by decide))
  rw [← htype, ← hcookie, parseInput, readPostData_eq]
  rfl

/-- The body of a request is malformed multipart input. -/
def MalformedBody (params : ParamMap) (stdin : Bytes) : Prop :=
  Cgicc.Malformed (params.value "CONTENT_TYPE") stdin

theorem parseInput_ok {params : ParamMap} {stdin : Buffer}
    (h : ¬ MalformedBody params stdin.contents) :
    ∃ cgi, parseInput params stdin = .ok (params.accessed, cgi) ∧
      cgi.cookies = Cgicc.cookiesOf (params.value "HTTP_COOKIE") := by
  obtain ⟨cgi, hcgi, hcookies⟩ :=
    Cgicc.new_ok (params.value "QUERY_STRING") (params.value "HTTP_COOKIE") h
  rw [parseInput_eq, hcgi]
  exact ⟨cgi, rfl, hcookies⟩

theorem parseInput_error {params : ParamMap} {stdin : Buffer}
    (h : MalformedBody params stdin.contents) :
    parseInput params stdin = .error Cgicc.malformedInput := by
  rw [parseInput_eq, Cgicc.new_error _ _ h]
  rfl

namespace Cocgi

variable (backend : Backend) {params : ParamMap} {stdin : Buffer}

/-- The maps on a request that is parsed. -/
theorem backendInput_of_parse {params' : ParamMap} {cgi : Cgicc}
    (h : parseInput params stdin = .ok (params', cgi)) :
    backendInput params stdin = .ok (queryMap cgi, headerMap params' cgi) := by
  rw [backendInput, h]
  rfl

/-- `doRequest` **completes normally**: whatever the socket does, it returns, having encoded the
complete response and sent all of it, or a part of it when a call of `write` failed. -/
def CompletesNormally (params : ParamMap) (stdin : Buffer) : Prop :=
  ∃ qmap header, backendInput params stdin = .ok (qmap, header) ∧
    ∀ (writes : Nat → WriteOutcome) (errno : Errno), ∃ w,
      doRequest backend writes errno params stdin = .ok (answer (backend qmap header), w) ∧
        w.Ends writes 0 errno (answer (backend qmap header))

theorem completesNormally (h : ¬ MalformedBody params stdin.contents) :
    CompletesNormally backend params stdin := by
  obtain ⟨cgi, hparse, -⟩ := parseInput_ok h
  have hinput := backendInput_of_parse hparse
  refine ⟨_, _, hinput, fun writes errno => ?_⟩
  obtain ⟨response, hresp, hc⟩ := Codec.respond_ok Cocgi.order
    (backend (queryMap cgi) (headerMap params.accessed cgi)) .new
  rw [Buffer.contents_new, List.nil_append] at hc
  obtain ⟨w, hw, hends⟩ := writeLoop_ok writes (response.readableBytes + 1) 0 response errno
    (by rw [response.length_contents]; omega)
  refine ⟨w, ?_, hc ▸ hends⟩
  rw [doRequest, hinput]
  simp only [respond, bind, Except.bind, hresp, hw, hc]
  rfl

theorem doRequest_error (writes : Nat → WriteOutcome) (errno : Errno)
    (h : MalformedBody params stdin.contents) :
    doRequest backend writes errno params stdin = .error Cgicc.malformedInput := by
  rw [doRequest, backendInput, parseInput_error h]
  rfl

theorem not_completesNormally (h : MalformedBody params stdin.contents) :
    ¬ CompletesNormally backend params stdin := by
  rintro ⟨qmap, header, -, hrun⟩
  obtain ⟨w, hw, -⟩ := hrun (fun _ => .accept 0) 0
  rw [doRequest_error backend _ _ h] at hw
  cases hw

end Cocgi

namespace Mucgi

variable (backend : Backend) {params : ParamMap} {stdin : Buffer}

/-- The maps on a request that is parsed. -/
theorem backendInput_of_parse {params' : ParamMap} {cgi : Cgicc}
    (h : parseInput params stdin = .ok (params', cgi)) :
    backendInput params stdin = .ok (queryMap cgi, headerMap params' cgi) := by
  rw [backendInput, h]
  rfl

/-- `onRequest` **completes normally**: it returns, having handed the complete response to the
connection. -/
def CompletesNormally (params : ParamMap) (stdin : Buffer) : Prop :=
  ∃ qmap header response, backendInput params stdin = .ok (qmap, header) ∧
    onRequest backend params stdin = .ok response ∧
      response.contents = answer (backend qmap header)

theorem completesNormally (h : ¬ MalformedBody params stdin.contents) :
    CompletesNormally backend params stdin := by
  obtain ⟨cgi, hparse, -⟩ := parseInput_ok h
  have hinput := backendInput_of_parse hparse
  obtain ⟨response, hresp, hc⟩ := Codec.respond_ok Mucgi.order
    (backend (queryMap cgi) (headerMap params.accessed cgi)) .new
  rw [Buffer.contents_new, List.nil_append] at hc
  refine ⟨_, _, response, hinput, ?_, hc⟩
  rw [onRequest, hinput]
  exact hresp

theorem not_completesNormally (h : MalformedBody params stdin.contents) :
    ¬ CompletesNormally backend params stdin := by
  rintro ⟨qmap, header, response, -, hrun, -⟩
  rw [onRequest, backendInput, parseInput_error h] at hrun
  cases hrun

end Mucgi

/-- **The handlers of both servers complete normally iff the body is not malformed** multipart
input, with every backend that returns. -/
theorem handlers_completeNormally_iff (backend : Backend) (params : ParamMap) (stdin : Buffer) :
    (Cocgi.CompletesNormally backend params stdin ↔ ¬ MalformedBody params stdin.contents) ∧
      (Mucgi.CompletesNormally backend params stdin ↔ ¬ MalformedBody params stdin.contents) := by
  refine ⟨⟨fun h hbad => ?_, Cocgi.completesNormally backend⟩,
    ⟨fun h hbad => ?_, Mucgi.completesNormally backend⟩⟩
  · exact Cocgi.not_completesNormally backend hbad h
  · exact Mucgi.not_completesNormally backend hbad h

/-- A body of one part without a header, and the parameters of a request that sends it. -/
def headlessParams : ParamMap :=
  (∅ : ParamMap).insert (literal "CONTENT_TYPE") (literal "multipart/form-data; boundary=b")

/-- One part without a header, between a separator and a terminator. -/
def headlessBody : Bytes := literal "--b\r\n--b--\r\n"

/-- The exception of `parseMIME` escapes from both handlers. -/
theorem handlers_throw_headless :
    ∃ stdin, Buffer.new.append headlessBody = .ok stdin ∧
      ¬ Cocgi.CompletesNormally printRequest headlessParams stdin ∧
      ¬ Mucgi.CompletesNormally printRequest headlessParams stdin := by
  obtain ⟨stdin, happ, hc⟩ := Buffer.new.append_ok headlessBody
  have hbad : MalformedBody headlessParams stdin.contents := by
    rw [hc, Buffer.contents_new, List.nil_append]
    refine ⟨by decide, by decide, [], by decide, by decide⟩
  exact ⟨stdin, happ, Cocgi.not_completesNormally _ hbad, Mucgi.not_completesNormally _ hbad⟩

end FastCgi
