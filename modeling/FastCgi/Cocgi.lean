import FastCgi.Request
import FastCgi.Handlers

/-! # The connection of `cocgi`

A coroutine of `cocgi` serves one connection at a time: it waits for input, calls
`FastCgiCodec::readData`, and by the code this returns goes on or closes the connection.
`Cocgi.readData` is that call and `Cocgi.serve` the loop of `readwrite_routine` around it. What the
system calls return, and what is left in `errno` before a call by whatever ran in between, is data
(`Cocgi.Call`).

`Cocgi.readData_bytes` reduces a call that reads bytes to feeding the accumulators, and
`Cocgi.finish_of_got` and `Cocgi.finish_of_not_got` say what follows when a request is complete and
when it is not. -/

namespace FastCgi

namespace Cocgi

/-- The outcome of `readv` in `Buffer::readFd`. -/
inductive ReadOutcome
  /-- The bytes that were read, none of them at the end of the stream. -/
  | bytes (data : Bytes)
  /-- The call fails and sets `errno`. -/
  | error (e : Errno)
  deriving DecidableEq, Repr

/-- What one call of `readData` meets: the value of `errno` before it, and the outcomes of its
system calls. -/
structure Call where
  errno : Errno
  read : ReadOutcome
  writes : Nat → WriteOutcome

/-- What one call of `readData` did. -/
structure Report where
  /-- What `doRequest` was called on. -/
  invoked : Option (ParamMap × Bytes)
  /-- The response that was encoded. -/
  response : Bytes
  /-- The bytes the socket took. -/
  sent : Bytes
  /-- The code that is returned, the value of `errno`, and the codec. -/
  outcome : Except Fault (ErrorCode × Errno × Codec)

/-- A report of a call that did not get to `doRequest`. -/
def Report.quiet (outcome : Except Fault (ErrorCode × Errno × Codec)) : Report :=
  ⟨none, [], [], outcome⟩

variable (backend : Backend)

/-- `m_buf.readFd`, when bytes were read. -/
def receiveFd (c : Codec) (data : Bytes) : Except Fault Codec := do
  let buf ← c.buf.readFd data
  return { c with buf }

/-- The code `readData` returns after `doRequest`: `ERR_SOCKET_FINISH` when all went well and the
connection is not to be kept. -/
def returnCode (keepConn : Bool) (ret : ErrorCode) : ErrorCode :=
  if !keepConn && ret = .ok then .socketFinish else ret

/-- The part of `readData` behind `parseFcgiPackage`. -/
def finish (call : Call) (c : Codec) : Report :=
  if c.gotRequest then
    let invoked := some (c.params, c.stdin.contents)
    match doRequest backend call.writes call.errno c.params c.stdin with
    | .error f => ⟨invoked, [], [], .error f⟩
    | .ok (response, w) =>
      ⟨invoked, response, w.sent, .ok (returnCode c.keepConn w.code, w.errno, c.clearRequest)⟩
  -- the request is not complete yet, and still `ERR_SOCKET_READ` is returned
  else .quiet (.ok (.socketRead, call.errno, c))

/-- The code for a call that read nothing, by what is then in `errno`. -/
def idleCode (errno : Errno) : ErrorCode := if errno = eagain then .socketEagain else .socketRead

/-- `FastCgiCodec::readData`. The source declares `int errno`, which the macro of that name turns
into a declaration of the function behind it: what is read and compared is the `errno` of the
thread, and at the end of the stream `readv` does not set it. -/
def readData (call : Call) (c : Codec) : Report :=
  match call.read with
  | .bytes data =>
    if 0 < data.length then
      match receiveFd c data >>= parseFcgiPackage with
      | .error f => .quiet (.error f)
      | .ok c => finish backend call c
    -- the peer has closed its end
    else .quiet (.ok (idleCode call.errno, call.errno, c))
  | .error e => .quiet (.ok (idleCode e, e, c))

/-- `MAX_RECYCLE_COUNT`. -/
def maxRecycleCount : Nat := 60

/-- What `readwrite_routine` does with the code `readData` returned: go on with a new count of idle
rounds, or close the connection. -/
def nextRecycle (ret : ErrorCode) (recycle : Nat) : Option Nat :=
  match ret with
  | .ok => some 0
  | .socketEagain => if maxRecycleCount ≤ recycle then none else some (recycle + 1)
  | _ => none

/-- How a run of the loop stands after its last call. -/
inductive Standing
  /-- The connection is still open. -/
  | serving (c : Codec) (recycle : Nat)
  /-- The connection has been closed. -/
  | closed
  /-- The process has been ended by an assertion or an exception. -/
  | ended (f : Fault)

/-- The loop of `readwrite_routine` over the calls of `readData`: the reports of the calls that are
made, and how things stand then. -/
def serve : Codec → Nat → List Call → List Report × Standing
  | c, recycle, [] => ([], .serving c recycle)
  | c, recycle, call :: calls =>
    let report := readData backend call c
    match report.outcome with
    | .error f => ([report], .ended f)
    | .ok (ret, _, c) =>
      match nextRecycle ret recycle with
      | none => ([report], .closed)
      | some recycle =>
        let (reports, standing) := serve c recycle calls
        (report :: reports, standing)

/-! ## Calls that read bytes -/

theorem receiveFd_ok (c : Codec) (data : Bytes) :
    ∃ c', receiveFd c data = .ok c' ∧ c'.view = (c.accum, c.input ++ data) := by
  obtain ⟨buf, hread, hc⟩ := c.buf.readFd_ok data
  refine ⟨{ c with buf }, ?_, ?_⟩
  · rw [receiveFd, hread]
    rfl
  · simp only [Codec.view, Codec.input, hc]
    rfl

/-- **A call that reads bytes** feeds them to the accumulators and goes on from there. -/
theorem readData_bytes {call : Call} {data : Bytes} (hread : call.read = .bytes data)
    (hdata : data ≠ []) (c : Codec) :
    ∃ c', readData backend call c = finish backend call c' ∧
      c'.view = recordFormat.feed Accum.handle c.view data := by
  obtain ⟨c₁, hrecv, hview₁⟩ := receiveFd_ok c data
  obtain ⟨c', hparse, hview⟩ := c₁.parse_view Cocgi.order
  refine ⟨c', ?_, ?_⟩
  · have hall : receiveFd c data >>= parseFcgiPackage = .ok c' := by
      rw [hrecv]
      exact hparse
    simp only [readData, hread, if_pos (List.length_pos_iff.mpr hdata), hall]
  · rw [hview, hview₁]
    simp only [Codec.view, Framing.Format.feed, List.append_nil]

theorem finish_of_not_got {call : Call} {c : Codec} (h : c.gotRequest = false) :
    finish backend call c = .quiet (.ok (.socketRead, call.errno, c)) := by
  rw [finish, h]
  rfl

/-- A complete request with a malformed body ends the process. -/
theorem finish_of_malformed {call : Call} {c : Codec} (h : c.gotRequest = true)
    (hbad : MalformedBody c.params c.stdin.contents) :
    finish backend call c
      = ⟨some (c.params, c.stdin.contents), [], [], .error Cgicc.malformedInput⟩ := by
  rw [finish, if_pos h]
  simp only [doRequest_error backend call.writes call.errno hbad]

/-- Any other complete request is answered, as far as the socket takes the response. -/
theorem finish_of_got (call : Call) {c : Codec} (h : c.gotRequest = true)
    (hok : ¬ MalformedBody c.params c.stdin.contents) :
    ∃ (qmap header : ParamMap) (w : Written),
      w.Ends call.writes 0 call.errno (answer (backend qmap header)) ∧
        finish backend call c = ⟨some (c.params, c.stdin.contents), answer (backend qmap header),
          w.sent, .ok (returnCode c.keepConn w.code, w.errno, c.clearRequest)⟩ := by
  obtain ⟨qmap, header, -, hrun⟩ := completesNormally backend hok
  obtain ⟨w, hw, hends⟩ := hrun call.writes call.errno
  refine ⟨qmap, header, w, hends, ?_⟩
  rw [finish, if_pos h]
  simp only [hw]

/-- Whatever comes of it, a complete request is handed to `doRequest`. -/
theorem invoked_finish_of_got {call : Call} {c : Codec} (h : c.gotRequest = true) :
    (finish backend call c).invoked = some (c.params, c.stdin.contents) := by
  by_cases hbad : MalformedBody c.params c.stdin.contents
  · rw [finish_of_malformed backend h hbad]
  · obtain ⟨qmap, header, w, -, hfin⟩ := finish_of_got backend call h hbad
    rw [hfin]

/-- What a call of `readData` can come to: no request was complete; the request ended the process;
or its response was encoded and written, as far as the socket took it. -/
theorem readData_cases (call : Call) (c : Codec) :
    (∃ ret errno c', readData backend call c = .quiet (.ok (ret, errno, c'))) ∨
      (∃ invoked, readData backend call c
        = ⟨some invoked, [], [], .error Cgicc.malformedInput⟩) ∨
      ∃ (invoked : ParamMap × Bytes) (response : Bytes) (w : Written) (keepConn : Bool)
          (c' : Codec),
        w.Ends call.writes 0 call.errno response ∧
          readData backend call c = ⟨some invoked, response, w.sent,
            .ok (returnCode keepConn w.code, w.errno, c')⟩ := by
  cases hread : call.read with
  | error e => exact .inl ⟨_, _, _, by simp only [readData, hread]; rfl⟩
  | bytes data =>
      by_cases hdata : data = []
      · exact .inl ⟨_, _, _, by simp only [readData, hread, hdata]; rfl⟩
      · obtain ⟨c', hcall, -⟩ := readData_bytes backend hread hdata c
        rw [hcall]
        cases hgot : c'.gotRequest with
        | false => exact .inl ⟨_, _, _, finish_of_not_got backend hgot⟩
        | true =>
            by_cases hbad : MalformedBody c'.params c'.stdin.contents
            · exact .inr (.inl ⟨_, finish_of_malformed backend hgot hbad⟩)
            · obtain ⟨qmap, header, w, hends, hfin⟩ := finish_of_got backend call hgot hbad
              exact .inr (.inr ⟨_, _, w, _, _, hends, hfin⟩)

/-! ## Requests that arrive in several reads -/

/-- The calls of `readData` during a delivery, one for each chunk; `env` is what each of them meets
otherwise. -/
def deliveryCalls (d : Delivery) (env : Nat → Errno × (Nat → WriteOutcome)) : List Call :=
  d.chunks.mapIdx fun i chunk => ⟨(env i).1, .bytes chunk, (env i).2⟩

/-- What a call shows to the outside: the bytes it sent, and the code it returned. -/
def Report.shown (r : Report) : Bytes × Except Fault ErrorCode := (r.sent, r.outcome.map (·.1))

/-- A run over the calls of a delivery **tolerates the split**: the connection is served up to the
last chunk, `doRequest` is called on that chunk and no other, on the whole request, and ends as it
would if the request had arrived in one chunk. -/
def ToleratesSplit (d : Delivery) (env : Nat → Errno × (Nat → WriteOutcome)) (c : Codec)
    (recycle : Nat) : Prop :=
  (serve backend c recycle (deliveryCalls d env)).1.map Report.invoked
      = List.replicate (d.chunks.length - 1) none ++ [some (d.request.params, d.request.body)] ∧
    (serve backend c recycle (deliveryCalls d env)).1.getLast?.map Report.shown
      = some (readData backend
          { errno := (env (d.chunks.length - 1)).1
            read := .bytes d.request.bytes
            writes := (env (d.chunks.length - 1)).2 } c).shown

/-- A chunk that leaves the request incomplete makes `readwrite_routine` close the connection. -/
theorem serve_of_incomplete (call : Call) {data : Bytes} (hread : call.read = .bytes data)
    (hdata : data ≠ []) {c : Codec}
    (h : (recordFormat.feed Accum.handle c.view data).1.gotRequest = false) (recycle : Nat)
    (calls : List Call) :
    ∃ c', serve backend c recycle (call :: calls)
      = ([.quiet (.ok (.socketRead, call.errno, c'))], .closed) := by
  obtain ⟨c', hcall, hview⟩ := readData_bytes backend hread hdata c
  have hgot : c'.gotRequest = false := by
    have hacc : c'.accum = (recordFormat.feed Accum.handle c.view data).1 := congrArg Prod.fst hview
    rw [← hacc] at h
    exact h
  refine ⟨c', ?_⟩
  rw [serve, hcall, finish_of_not_got backend hgot]
  rfl

/-- A codec between two requests: it holds nothing of an earlier one. -/
def Idle (c : Codec) : Prop := ∃ keepConn, c.view = (Request.clean keepConn, [])

theorem idle_new : Idle Codec.new := ⟨false, Codec.view_new⟩

/-- Feeding a whole request at once. -/
theorem feed_bytes (q : Request) (keepConn : Bool) :
    recordFormat.feed Accum.handle (Request.clean keepConn, []) q.bytes
      = (⟨true, q.flags == Codec.kFcgiKeepConn, q.body, [], q.params⟩, []) := by
  rw [← q.handle_records keepConn]
  exact recordFormat.feed_of_append_eq Accum.handle rfl

/-- A request that arrives in one chunk is complete, and all the codec holds. -/
theorem readData_of_whole (call : Call) {q : Request} (hread : call.read = .bytes q.bytes)
    {c : Codec} (hidle : Idle c) :
    ∃ c', readData backend call c = finish backend call c' ∧
      c'.view = (⟨true, q.flags == Codec.kFcgiKeepConn, q.body, [], q.params⟩, []) := by
  obtain ⟨keepConn, hview₀⟩ := hidle
  obtain ⟨c', hcall, hview⟩ := readData_bytes backend hread q.bytes_ne_nil c
  rw [hview₀, feed_bytes] at hview
  exact ⟨c', hcall, hview⟩

/-- It is handed to `doRequest` as it is. -/
theorem invoked_of_whole {call : Call} {q : Request} (hread : call.read = .bytes q.bytes)
    {c : Codec} (hidle : Idle c) :
    (readData backend call c).invoked = some (q.params, q.body) := by
  obtain ⟨c', hcall, hview⟩ := readData_of_whole backend call hread hidle
  have hacc : c'.accum = ⟨true, q.flags == Codec.kFcgiKeepConn, q.body, [], q.params⟩ :=
    congrArg Prod.fst hview
  rw [hcall, invoked_finish_of_got backend (congrArg Accum.gotRequest hacc)]
  exact congrArg some (Prod.ext (congrArg Accum.params hacc) (congrArg Accum.stdin hacc))

/-- The first report of a run that makes at least one call. -/
theorem serve_singleton (call : Call) (c : Codec) (recycle : Nat) :
    (serve backend c recycle [call]).1 = [readData backend call c] := by
  rw [serve]
  split
  · rfl
  · split <;> rfl

variable {d : Delivery} {env : Nat → Errno × (Nat → WriteOutcome)} {c : Codec} {recycle : Nat}

theorem toleratesSplit_of_length_eq_one (hidle : Idle c) (h : d.chunks.length = 1) :
    ToleratesSplit backend d env c recycle := by
  obtain ⟨chunk, hchunk⟩ := List.length_eq_one_iff.mp h
  have hbytes : chunk = d.request.bytes := by
    rw [← d.flatten_chunks, hchunk, List.flatten_singleton]
  have hcalls : deliveryCalls d env = [⟨(env 0).1, .bytes d.request.bytes, (env 0).2⟩] := by
    rw [deliveryCalls, hchunk, ← hbytes]
    rfl
  rw [ToleratesSplit, hcalls, serve_singleton, h]
  refine ⟨?_, rfl⟩
  rw [List.map_singleton, invoked_of_whole backend rfl hidle]
  rfl

theorem not_toleratesSplit_of_two_le (hidle : Idle c) (h : 2 ≤ d.chunks.length) :
    ¬ ToleratesSplit backend d env c recycle := by
  obtain ⟨keepConn, hview⟩ := hidle
  rintro ⟨hinvoked, -⟩
  match hchunks : d.chunks, h with
  | chunk :: next :: chunks, _ =>
    have hne := d.chunks_ne_nil
    have hbytes := d.flatten_chunks
    rw [hchunks] at hne hbytes
    -- the second chunk is not empty, so the first one leaves the request incomplete
    have hrest : (next :: chunks).flatten ≠ [] := by
      rw [List.flatten_cons]
      intro hnil
      exact hne next (by simp) (List.append_eq_nil_iff.mp hnil).1
    have hquiet : (recordFormat.feed Accum.handle c.view chunk).1.gotRequest = false := by
      rw [hview]
      exact d.request.endsRequest_records.not_gotRequest_feed rfl hbytes hrest
    -- the first chunk closes the connection, so there is one report where two or more are due
    have hcalls : ∃ calls, deliveryCalls d env
        = ⟨(env 0).1, .bytes chunk, (env 0).2⟩ :: calls := by
      rw [deliveryCalls, hchunks, List.mapIdx_cons]
      exact ⟨_, rfl⟩
    obtain ⟨calls, hcalls⟩ := hcalls
    obtain ⟨c', hserve⟩ := serve_of_incomplete backend ⟨(env 0).1, .bytes chunk, (env 0).2⟩
      rfl (hne chunk (by simp)) hquiet recycle calls
    rw [hcalls, hserve, hchunks] at hinvoked
    have hlen := congrArg List.length hinvoked
    simp at hlen

/-- **A split is tolerated iff there is none**: a request reaches `doRequest` iff it arrives in one
chunk; every chunk that leaves it incomplete closes the connection. -/
theorem toleratesSplit_iff (d : Delivery) (env : Nat → Errno × (Nat → WriteOutcome)) (c : Codec)
    (recycle : Nat) (hidle : Idle c) :
    ToleratesSplit backend d env c recycle ↔ d.chunks.length = 1 := by
  constructor
  · intro htol
    by_contra hlen
    have hpos := List.length_pos_iff.mpr d.chunks_ne
    exact not_toleratesSplit_of_two_le backend hidle (by omega) htol
  · exact toleratesSplit_of_length_eq_one backend hidle

/-- A keep-alive request with one parameter and a body of one byte. -/
def sampleRequest : Request :=
  .single 1 ⟨StdString.literal "A", StdString.literal "1", .oneByte, .oneByte, by decide, by decide⟩
    (StdString.literal "x") (by decide) (by decide) (by decide)

/-- The sample request with other flags. -/
def requestWithFlags (flags : UInt8) : Request :=
  .single flags
    ⟨StdString.literal "A", StdString.literal "1", .oneByte, .oneByte, by decide, by decide⟩
    (StdString.literal "x") (by decide) (by decide) (by decide)

/-- The sample request, cut behind the header of its first record. -/
def splitDelivery : Delivery where
  request := sampleRequest
  chunks := [sampleRequest.bytes.take 8, sampleRequest.bytes.drop 8]
  chunks_ne_nil := by decide
  flatten_chunks := by decide

/-- The sample request in one chunk. -/
def wholeDelivery : Delivery where
  request := sampleRequest
  chunks := [sampleRequest.bytes]
  chunks_ne_nil := by decide
  flatten_chunks := by decide

/-- An environment in which every write is taken at once. -/
def calmEnv : Nat → Errno × (Nat → WriteOutcome) := fun _ => (0, fun _ => .accept 65535)

theorem toleratesSplit_whole :
    Idle Codec.new ∧ (ToleratesSplit printRequest wholeDelivery calmEnv Codec.new 0 ↔
      wholeDelivery.chunks.length = 1) :=
  ⟨idle_new, toleratesSplit_iff printRequest wholeDelivery calmEnv Codec.new 0 idle_new⟩

theorem not_toleratesSplit_split :
    ¬ ToleratesSplit printRequest splitDelivery calmEnv Codec.new 0 :=
  not_toleratesSplit_of_two_le printRequest idle_new (by decide)

end Cocgi

end FastCgi
