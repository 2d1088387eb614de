import FastCgi.Recovery

/-! # Keeping the connection

By the protocol, as `cocgi/fastcgi.cpp` quotes it, a connection is kept after a request iff
`flags & FCGI_KEEP_CONN` is not zero. The codecs compare the whole byte with `FCGI_KEEP_CONN`
instead, so flags in which a reserved bit is set as well make them close a connection that was to
be kept. `keepConn_followsProtocol_iff` says that this is the only difference, over whole runs of
both servers.

`Cocgi.answeredCodes_readAll` relates the two servers: on the same chunks, the codes of `cocgi` are
those that the actions of `mucgi` call for. -/

namespace FastCgi

/-- What the protocol looks at: `flags & FCGI_KEEP_CONN`. -/
def Request.AsksToKeep (q : Request) : Prop := q.flags &&& Codec.kFcgiKeepConn ≠ 0

instance (q : Request) : Decidable q.AsksToKeep :=
  inferInstanceAs (Decidable (q.flags &&& Codec.kFcgiKeepConn ≠ 0))

/-- The bit the protocol looks at is set when the byte is `FCGI_KEEP_CONN`. -/
theorem Request.asksToKeep_of_flags {q : Request} (h : q.flags = Codec.kFcgiKeepConn) :
    q.AsksToKeep := by
  rw [AsksToKeep, h]
  decide

/-- Where no other bit is set together with it, the codecs test for what the protocol asks. -/
theorem Request.asksToKeep_iff {q : Request}
    (h : q.AsksToKeep → q.flags = Codec.kFcgiKeepConn) :
    q.AsksToKeep ↔ q.flags = Codec.kFcgiKeepConn :=
  ⟨h, asksToKeep_of_flags⟩

/-! ## `mucgi` -/

namespace Mucgi

/-- What is to happen during each chunk of a delivery, by the protocol. -/
def protocolActions (d : Delivery) : List (List Action) :=
  List.replicate (d.chunks.length - 1) [] ++
    [.callback d.request.params d.request.body ::
      if d.request.AsksToKeep then [] else [.shutdown]]

/-- A run over deliveries **follows the protocol**: the connection is shut down after exactly the
requests that do not ask to keep it. -/
def FollowsProtocol (ds : List Delivery) : Prop :=
  ∃ c, run Codec.new (ds.flatMap Delivery.chunks) = .ok (ds.flatMap protocolActions, c)

/-- One delivery is treated by the protocol iff the bit it looks at is the only one that is set. -/
theorem actions_eq_protocolActions_iff (d : Delivery) :
    actions d = protocolActions d ↔
      (d.request.AsksToKeep → d.request.flags = Codec.kFcgiKeepConn) := by
  rw [actions, protocolActions, answerTo]
  constructor
  · intro h hasks
    by_contra hflags
    rw [if_neg hflags, if_pos hasks] at h
    simp at h
  · intro h
    rw [if_congr (Request.asksToKeep_iff h) rfl rfl]

theorem length_actions (d : Delivery) : (actions d).length = (protocolActions d).length := by
  simp [actions, protocolActions]

/-- Runs are treated by the protocol iff each of their deliveries is. -/
theorem flatMap_actions_eq_iff (ds : List Delivery) :
    ds.flatMap actions = ds.flatMap protocolActions ↔
      ∀ d ∈ ds, d.request.AsksToKeep → d.request.flags = Codec.kFcgiKeepConn := by
  induction ds with
  | nil => simp
  | cons d ds ih =>
      rw [List.flatMap_cons, List.flatMap_cons, List.forall_mem_cons, ← ih,
        ← actions_eq_protocolActions_iff]
      constructor
      · intro h
        exact List.append_inj h (length_actions d)
      · rintro ⟨hd, hds⟩
        rw [hd, hds]

theorem followsProtocol_iff (ds : List Delivery) :
    FollowsProtocol ds ↔
      ∀ d ∈ ds, d.request.AsksToKeep → d.request.flags = Codec.kFcgiKeepConn := by
  obtain ⟨c, keepConn, hrun, -⟩ := run_deliveries ds
  rw [← flatMap_actions_eq_iff, FollowsProtocol, hrun]
  constructor
  · rintro ⟨c', h⟩
    exact congrArg Prod.fst (Except.ok.inj h)
  · intro h
    rw [h]
    exact ⟨c, rfl⟩

end Mucgi

/-! ## `cocgi` -/

namespace Cocgi

variable (backend : Backend)

/-- The code a call returned after it had answered a request. -/
def Report.answered (r : Report) : Option ErrorCode :=
  match r.invoked, r.outcome with
  | some _, .ok (ret, _, _) => some ret
  | _, _ => none

/-- All writes of a call succeed. -/
def Call.WritesSucceed (call : Call) : Prop := ∀ i e, call.writes i ≠ .error e

/-- The code that the actions of `mucgi` on the same chunk call for. -/
def codeOf (actions : List Mucgi.Action) : Option ErrorCode :=
  match actions with
  | [] => none
  | [_] => some .ok
  | _ => some .socketFinish

theorem codeOf_actionsOf (s : Accum) :
    codeOf (Mucgi.actionsOf s)
      = if s.gotRequest then some (if s.keepConn then .ok else .socketFinish) else none := by
  rw [Mucgi.actionsOf]
  cases s.gotRequest <;> cases s.keepConn <;> rfl

theorem not_writingFails_of_writesSucceed {call : Call} (h : call.WritesSucceed) {e : Errno}
    {i len : Nat} : ¬ WritingFails call.writes e i len := by
  intro hfails
  induction hfails with
  | here _ he => exact h _ _ he
  | later _ _ _ ih => exact ih

/-- When all writes succeed, a response is written completely. -/
theorem code_of_writesSucceed {call : Call} (h : call.WritesSucceed) {b : Bytes} {w : Written}
    (hends : w.Ends call.writes 0 call.errno b) : w.code = .ok := by
  cases hends with
  | complete _ => rfl
  | failed e hfails _ _ => exact absurd hfails (not_writingFails_of_writesSucceed h)

/-- **One call that reads a chunk** ends the process, if what it hands over is malformed; else it
answers with the code that the actions of `mucgi` call for, and leaves what `mucgi` leaves. -/
theorem readData_answered {call : Call} {data : Bytes} (hchunk : call.chunk = some data)
    (hwrites : call.WritesSucceed) (c : Codec) :
    (∃ f params stdin, (readData backend call c).outcome = .error f ∧
        (readData backend call c).answered = none ∧ MalformedBody params stdin ∧
        Mucgi.Action.callback params stdin ∈ (Mucgi.deliverSpec c.view data).1) ∨
      ∃ ret errno c', (readData backend call c).outcome = .ok (ret, errno, c') ∧
        (readData backend call c).answered = codeOf (Mucgi.deliverSpec c.view data).1 ∧
        c'.view = (Mucgi.deliverSpec c.view data).2 := by
  obtain ⟨hread, hdata⟩ := read_of_chunk_some hchunk
  obtain ⟨c₁, hcall, hview⟩ := readData_bytes backend hread hdata c
  have hacc : c₁.accum = (recordFormat.feed Accum.handle c.view data).1 := congrArg Prod.fst hview
  have hin : c₁.input = (recordFormat.feed Accum.handle c.view data).2 := congrArg Prod.snd hview
  rw [hcall]
  simp only [Mucgi.deliverSpec, ← hacc, ← hin, codeOf_actionsOf, Mucgi.settle]
  cases hgot : c₁.gotRequest with
  | false =>
      have hgot' : ¬ c₁.accum.gotRequest = true := by simp [Codec.accum, hgot]
      right
      rw [finish_of_not_got backend hgot, if_neg hgot', if_neg hgot']
      exact ⟨_, _, c₁, rfl, rfl, rfl⟩
  | true =>
      have hgot' : c₁.accum.gotRequest = true := hgot
      rw [if_pos hgot', if_pos hgot', Mucgi.actionsOf, if_pos hgot']
      by_cases hbad : MalformedBody c₁.params c₁.stdin.contents
      · left
        -- a malformed body: the process ends, and the specification hands the same request out
        rw [finish_of_malformed backend hgot hbad]
        exact ⟨_, _, _, rfl, rfl, hbad, List.mem_cons_self⟩
      · right
        -- the writes succeed, so the code depends on the flags alone
        obtain ⟨qmap, header, w, hends, hfin⟩ := finish_of_got backend call hgot hbad
        rw [hfin, code_of_writesSucceed hwrites hends]
        refine ⟨_, _, _, rfl, ?_, c₁.view_clearRequest⟩
        simp only [Report.answered, returnCode]
        cases hkeep : c₁.keepConn <;> simp [Codec.accum, hkeep]

/-- The codes of the calls that answered a request. -/
def answeredCodes (reports : List Report) : List ErrorCode := reports.filterMap Report.answered

theorem answeredCodes_cons (r : Report) (rs : List Report) :
    answeredCodes (r :: rs) = r.answered.toList ++ answeredCodes rs :=
  filterMap_cons_toList _ r rs

/-- `readwrite_routine` gets the first of the codes of all calls. -/
theorem answeredCodes_serve (c : Codec) (recycle : Nat) (calls : List Call) :
    answeredCodes (serve backend c recycle calls).1 <+: answeredCodes (readAll backend c calls) :=
  (serve_prefix_readAll backend c recycle calls).filterMap _

/-- **The codes of `cocgi` are those the actions of `mucgi` call for**, on the same chunks: all of
them, or the first of them when a malformed request ends the process. -/
theorem answeredCodes_readAll {calls : List Call} (hwrites : ∀ call ∈ calls, call.WritesSucceed)
    (c : Codec) :
    answeredCodes (readAll backend c calls)
        <+: (Mucgi.runSpec c.view (calls.filterMap Call.chunk)).1.filterMap codeOf ∧
      ((∀ params stdin, Mucgi.Action.callback params stdin
          ∈ (Mucgi.runSpec c.view (calls.filterMap Call.chunk)).1.flatten →
            ¬ MalformedBody params stdin) →
        answeredCodes (readAll backend c calls)
          = (Mucgi.runSpec c.view (calls.filterMap Call.chunk)).1.filterMap codeOf) := by
  induction calls generalizing c with
  | nil => exact ⟨List.prefix_rfl, fun _ => rfl⟩
  | cons call calls ih =>
      have hrest : ∀ call' ∈ calls, call'.WritesSucceed := fun call' h =>
        hwrites call' (List.mem_cons_of_mem _ h)
      cases hchunk : call.chunk with
      | none =>
          -- nothing was read: nothing is answered, and the codec stays as it is
          obtain ⟨ret, errno, hcall⟩ := readData_of_chunk_none backend hchunk
          have hout : (readData backend call c).outcome = .ok (ret, errno, c) := by
            rw [hcall]
            rfl
          rw [readAll_cons_of_ok backend hout, answeredCodes_cons, hcall,
            List.filterMap_cons_none hchunk]
          exact ih hrest c
      | some data =>
          rw [List.filterMap_cons_some hchunk]
          simp only [Mucgi.runSpec]
          obtain ⟨f, params, stdin, hout, hanswered, hbad, hmem⟩ |
            ⟨ret, errno, c', hout, hanswered, hview⟩ :=
              readData_answered backend hchunk (hwrites call List.mem_cons_self) c
          · rw [readAll_cons_of_error backend hout, answeredCodes_cons, hanswered]
            refine ⟨List.nil_prefix, fun hok => ?_⟩
            exact absurd hbad (hok params stdin
              (List.mem_flatten_of_mem List.mem_cons_self hmem))
          · obtain ⟨hpre, heq⟩ := ih hrest c'
            rw [hview] at hpre heq
            rw [readAll_cons_of_ok backend hout, answeredCodes_cons, hanswered,
              filterMap_cons_toList]
            refine ⟨(List.prefix_append_right_inj _).mpr hpre, fun hok => ?_⟩
            rw [heq fun params stdin hmem => hok params stdin ?_]
            rw [List.flatten_cons]
            exact List.mem_append_right _ hmem

/-! ## Whole runs -/

/-- The code `readData` returns after it has answered a request. -/
def codeAfter (d : Delivery) : ErrorCode :=
  if d.request.flags = Codec.kFcgiKeepConn then .ok else .socketFinish

/-- The code it is to return by the protocol. -/
def protocolCode (d : Delivery) : ErrorCode :=
  if d.request.AsksToKeep then .ok else .socketFinish

theorem filterMap_codeOf_actions (d : Delivery) :
    (Mucgi.actions d).filterMap codeOf = [codeAfter d] := by
  have hquiet : (List.replicate (d.chunks.length - 1) ([] : List Mucgi.Action)).filterMap codeOf
      = [] := by
    rw [List.filterMap_eq_nil_iff]
    intro actions hmem
    rw [List.eq_of_mem_replicate hmem]
    rfl
  rw [Mucgi.actions, List.filterMap_append, hquiet, Mucgi.answerTo, codeAfter]
  split <;> rfl

/-- The calls that answer the requests of a run return the codes for their flags: all of them, or
the first of them when a malformed request ends the process. -/
theorem answeredCodes_deliveries (ds : List Delivery) {calls : List Call}
    (hcalls : calls.filterMap Call.chunk = ds.flatMap Delivery.chunks)
    (hwrites : ∀ call ∈ calls, call.WritesSucceed) :
    answeredCodes (readAll backend Codec.new calls) <+: ds.map codeAfter ∧
      ((∀ d ∈ ds, ¬ MalformedBody d.request.params d.request.body) →
        answeredCodes (readAll backend Codec.new calls) = ds.map codeAfter) := by
  obtain ⟨hpre, heq⟩ := answeredCodes_readAll backend hwrites Codec.new
  obtain ⟨keepConn, hspec⟩ := Mucgi.runSpec_deliveries ds false
  have hcodes : (ds.flatMap Mucgi.actions).filterMap codeOf = ds.map codeAfter := by
    rw [List.filterMap_flatMap, List.map_eq_flatMap]
    exact List.flatMap_congr fun d _ => filterMap_codeOf_actions d
  rw [hcalls, Codec.view_new, hspec] at hpre heq
  simp only [hcodes] at hpre heq
  refine ⟨hpre, fun hok => heq fun params stdin hmem => ?_⟩
  -- what is handed over is one of the requests
  obtain ⟨actions, hactions, hcallback⟩ := List.mem_flatten.mp hmem
  obtain ⟨d, hd, hactions⟩ := List.mem_flatMap.mp hactions
  rw [Mucgi.actions, List.mem_append, List.mem_singleton] at hactions
  obtain hquiet | rfl := hactions
  · rw [List.eq_of_mem_replicate hquiet] at hcallback
    cases hcallback
  · rw [Mucgi.answerTo, List.mem_cons] at hcallback
    obtain heq | hshut := hcallback
    · cases heq
      exact hok d hd
    · split at hshut
      · cases hshut
      · cases List.mem_singleton.mp hshut

/-- Runs over deliveries **follow the protocol**: however the calls of `readData` read the chunks,
when all writes succeed the calls that answer a request return `ERR_OK` after exactly the requests
that ask to keep the connection, and `ERR_SOCKET_FINISH` after the others. If all calls are made,
whatever they return, then every request is answered, unless a malformed one ends the process;
`readwrite_routine` makes the first of these calls only (`serve_followsProtocol`). -/
def FollowsProtocol (ds : List Delivery) : Prop :=
  ∀ calls : List Call, calls.filterMap Call.chunk = ds.flatMap Delivery.chunks →
    (∀ call ∈ calls, call.WritesSucceed) →
      answeredCodes (readAll backend Codec.new calls) <+: ds.map protocolCode ∧
        ((∀ d ∈ ds, ¬ MalformedBody d.request.params d.request.body) →
          answeredCodes (readAll backend Codec.new calls) = ds.map protocolCode)

theorem followsProtocol_of_flags {ds : List Delivery}
    (h : ∀ d ∈ ds, d.request.AsksToKeep → d.request.flags = Codec.kFcgiKeepConn) :
    FollowsProtocol backend ds := by
  intro calls hcalls hwrites
  have hcodes : ds.map protocolCode = ds.map codeAfter := by
    refine List.map_congr_left fun d hd => ?_
    rw [protocolCode, codeAfter, if_congr (Request.asksToKeep_iff (h d hd)) rfl rfl]
  rw [hcodes]
  exact answeredCodes_deliveries backend ds hcalls hwrites

/-- **`readwrite_routine` follows the protocol** as long as it serves the connection: what the calls
return that answer a request is what the protocol says of the first requests. -/
theorem serve_followsProtocol {ds : List Delivery} (h : FollowsProtocol backend ds)
    {calls : List Call} (hcalls : calls.filterMap Call.chunk = ds.flatMap Delivery.chunks)
    (hwrites : ∀ call ∈ calls, call.WritesSucceed) (recycle : Nat) :
    answeredCodes (serve backend Codec.new recycle calls).1 <+: ds.map protocolCode :=
  (answeredCodes_serve backend Codec.new recycle calls).trans (h calls hcalls hwrites).1

end Cocgi

/-- **Keeping the connection follows the protocol**, over a whole run of requests in both servers,
iff every request of the run that asks to keep the connection sets no other bit of its flags. -/
theorem keepConn_followsProtocol_iff (backend : Backend) (ds : List Delivery) :
    Mucgi.FollowsProtocol ds ∧ Cocgi.FollowsProtocol backend ds ↔
      ∀ d ∈ ds, d.request.AsksToKeep → d.request.flags = Codec.kFcgiKeepConn := by
  constructor
  · rintro ⟨hmucgi, -⟩
    exact (Mucgi.followsProtocol_iff ds).mp hmucgi
  · intro h
    exact ⟨(Mucgi.followsProtocol_iff ds).mpr h, Cocgi.followsProtocol_of_flags backend h⟩

/-- A request that arrives in one chunk. -/
def Delivery.whole (q : Request) : Delivery where
  request := q
  chunks := [q.bytes]
  chunks_ne_nil := by
    intro chunk hchunk
    rw [List.mem_singleton.mp hchunk]
    exact q.bytes_ne_nil
  flatten_chunks := List.flatten_singleton

/-- A request that asks to keep the connection and sets a reserved bit as well. -/
def reservedRequest : Request := Cocgi.requestWithFlags 3

/-- Neither server keeps the connection after it. -/
theorem not_followsProtocol_reserved :
    reservedRequest.AsksToKeep ∧ ¬ Mucgi.FollowsProtocol [.whole reservedRequest] ∧
      ¬ Cocgi.FollowsProtocol printRequest [.whole reservedRequest] := by
  have hasks : reservedRequest.AsksToKeep := by decide
  refine ⟨hasks, fun h => ?_, fun h => ?_⟩
  · have hflags := (Mucgi.followsProtocol_iff _).mp h _ (List.mem_singleton_self _) hasks
    exact absurd hflags (by decide)
  · let call : Cocgi.Call := ⟨0, .bytes reservedRequest.bytes, fun _ => .accept 0⟩
    have hcalls : [call].filterMap Cocgi.Call.chunk
        = [Delivery.whole reservedRequest].flatMap Delivery.chunks := by decide
    have hwrites : ∀ call' ∈ [call], call'.WritesSucceed := by
      intro call' hcall i e he
      rw [List.mem_singleton.mp hcall] at he
      cases he
    have hok : ∀ d ∈ [Delivery.whole reservedRequest],
        ¬ MalformedBody d.request.params d.request.body := by
      intro d hd
      rw [List.mem_singleton.mp hd]
      exact Cgicc.not_malformed_of_not_isMultipart (by decide) _
    have hcode := (Cocgi.answeredCodes_deliveries printRequest _ hcalls hwrites).2 hok
    have hprotocol := (h _ hcalls hwrites).2 hok
    rw [hcode] at hprotocol
    exact absurd hprotocol (by decide)

end FastCgi
