import FastCgi.Windows

/-! # Recovery after a request

When the input ends behind an empty `STDIN` record, nothing is left in a codec of what came before,
whatever that was: rejected records, parameters that could not be parsed, a request without a
beginning. Only `keepConn` survives (`Mucgi.deliver_idle`, `Cocgi.readData_idle`).

What survives is overwritten by the next accepted `BEGIN_REQUEST`. `Alike` relates the views of two
codecs that will become equal in this way, `Alike.feed` is the step of the simulation, and
`codecs_recover` says that later requests are served as on a new connection. -/

namespace FastCgi

/-- A `BEGIN_REQUEST` record that is accepted. -/
def Record.Opens (r : Record) : Prop :=
  r.type = FcgiType.beginRequest.toByte ∧ Accum.beginAccepted r.contentData = true

/-- The bytes `b` **open a request**: the first complete record in them that the codecs act on is an
accepted `BEGIN_REQUEST`. -/
def OpensRequest (b : Bytes) : Prop :=
  ∀ r, (recordFormat.frames b).1.find? Record.isCore = some r → r.Opens

/-- Two views are **alike** before the bytes `rest`: they are equal, or nothing has been accumulated
in either of them, and `rest` is about to open a request. -/
inductive Alike (rest : Bytes) : Accum × Bytes → Accum × Bytes → Prop
  | same (v : Accum × Bytes) : Alike rest v v
  | clean (keepConn keepConn' : Bool) (pending : Bytes) : OpensRequest (pending ++ rest) →
      Alike rest (Request.clean keepConn, pending) (Request.clean keepConn', pending)

/-! ## Feeding alike views -/

namespace Accum

/-- Records of other types are ignored. -/
theorem foldl_handle_of_find?_none (s : Accum) {rs : List Record}
    (h : rs.find? Record.isCore = none) : rs.foldl handle s = s := by
  have hfilter : rs.filter Record.isCore = [] := by
    rw [List.filter_eq_nil_iff]
    exact List.find?_eq_none.mp h
  rw [foldl_handle_filter, hfilter, List.foldl_nil]

/-- The records that open a request decide anew whether the connection is kept. -/
theorem foldl_handle_of_opens {rs : List Record} {r : Record}
    (h : rs.find? Record.isCore = some r) (hr : r.Opens) (keepConn keepConn' : Bool) :
    rs.foldl handle (Request.clean keepConn) = rs.foldl handle (Request.clean keepConn') := by
  obtain ⟨-, before, after, rfl, hbefore⟩ := List.find?_eq_some_iff_append.mp h
  have hskip : before.find? Record.isCore = none := by
    rw [List.find?_eq_none]
    intro r' hr'
    simpa using hbefore r' hr'
  have hopen : ∀ k, (Request.clean k).handle r
      = Request.clean (beginFlags r.contentData == Codec.kFcgiKeepConn) := by
    intro k
    rw [handle_beginRequest _ hr.1, onBeginRequest, if_pos hr.2]
    rfl
  simp only [List.foldl_append, List.foldl_cons, foldl_handle_of_find?_none _ hskip, hopen]

/-- A chunk with which an empty `STDIN` record is complete completes a request. -/
theorem gotRequest_feed_of_stdinEnd {v : Accum × Bytes} {chunk : Bytes}
    (hend : (recordFormat.frames (v.2 ++ chunk)).1.any Record.isStdinEnd = true) :
    (recordFormat.feed handle v chunk).1.gotRequest = true := by
  rw [Framing.Format.feed, gotRequest_foldl_handle, hend, Bool.or_true]

end Accum

/-- **Feeding a chunk to alike views** makes them equal, or completes no request in either of them
and leaves them alike. -/
theorem Alike.feed {chunk rest : Bytes} {v v' : Accum × Bytes} (h : Alike (chunk ++ rest) v v') :
    recordFormat.feed Accum.handle v chunk = recordFormat.feed Accum.handle v' chunk ∨
      (recordFormat.feed Accum.handle v chunk).1.gotRequest = false ∧
        (recordFormat.feed Accum.handle v' chunk).1.gotRequest = false ∧
        Alike rest (recordFormat.feed Accum.handle v chunk)
          (recordFormat.feed Accum.handle v' chunk) := by
  cases h with
  | same => exact .inl rfl
  | clean keepConn keepConn' pending hopens =>
      simp only [Framing.Format.feed]
      -- the records of this chunk are the first of those that are to come
      have hframes := recordFormat.frames_append (pending ++ chunk) rest
      rw [List.append_assoc] at hframes
      rw [OpensRequest, hframes] at hopens
      cases hfind : (recordFormat.frames (pending ++ chunk)).1.find? Record.isCore with
      | some r =>
          have hr : r.Opens := hopens r (by rw [List.find?_append, hfind]; rfl)
          left
          rw [Accum.foldl_handle_of_opens hfind hr keepConn keepConn']
      | none =>
          right
          rw [Accum.foldl_handle_of_find?_none _ hfind, Accum.foldl_handle_of_find?_none _ hfind]
          refine ⟨rfl, rfl, .clean _ _ _ ?_⟩
          intro r hr
          exact hopens r (by rw [List.find?_append, hfind]; exact hr)

/-! ## Runs of `mucgi` -/

namespace Mucgi

theorem deliverSpec_alike {chunk rest : Bytes} {v v' : Accum × Bytes}
    (h : Alike (chunk ++ rest) v v') :
    (deliverSpec v chunk).1 = (deliverSpec v' chunk).1 ∧
      Alike rest (deliverSpec v chunk).2 (deliverSpec v' chunk).2 := by
  simp only [deliverSpec]
  obtain heq | ⟨hgot, hgot', halike⟩ := h.feed
  · rw [heq]
    exact ⟨rfl, .same _⟩
  · simp only [actionsOf, settle, hgot, hgot']
    exact ⟨rfl, halike⟩

theorem runSpec_alike {chunks : List Bytes} {v v' : Accum × Bytes}
    (h : Alike chunks.flatten v v') : (runSpec v chunks).1 = (runSpec v' chunks).1 := by
  induction chunks generalizing v v' with
  | nil => rfl
  | cons chunk chunks ih =>
      rw [List.flatten_cons] at h
      obtain ⟨hactions, halike⟩ := deliverSpec_alike h
      simp only [runSpec, hactions, ih halike]

/-- From alike codecs a run does the same. -/
theorem run_alike {chunks : List Bytes} {c c' : Codec} (h : Alike chunks.flatten c.view c'.view) :
    ∃ actions d d', run c chunks = .ok (actions, d) ∧ run c' chunks = .ok (actions, d') := by
  obtain ⟨d, hrun, -⟩ := run_refines c chunks
  obtain ⟨d', hrun', -⟩ := run_refines c' chunks
  rw [← runSpec_alike h] at hrun'
  exact ⟨_, d, d', hrun, hrun'⟩

/-- A chunk after which the input ends behind the end of a request leaves nothing in the codec. -/
theorem deliver_idle {c : Codec} {chunk : Bytes}
    (hrest : (recordFormat.frames (c.input ++ chunk)).2 = [])
    (hend : (recordFormat.frames (c.input ++ chunk)).1.any Record.isStdinEnd = true) :
    ∃ actions c', deliver c chunk = .ok (actions, c') ∧ Cocgi.Idle c' := by
  obtain ⟨c', hdeliver, hview⟩ := deliver_refines c chunk
  refine ⟨_, c', hdeliver, ?_⟩
  have hgot : (recordFormat.feed Accum.handle c.view chunk).1.gotRequest = true :=
    Accum.gotRequest_feed_of_stdinEnd hend
  rw [deliverSpec, settle, if_pos hgot] at hview
  exact ⟨_, hview.trans (congrArg _ hrest)⟩

end Mucgi

/-! ## Runs of `cocgi` -/

namespace Cocgi

variable (backend : Backend)

/-- What a call of `readData` does to the outside: the invocation, the response, the bytes that were
sent, and the code and the `errno` it leaves. -/
def Report.observed (r : Report) :
    Option (ParamMap × Bytes) × Bytes × Bytes × Except Fault (ErrorCode × Errno) :=
  (r.invoked, r.response, r.sent, r.outcome.map fun out => (out.1, out.2.1))

/-- The reports of calls of `readData` one after the other, whatever codes they return. -/
def readAll : Codec → List Call → List Report
  | _, [] => []
  | c, call :: calls =>
    let report := readData backend call c
    match report.outcome with
    | .error _ => [report]
    | .ok (_, _, c) => report :: readAll c calls

theorem readAll_cons_of_ok {call : Call} {calls : List Call} {c c' : Codec} {ret : ErrorCode}
    {errno : Errno} (h : (readData backend call c).outcome = .ok (ret, errno, c')) :
    readAll backend c (call :: calls) = readData backend call c :: readAll backend c' calls := by
  rw [readAll, h]

theorem readAll_cons_of_error {call : Call} {calls : List Call} {c : Codec} {f : Fault}
    (h : (readData backend call c).outcome = .error f) :
    readAll backend c (call :: calls) = [readData backend call c] := by
  rw [readAll, h]

/-- `readwrite_routine` makes the first of these calls. -/
theorem serve_prefix_readAll (c : Codec) (recycle : Nat) (calls : List Call) :
    (serve backend c recycle calls).1 <+: readAll backend c calls := by
  induction calls generalizing c recycle with
  | nil => exact List.prefix_rfl
  | cons call calls ih =>
      obtain hone | ⟨ret, errno, c', recycle', hout, hmore⟩ :=
        serve_cons_cases backend call calls c recycle
      · rw [hone]
        cases hout : (readData backend call c).outcome with
        | error f => rw [readAll_cons_of_error backend hout]
        | ok out =>
            rw [readAll_cons_of_ok backend hout]
            exact ⟨_, rfl⟩
      · rw [hmore, readAll_cons_of_ok backend hout]
        exact List.cons_prefix_cons.mpr ⟨rfl, ih c' recycle'⟩

/-- `doRequest` looks at the contents of the body only. -/
theorem doRequest_congr {stdin stdin' : Buffer} (h : stdin.contents = stdin'.contents)
    (writes : Nat → WriteOutcome) (errno : Errno) (params : ParamMap) :
    doRequest backend writes errno params stdin = doRequest backend writes errno params stdin' := by
  rw [doRequest, doRequest, backendInput, backendInput, parseInput_eq, parseInput_eq, h]

/-- What follows `parseFcgiPackage` looks at the view of the codec only. -/
theorem finish_congr (call : Call) {c c' : Codec} (h : c.view = c'.view) :
    (finish backend call c).observed = (finish backend call c').observed ∧
      ∀ ret errno d, (finish backend call c).outcome = .ok (ret, errno, d) →
        ∃ d', (finish backend call c').outcome = .ok (ret, errno, d') ∧ d.view = d'.view := by
  have hacc : c.accum = c'.accum := congrArg Prod.fst h
  have hgot : c.gotRequest = c'.gotRequest := congrArg Accum.gotRequest hacc
  have hkeep : c.keepConn = c'.keepConn := congrArg Accum.keepConn hacc
  have hparams : c.params = c'.params := congrArg Accum.params hacc
  have hstdin : c.stdin.contents = c'.stdin.contents := congrArg Accum.stdin hacc
  have hclear : c.clearRequest.view = c'.clearRequest.view := by
    rw [c.view_clearRequest, c'.view_clearRequest, hacc, show c.input = c'.input from
      congrArg Prod.snd h]
  rw [finish, finish, hgot, hkeep, hparams, hstdin, doRequest_congr backend hstdin]
  split
  · cases doRequest backend call.writes call.errno c'.params c'.stdin with
    | error f =>
        refine ⟨rfl, fun ret errno d hout => ?_⟩
        cases hout
    | ok out =>
        refine ⟨rfl, fun ret errno d hout => ?_⟩
        cases hout
        exact ⟨_, rfl, hclear⟩
  · refine ⟨rfl, fun ret errno d hout => ?_⟩
    cases hout
    exact ⟨_, rfl, h⟩

/-- Calls that report the same both return or both end the process. -/
theorem error_of_observed_eq {r r' : Report} (h : r.observed = r'.observed) {f : Fault}
    (hout : r.outcome = .error f) : ∃ f', r'.outcome = .error f' := by
  have hmap := congrArg (fun obs => obs.2.2.2) h
  simp only [Report.observed, hout] at hmap
  cases hout' : r'.outcome with
  | error f' => exact ⟨f', rfl⟩
  | ok out =>
      rw [hout'] at hmap
      cases hmap

/-- The bytes of the first call, and those of the others. -/
theorem flatten_filterMap_chunk_cons (call : Call) (calls : List Call) :
    ((call :: calls).filterMap Call.chunk).flatten
      = call.chunk.toList.flatten ++ (calls.filterMap Call.chunk).flatten := by
  rw [filterMap_cons_toList, List.flatten_append]

/-- **One call on alike codecs** reports the same, and leaves them alike. -/
theorem readData_alike (call : Call) {rest : Bytes} {c c' : Codec}
    (h : Alike (call.chunk.toList.flatten ++ rest) c.view c'.view) :
    (readData backend call c).observed = (readData backend call c').observed ∧
      ∀ ret errno d, (readData backend call c).outcome = .ok (ret, errno, d) →
        ∃ d', (readData backend call c').outcome = .ok (ret, errno, d') ∧
          Alike rest d.view d'.view := by
  cases hchunk : call.chunk with
  | none =>
      obtain ⟨ret, errno, hcall⟩ := readData_of_chunk_none backend hchunk
      rw [hcall, hcall]
      refine ⟨rfl, fun ret' errno' d hout => ?_⟩
      cases hout
      rw [hchunk] at h
      exact ⟨c', rfl, h⟩
  | some data =>
      rw [hchunk, Option.toList_some, List.flatten_singleton] at h
      obtain ⟨hread, hdata⟩ := read_of_chunk_some hchunk
      obtain ⟨c₁, hcall, hview⟩ := readData_bytes backend hread hdata c
      obtain ⟨c₁', hcall', hview'⟩ := readData_bytes backend hread hdata c'
      have hfeed := h.feed
      rw [← hview, ← hview'] at hfeed
      rw [hcall, hcall']
      obtain heq | ⟨hgot, hgot', halike⟩ := hfeed
      · -- the two codecs have come to hold the same
        obtain ⟨hobs, hout⟩ := finish_congr backend call heq
        refine ⟨hobs, fun ret errno d hd => ?_⟩
        obtain ⟨d', hd', hview⟩ := hout ret errno d hd
        rw [hview]
        exact ⟨d', hd', .same _⟩
      · -- neither has a complete request, and both wait for the rest
        rw [finish_of_not_got backend hgot, finish_of_not_got backend hgot']
        refine ⟨rfl, fun ret errno d hout => ?_⟩
        cases hout
        exact ⟨c₁', rfl, halike⟩

/-- From alike codecs all calls report the same. -/
theorem readAll_alike {calls : List Call} {c c' : Codec}
    (h : Alike (calls.filterMap Call.chunk).flatten c.view c'.view) :
    (readAll backend c calls).map Report.observed
      = (readAll backend c' calls).map Report.observed := by
  induction calls generalizing c c' with
  | nil => rfl
  | cons call calls ih =>
      rw [flatten_filterMap_chunk_cons] at h
      obtain ⟨hobs, hnext⟩ := readData_alike backend call h
      cases hout : (readData backend call c).outcome with
      | ok out =>
          obtain ⟨ret, errno, d⟩ := out
          obtain ⟨d', hout', halike⟩ := hnext ret errno d hout
          rw [readAll_cons_of_ok backend hout, readAll_cons_of_ok backend hout', List.map_cons,
            List.map_cons, hobs, ih halike]
      | error f =>
          -- the process has ended, in the one run as in the other
          obtain ⟨f', hout'⟩ : ∃ f', (readData backend call c').outcome = .error f' :=
            error_of_observed_eq hobs hout
          rw [readAll_cons_of_error backend hout, readAll_cons_of_error backend hout',
            List.map_singleton, List.map_singleton, hobs]

/-- From alike codecs `readwrite_routine` makes the same calls, and they report the same. -/
theorem serve_alike {calls : List Call} {c c' : Codec} (recycle : Nat)
    (h : Alike (calls.filterMap Call.chunk).flatten c.view c'.view) :
    (serve backend c recycle calls).1.map Report.observed
      = (serve backend c' recycle calls).1.map Report.observed := by
  induction calls generalizing c c' recycle with
  | nil => rfl
  | cons call calls ih =>
      rw [flatten_filterMap_chunk_cons] at h
      obtain ⟨hobs, hnext⟩ := readData_alike backend call h
      rw [serve, serve]
      cases hout : (readData backend call c).outcome with
      | ok out =>
          obtain ⟨ret, errno, d⟩ := out
          obtain ⟨d', hout', halike⟩ := hnext ret errno d hout
          rw [hout']
          simp only
          cases nextRecycle ret recycle with
          | none => simp only [List.map_singleton, hobs]
          | some recycle' => simp only [List.map_cons, hobs, ih recycle' halike]
      | error f =>
          obtain ⟨f', hout'⟩ := error_of_observed_eq hobs hout
          rw [hout']
          simp only [List.map_singleton, hobs]

/-- A call that reads a chunk after which the input ends behind the end of a request leaves nothing
in the codec, when it returns. -/
theorem readData_idle {call : Call} {c c' : Codec} {chunk : Bytes} {ret : ErrorCode} {errno : Errno}
    (hread : call.read = .bytes chunk) (hchunk : chunk ≠ [])
    (hrest : (recordFormat.frames (c.input ++ chunk)).2 = [])
    (hend : (recordFormat.frames (c.input ++ chunk)).1.any Record.isStdinEnd = true)
    (hout : (readData backend call c).outcome = .ok (ret, errno, c')) : Idle c' := by
  obtain ⟨c₁, hcall, hview⟩ := readData_bytes backend hread hchunk c
  have hgot : c₁.gotRequest = true := by
    have hacc : c₁.gotRequest = (recordFormat.feed Accum.handle c.view chunk).1.gotRequest :=
      congrArg (fun v => v.1.gotRequest) hview
    rw [hacc]
    exact Accum.gotRequest_feed_of_stdinEnd hend
  have hin : c₁.input = [] := (congrArg Prod.snd hview).trans hrest
  rw [hcall] at hout
  by_cases hbad : MalformedBody c₁.params c₁.stdin.contents
  · rw [finish_of_malformed backend hgot hbad] at hout
    cases hout
  · obtain ⟨qmap, header, w, -, hfin⟩ := finish_of_got backend call hgot hbad
    rw [hfin] at hout
    cases hout
    refine ⟨c₁.keepConn, ?_⟩
    rw [c₁.view_clearRequest, hin]
    rfl

end Cocgi

/-! ## Recovery -/

/-- Between two requests, a codec is alike to a new one before bytes that open a request. -/
theorem Cocgi.Idle.alike {c : Codec} (h : Cocgi.Idle c) {rest : Bytes}
    (hopens : OpensRequest rest) : Alike rest c.view Codec.new.view := by
  obtain ⟨keepConn, hview⟩ := h
  rw [hview, Codec.view_new]
  exact .clean keepConn false [] hopens

/-- **The codecs recover after any request, valid or malformed.** From any codec whatsoever, a chunk
after which the input consists of complete records, an empty `STDIN` record among them, leaves
nothing behind but `keepConn`; and later bytes that open a request make both servers do what they
do on a new connection. -/
theorem codecs_recover (c : Codec) (chunk : Bytes)
    (hrest : (recordFormat.frames (c.input ++ chunk)).2 = [])
    (hend : (recordFormat.frames (c.input ++ chunk)).1.any Record.isStdinEnd = true) :
    (∃ actions c', Mucgi.deliver c chunk = .ok (actions, c') ∧ Cocgi.Idle c' ∧
      ∀ chunks, OpensRequest chunks.flatten → ∃ later d d',
        Mucgi.run c' chunks = .ok (later, d) ∧ Mucgi.run Codec.new chunks = .ok (later, d')) ∧
    ∀ backend call ret errno c', call.read = .bytes chunk → chunk ≠ [] →
      (Cocgi.readData backend call c).outcome = .ok (ret, errno, c') →
        Cocgi.Idle c' ∧
          ∀ calls, OpensRequest (calls.filterMap Cocgi.Call.chunk).flatten →
            (Cocgi.readAll backend c' calls).map Cocgi.Report.observed
                = (Cocgi.readAll backend Codec.new calls).map Cocgi.Report.observed ∧
              ∀ recycle, (Cocgi.serve backend c' recycle calls).1.map Cocgi.Report.observed
                = (Cocgi.serve backend Codec.new recycle calls).1.map Cocgi.Report.observed := by
  constructor
  · obtain ⟨actions, c', hdeliver, hidle⟩ := Mucgi.deliver_idle hrest hend
    refine ⟨actions, c', hdeliver, hidle, fun chunks hopens => ?_⟩
    exact Mucgi.run_alike (hidle.alike hopens)
  · intro backend call ret errno c' hread hchunk hout
    have hidle := Cocgi.readData_idle backend hread hchunk hrest hend hout
    refine ⟨hidle, fun calls hopens => ⟨?_, fun recycle => ?_⟩⟩
    · exact Cocgi.readAll_alike backend (hidle.alike hopens)
    · exact Cocgi.serve_alike backend recycle (hidle.alike hopens)

/-- Parameters that cannot be parsed, and the end of a request that was never begun. -/
def strayRecords : List Record :=
  [.plain .params [0x85] (by decide), .plain .params [] Record.content_nil_lt,
    .plain .stdin [] Record.content_nil_lt]

/-- A new codec recovers after them. -/
theorem codecs_recover_stray :
    (recordFormat.frames (Codec.new.input ++ strayRecords.flatMap Record.encode)).2 = [] ∧
      strayRecords.any Record.isStdinEnd = true ∧
      ∃ actions c', Mucgi.deliver Codec.new (strayRecords.flatMap Record.encode)
        = .ok (actions, c') ∧ Cocgi.Idle c' := by
  have hinput : Codec.new.input = [] := congrArg Prod.snd Codec.view_new
  have hframes : recordFormat.frames (Codec.new.input ++ strayRecords.flatMap Record.encode)
      = (strayRecords, []) := by
    rw [hinput, List.nil_append]
    exact recordFormat.frames_flatMap_encode strayRecords
  have hrest := congrArg Prod.snd hframes
  have hend : strayRecords.any Record.isStdinEnd = true := by decide
  obtain ⟨⟨actions, c', hdeliver, hidle, -⟩, -⟩ := codecs_recover Codec.new
    (strayRecords.flatMap Record.encode) hrest (by rw [hframes]; exact hend)
  exact ⟨hrest, hend, actions, c', hdeliver, hidle⟩

end FastCgi
