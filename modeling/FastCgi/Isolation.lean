import FastCgi.Windows

/-! # Two requests on one connection

The codecs serve one request of a connection at a time: a web server sends the next request when it
has the answer to the last one. The parse loops rely on this. They drain all records of the input
before the handler is invoked and the accumulators are cleared, so what a chunk holds of the next
request behind the end of the last one is accumulated in the wrong window.

`spill` is what a chunk holds of the next request, and `requests_isolated` says that two requests
are kept apart as long as no record with a part of the parameters or of the body is in it. -/

namespace FastCgi

/-- The bytes behind the first `n` that arrive in one chunk with the `n`-th. -/
def spill : Nat → List Bytes → Bytes
  | _, [] => []
  | n, chunk :: chunks =>
    if n ≤ chunk.length then chunk.drop n else spill (n - chunk.length) chunks

/-- A record is **inert** when it adds nothing to a request in which the params stream has been
parsed, and nothing to one that has just begun: all but the `STDIN` records and the non-empty
`PARAMS` records. -/
def Record.Inert (r : Record) : Prop :=
  r.type ≠ FcgiType.stdin.toByte ∧ (r.type = FcgiType.params.toByte → r.contentData = [])

/-! ## Inert records -/

namespace Accum

/-- An inert record at most decides anew whether the connection is kept, whether the request has
been cleared before or not. -/
theorem handle_of_inert {s : Accum} (hs : s.paramsStream = []) {r : Record} (hr : r.Inert) :
    ∃ keepConn, s.handle r = { s with keepConn } ∧ s.reset.handle r = Request.clean keepConn := by
  cases hcore : r.isCore with
  | false =>
      exact ⟨s.keepConn, s.handle_of_not_isCore hcore, s.reset.handle_of_not_isCore hcore⟩
  | true =>
      simp only [Record.isCore, Bool.or_eq_true, beq_iff_eq] at hcore
      obtain (hb | hp) | hstdin := hcore
      · rw [s.handle_beginRequest hb, s.reset.handle_beginRequest hb, onBeginRequest,
          onBeginRequest]
        split
        · exact ⟨_, rfl, rfl⟩
        · exact ⟨s.keepConn, rfl, rfl⟩
      -- an empty record finds an empty stream, here and after the reset
      · rw [s.handle_params hp, s.reset.handle_params hp, onParams, onParams,
          if_pos (hr.2 hp), if_pos (hr.2 hp)]
        refine ⟨s.keepConn, ?_, rfl⟩
        simp only [parseAllParams, hs, pairFormat.frames_nil, residue_nil]
        rw [← hs]
        rfl
      · exact absurd hstdin hr.1

theorem foldl_handle_of_inert {s : Accum} (hs : s.paramsStream = []) {rs : List Record}
    (hrs : ∀ r ∈ rs, r.Inert) :
    ∃ keepConn, rs.foldl handle s = { s with keepConn } ∧
      rs.foldl handle s.reset = Request.clean keepConn := by
  induction rs generalizing s with
  | nil => exact ⟨s.keepConn, rfl, rfl⟩
  | cons r rs ih =>
      obtain ⟨keepConn, hstep, hreset⟩ := handle_of_inert hs (hrs r List.mem_cons_self)
      obtain ⟨keepConn', hrun, hrun'⟩ := ih (s := { s with keepConn }) hs
        fun r' hr' => hrs r' (List.mem_cons_of_mem _ hr')
      refine ⟨keepConn', ?_, ?_⟩
      · rw [List.foldl_cons, hstep, hrun]
      · rw [List.foldl_cons, hreset]
        exact hrun'

end Accum

/-! ## The window of one request -/

/-- What is missing of records that end a request ends it too. -/
theorem EndsRequest.of_append {started missing : List Record}
    (h : EndsRequest (started ++ missing)) (hne : missing ≠ []) : EndsRequest missing where
  quiet := by
    intro more rest hmore hrest
    have hall : started ++ missing = (started ++ more) ++ rest := by rw [hmore, List.append_assoc]
    have hquiet := h.quiet hall hrest
    rw [List.any_append, Bool.or_eq_false_iff] at hquiet
    exact hquiet.2
  complete := by
    have hcomplete := h.complete
    rw [List.any_append, h.quiet rfl hne, Bool.false_or] at hcomplete
    exact hcomplete

theorem EndsRequest.ne_nil {rs : List Record} (h : EndsRequest rs) : rs ≠ [] := by
  rintro rfl
  exact absurd h.complete (by decide)

theorem Window.extend_extend (w : Window) (rs rs' : List Record) :
    (w.extend rs).extend rs' = w.extend (rs ++ rs') := by
  simp only [extend, List.append_assoc]

theorem Window.accum_extend_gotRequest (w : Window) (rs : List Record) :
    (w.extend rs).accum.gotRequest = (w.accum.gotRequest || rs.any Record.isStdinEnd) := by
  rw [accum_extend, Accum.gotRequest_foldl_handle]

/-- The pending input is shorter than records of which it holds none completely. -/
theorem length_pending_lt {pending rest tail : Bytes} {rs : List Record} (hne : rs ≠ [])
    (hcut : recordFormat.cut pending = none)
    (hbytes : pending ++ rest = rs.flatMap Record.encode ++ tail) :
    pending.length < (rs.flatMap Record.encode).length := by
  by_contra hle
  obtain ⟨more, hmore⟩ : rs.flatMap Record.encode <+: pending :=
    List.prefix_of_prefix_length_le ⟨tail, hbytes.symm⟩ ⟨rest, rfl⟩ (by omega)
  have hframes := recordFormat.frames_flatMap_encode_append rs more
  rw [show rs.flatMap recordFormat.encode ++ more = pending from hmore,
    recordFormat.frames_of_cut_none hcut] at hframes
  have hnil := congrArg Prod.fst hframes
  simp only [List.nil_eq, List.append_eq_nil_iff] at hnil
  exact hne hnil.1

/-- A chunk ends the records that are due, or leaves some bytes of them to come. -/
theorem ends_or_leaves {received due rest tail : Bytes} (h : received ++ rest = due ++ tail) :
    (∃ more, received = due ++ more ∧ more ++ rest = tail) ∨
      ∃ left, left ≠ [] ∧ due = received ++ left ∧ rest = left ++ tail := by
  obtain ⟨left, hdue, hrest⟩ | ⟨more, hreceived, htail⟩ := List.append_eq_append_iff.mp h
  · by_cases hleft : left = []
    · subst hleft
      exact .inl ⟨[], by rw [hdue, List.append_nil, List.append_nil], hrest⟩
    · exact .inr ⟨left, hleft, hdue, hrest⟩
  · exact .inl ⟨more, hreceived, htail.symm⟩

/-- What a chunk spills is what it holds behind the records that are due. -/
theorem spill_of_ends {pending chunk due more : Bytes} {chunks : List Bytes}
    (h : pending ++ chunk = due ++ more) (hlt : pending.length < due.length) :
    spill (due.length - pending.length) (chunk :: chunks) = more := by
  have hlen := congrArg List.length h
  simp only [List.length_append] at hlen
  have hdrop := congrArg (List.drop due.length) h
  rw [List.drop_left, List.drop_append, List.drop_of_length_le hlt.le, List.nil_append] at hdrop
  rw [spill, if_pos (by omega), hdrop]

/-- **The window of one request.** The pending input and the chunks begin with the records `rs`,
which end with the completion of a request, followed by `tail`. The first window that ends has the
records `rs` and those that were spilled, and the rest of the spilled bytes stays pending. -/
theorem windows_of_endsRequest {w : Window} {pending tail : Bytes} {rs : List Record}
    {chunks : List Bytes} (hends : EndsRequest rs) (hgot : w.accum.gotRequest = false)
    (hcut : recordFormat.cut pending = none)
    (hbytes : pending ++ chunks.flatten = rs.flatMap Record.encode ++ tail) {spilled : Bytes}
    (hspilled : spill ((rs.flatMap Record.encode).length - pending.length) chunks = spilled) :
    ∃ after : List Bytes, spilled ++ after.flatten = tail ∧
      windows w pending chunks = w.extend (rs ++ (recordFormat.frames spilled).1) ::
        windows (w.extend (rs ++ (recordFormat.frames spilled).1)).next
          (recordFormat.frames spilled).2 after := by
  induction chunks generalizing w pending rs with
  | nil =>
      have hlt := length_pending_lt hends.ne_nil hcut hbytes
      have hlen := congrArg List.length hbytes
      simp only [List.flatten_nil, List.length_append, List.length_nil] at hlen
      omega
  | cons chunk chunks ih =>
      have hlt := length_pending_lt hends.ne_nil hcut hbytes
      rw [List.flatten_cons, ← List.append_assoc] at hbytes
      rw [windows]
      obtain ⟨more, hmore, htail⟩ | ⟨left, hleft, hdue, hrest⟩ := ends_or_leaves hbytes
      -- the request ends in this chunk, and `more` is what the chunk holds behind it
      · rw [spill_of_ends hmore hlt] at hspilled
        subst hspilled
        have hframes : recordFormat.frames (pending ++ chunk)
            = (rs ++ (recordFormat.frames more).1, (recordFormat.frames more).2) := by
          rw [hmore]
          exact recordFormat.frames_flatMap_encode_append rs more
        have hend : (w.extend (rs ++ (recordFormat.frames more).1)).accum.gotRequest = true := by
          rw [Window.accum_extend_gotRequest, List.any_append, hends.complete]
          simp
        exact ⟨chunks, htail, by rw [hframes, if_pos hend]⟩
      · -- the records of this chunk are a part of `rs`, and `missing` is still to come
        obtain ⟨missing, hrs, hmissing⟩ := recordFormat.frames_prefix hdue.symm
        have hne := recordFormat.frames_prefix_ne hmissing hleft
        have hquiet : (w.extend (recordFormat.frames (pending ++ chunk)).1).accum.gotRequest
            = false := by
          rw [Window.accum_extend_gotRequest, hgot, hends.quiet hrs hne]
          rfl
        have hlen₁ := congrArg List.length hdue
        have hlen₂ : _ = (missing.flatMap Record.encode).length := congrArg List.length hmissing
        have hpos := List.length_pos_iff.mpr hleft
        simp only [List.length_append] at hlen₁ hlen₂
        rw [spill, if_neg (by omega), show (rs.flatMap Record.encode).length - pending.length
          - chunk.length = (missing.flatMap Record.encode).length
            - (recordFormat.frames (pending ++ chunk)).2.length by omega] at hspilled
        have hbytes' : (recordFormat.frames (pending ++ chunk)).2 ++ chunks.flatten
            = missing.flatMap Record.encode ++ tail := by
          rw [hrest, ← List.append_assoc, hmissing]
          rfl
        rw [hrs] at hends
        obtain ⟨after, hafter, hwindows⟩ := ih (hends.of_append hne) hquiet
          (recordFormat.cut_frames_snd _) hbytes' hspilled
        refine ⟨after, hafter, ?_⟩
        rw [if_neg (by rw [hquiet]; decide), hwindows, Window.extend_extend, ← List.append_assoc,
          ← hrs]

/-- No window ends while nothing arrives. -/
theorem windows_of_flatten_eq_nil {w : Window} {chunks : List Bytes}
    (hgot : w.accum.gotRequest = false) (h : chunks.flatten = []) : windows w [] chunks = [] := by
  induction chunks generalizing w with
  | nil => rfl
  | cons chunk chunks ih =>
      rw [List.flatten_cons, List.append_eq_nil_iff] at h
      obtain ⟨rfl, hrest⟩ := h
      have hsame : (w.extend []).accum.gotRequest = false := by
        rw [Window.accum_extend]
        exact hgot
      rw [windows, List.append_nil, recordFormat.frames_nil, if_neg (by rw [hsame]; decide)]
      exact ih hsame hrest

/-! ## Two requests -/

/-- What is to be handed over for a request. -/
def Request.handed (q : Request) : ParamMap × Bytes := (q.params, q.body)

/-- The last record of a request is not inert. -/
theorem Request.exists_not_inert (q : Request) : ∃ r ∈ q.records, ¬ r.Inert := by
  refine ⟨q.stdinEnd, ?_, fun h => h.1 q.stdinEnd_type⟩
  rw [q.records_eq]
  simp

/-- The records of a request behind inert ones, from accumulators that hold nothing but what the
inert ones left: its window ends with the last of them. -/
theorem windows_of_missing {q : Request} {started missing : List Record} {keepConn keepConn' : Bool}
    {pending : Bytes} {chunks : List Bytes} (hq : q.records = started ++ missing)
    (hne : missing ≠ [])
    (hstarted : started.foldl Accum.handle (Request.clean keepConn) = Request.clean keepConn')
    (hcut : recordFormat.cut pending = none)
    (hbytes : pending ++ chunks.flatten = missing.flatMap Record.encode) :
    (windows ⟨Request.clean keepConn', []⟩ pending chunks).map Window.handed = [q.handed] := by
  have hends := q.endsRequest_records
  rw [hq] at hends
  rw [← List.append_nil (missing.flatMap Record.encode)] at hbytes
  obtain ⟨after, hafter, hwindows⟩ := windows_of_endsRequest
    (w := ⟨Request.clean keepConn', []⟩) (hends.of_append hne) rfl hcut hbytes rfl
  obtain ⟨hspilled, hafter⟩ := List.append_eq_nil_iff.mp hafter
  have haccum : missing.foldl Accum.handle (Request.clean keepConn')
      = ⟨true, q.flags == Codec.kFcgiKeepConn, q.body, [], q.params⟩ := by
    rw [← hstarted, ← List.foldl_append, ← hq, q.handle_records]
  rw [hwindows, hspilled, recordFormat.frames_nil, windows_of_flatten_eq_nil rfl hafter,
    List.append_nil, List.map_singleton, Window.handed, Window.accum_extend]
  exact congrArg (fun s : Accum => [(s.params, s.stdin)]) haccum

/-- Two requests whose spilled records are inert end two windows, each with its own request. -/
theorem windows_of_inert_spill {a b : Request} {chunks : List Bytes}
    (hbytes : chunks.flatten = a.bytes ++ b.bytes)
    (hinert : ∀ r ∈ (recordFormat.frames (spill a.bytes.length chunks)).1, r.Inert)
    (keepConn : Bool) :
    (windows ⟨Request.clean keepConn, []⟩ [] chunks).map Window.handed = [a.handed, b.handed] := by
  obtain ⟨after, hafter, hwindows⟩ := windows_of_endsRequest (w := ⟨Request.clean keepConn, []⟩)
    a.endsRequest_records rfl recordFormat.cut_nil hbytes rfl
  rw [List.length_nil, Nat.sub_zero, show (a.records.flatMap Record.encode).length
    = a.bytes.length from rfl] at hafter hwindows
  -- what was spilled of `b` only decides whether the connection is kept
  obtain ⟨keepConn', hspilled, hstarted⟩ := Accum.foldl_handle_of_inert
    (s := ⟨true, a.flags == Codec.kFcgiKeepConn, a.body, [], a.params⟩) rfl hinert
  have haccum : (Window.extend ⟨Request.clean keepConn, []⟩
      (a.records ++ (recordFormat.frames (spill a.bytes.length chunks)).1)).accum
        = ⟨true, keepConn', a.body, [], a.params⟩ := by
    rw [Window.accum_extend, List.foldl_append, show Window.accum ⟨Request.clean keepConn, []⟩
      = Request.clean keepConn from rfl, a.handle_records, hspilled]
  obtain ⟨missing, hb, hmissing⟩ := recordFormat.frames_prefix hafter
  -- the last record of `b` is not inert, so it is still to come
  have hne : missing ≠ [] := by
    rintro rfl
    obtain ⟨r, hr, hnot⟩ := b.exists_not_inert
    rw [hb, List.append_nil] at hr
    exact hnot (hinert r hr)
  have hlast := windows_of_missing hb hne hstarted (recordFormat.cut_frames_snd _) hmissing
  rw [hwindows, List.map_cons, Window.handed, Window.next, haccum]
  exact congrArg (a.handed :: ·) hlast

/-- Fewer chunks end fewer windows. -/
theorem windows_prefix {w : Window} {pending : Bytes} {chunks more : List Bytes} :
    windows w pending chunks <+: windows w pending (chunks ++ more) := by
  induction chunks generalizing w pending with
  | nil => exact List.nil_prefix
  | cons chunk chunks ih =>
      rw [List.cons_append, windows, windows]
      split
      · exact List.cons_prefix_cons.mpr ⟨rfl, ih⟩
      · exact ih

/-- A run of `cocgi` makes the first of the invocations that all the chunks call for. -/
theorem Cocgi.invocations_prefix (backend : Backend) {c : Codec} {w : Window} {pending : Bytes}
    (hview : c.view = (w.accum, pending)) (recycle : Nat) (calls : List Call) :
    invocations (serve backend c recycle calls).1
      <+: (windows w pending (calls.filterMap Call.chunk)).map Window.handed := by
  rw [invocations_serve backend recycle calls hview]
  have hread : chunksRead backend c recycle calls <+: calls.filterMap Call.chunk :=
    (List.take_prefix _ calls).filterMap _
  obtain ⟨more, hmore⟩ := hread
  rw [← hmore]
  exact windows_prefix.map _

/-- **Two requests on one connection are kept apart** as long as the chunk that ends the first holds
no `STDIN` record and no non-empty `PARAMS` record of the second: `mucgi` invokes its callback on
the one and then on the other, and the invocations of `cocgi` are the first of these. -/
theorem requests_isolated (a b : Request) (chunks : List Bytes)
    (hbytes : chunks.flatten = a.bytes ++ b.bytes)
    (hinert : ∀ r ∈ (recordFormat.frames (spill a.bytes.length chunks)).1, r.Inert)
    (c : Codec) (hidle : Cocgi.Idle c) :
    (∃ actions c', Mucgi.run c chunks = .ok (actions, c') ∧
      Mucgi.callbacks actions = [a.handed, b.handed]) ∧
    ∀ (backend : Backend) (recycle : Nat) (calls : List Cocgi.Call),
      calls.filterMap Cocgi.Call.chunk = chunks →
        Cocgi.invocations (Cocgi.serve backend c recycle calls).1 <+: [a.handed, b.handed] := by
  obtain ⟨keepConn, hview⟩ := hidle
  have hwindows := windows_of_inert_spill hbytes hinert keepConn
  refine ⟨?_, fun backend recycle calls hcalls => ?_⟩
  · obtain ⟨c', hrun, -⟩ := Mucgi.run_refines c chunks
    refine ⟨_, c', hrun, ?_⟩
    rw [hview, ← hwindows]
    exact Mucgi.callbacks_runSpec ⟨Request.clean keepConn, []⟩ [] chunks
  · rw [← hwindows, ← hcalls]
    exact Cocgi.invocations_prefix backend (w := ⟨Request.clean keepConn, []⟩) hview recycle calls

/-! ## Requests sent without waiting for the answer -/

/-- A second keep-alive request. -/
def nextRequest : Request :=
  .single 1 ⟨StdString.literal "B", StdString.literal "2", .oneByte, .oneByte, by decide, by decide⟩
    (StdString.literal "y") (by decide) (by decide) (by decide)

/-- The chunk that ends the first request may hold the `BEGIN_REQUEST` record of the second. -/
theorem requests_isolated_sample :
    (∃ actions c', Mucgi.run Codec.new
        [Cocgi.sampleRequest.bytes ++ nextRequest.bytes.take 16, nextRequest.bytes.drop 16]
          = .ok (actions, c') ∧
      Mucgi.callbacks actions = [Cocgi.sampleRequest.handed, nextRequest.handed]) ∧
    ∀ (backend : Backend) (recycle : Nat) (calls : List Cocgi.Call),
      calls.filterMap Cocgi.Call.chunk
          = [Cocgi.sampleRequest.bytes ++ nextRequest.bytes.take 16, nextRequest.bytes.drop 16] →
        Cocgi.invocations (Cocgi.serve backend Codec.new recycle calls).1
          <+: [Cocgi.sampleRequest.handed, nextRequest.handed] := by
  refine requests_isolated Cocgi.sampleRequest nextRequest _ (by decide) ?_ Codec.new
    Cocgi.idle_new
  have hspill : spill Cocgi.sampleRequest.bytes.length
      [Cocgi.sampleRequest.bytes ++ nextRequest.bytes.take 16, nextRequest.bytes.drop 16]
        = [nextRequest.beginRecord].flatMap recordFormat.encode := by decide
  rw [hspill, recordFormat.frames_flatMap_encode]
  intro r hr
  rw [List.mem_singleton] at hr
  subst hr
  exact ⟨by decide, by decide⟩

/-- Both requests in one chunk. -/
def pipelinedBytes : Bytes := Cocgi.sampleRequest.bytes ++ nextRequest.bytes

theorem windows_pipelinedBytes :
    (windows .new [] [pipelinedBytes]).map Window.handed
      = [(((∅ : ParamMap).insert [65] [49]).insert [66] [50], [120, 121])] := by
  have hframes : recordFormat.frames ([] ++ pipelinedBytes)
      = (Cocgi.sampleRequest.records ++ nextRequest.records, []) := by
    rw [show [] ++ pipelinedBytes = (Cocgi.sampleRequest.records ++ nextRequest.records).flatMap
      recordFormat.encode from (List.flatMap_append).symm]
    exact recordFormat.frames_flatMap_encode _
  have hgot : (Window.new.extend (Cocgi.sampleRequest.records
      ++ nextRequest.records)).accum.gotRequest = true := by decide
  rw [windows, hframes, if_pos hgot]
  decide

/-- Two keep-alive requests in one chunk are handed over as one, with the parameters of both and
the one body behind the other. -/
theorem pipelined_mixed :
    (∃ actions c, Mucgi.run Codec.new [pipelinedBytes] = .ok (actions, c) ∧
      Mucgi.callbacks actions
        = [(((∅ : ParamMap).insert [65] [49]).insert [66] [50], [120, 121])]) ∧
    Cocgi.invocations (Cocgi.serve printRequest Codec.new 0
        [⟨0, .bytes pipelinedBytes, fun _ => .accept 65535⟩]).1
      = [(((∅ : ParamMap).insert [65] [49]).insert [66] [50], [120, 121])] ∧
    Cocgi.sampleRequest.flags = Codec.kFcgiKeepConn ∧ nextRequest.flags = Codec.kFcgiKeepConn ∧
    (((∅ : ParamMap).insert [65] [49]).insert [66] [50], [120, 121])
      ∉ [Cocgi.sampleRequest.handed, nextRequest.handed] := by
  refine ⟨?_, ?_, rfl, rfl, by decide⟩
  · obtain ⟨actions, c, hrun, hcallbacks⟩ := Mucgi.run_windows [pipelinedBytes]
    exact ⟨actions, c, hrun, hcallbacks.trans windows_pipelinedBytes⟩
  · rw [Cocgi.serve_windows, Cocgi.chunksRead, Cocgi.serve_singleton]
    exact windows_pipelinedBytes

end FastCgi
