import FastCgi.Segmentation

/-! # Well-formed requests

A responder request as a web server sends it: a `BEGIN_REQUEST` record, the name-value pairs cut
into `PARAMS` records and closed by an empty one, the body cut into `STDIN` records and closed by
an empty one, and records of other types anywhere before the last. `Request` carries such a list of
records with the proofs that it is laid out so; padding, version, id and the reserved bytes are
free. `Request.handle_records` says what handling all of its records makes of clean accumulators,
and `Request.not_isStdinEnd_of_append` that nothing is complete before the last record. -/

namespace FastCgi

/-- The record types the codecs act on: `BEGIN_REQUEST`, `PARAMS` and `STDIN`. -/
def Record.isCore (r : Record) : Bool :=
  r.type == FcgiType.beginRequest.toByte || r.type == FcgiType.params.toByte ||
    r.type == FcgiType.stdin.toByte

/-- An empty `STDIN` record, which completes a request. -/
def Record.isStdinEnd (r : Record) : Bool :=
  r.type == FcgiType.stdin.toByte && r.contentData.isEmpty

/-! ## Handling records by type -/

namespace Accum

variable (s : Accum) {r : Record}

theorem handle_beginRequest (h : r.type = FcgiType.beginRequest.toByte) :
    s.handle r = (s.onBeginRequest r.contentData).2 := by
  rw [handle, h]
  rfl

theorem handle_params (h : r.type = FcgiType.params.toByte) :
    s.handle r = (s.onParams r.contentData).2 := by
  rw [handle, h]
  rfl

theorem handle_stdin (h : r.type = FcgiType.stdin.toByte) :
    s.handle r = s.onStdin r.contentData := by
  rw [handle, h]
  rfl

/-- Records of all other types are ignored. -/
theorem handle_of_not_isCore (h : r.isCore = false) : s.handle r = s := by
  simp only [Record.isCore, Bool.or_eq_false_iff, beq_eq_false_iff_ne] at h
  rw [handle]
  cases ht : FcgiType.ofByte r.type with
  | none => rfl
  | some t =>
      have hbyte := FcgiType.toByte_of_ofByte ht
      cases t with
      | beginRequest => exact absurd hbyte.symm h.1.1
      | params => exact absurd hbyte.symm h.1.2
      | stdin => exact absurd hbyte.symm h.2
      | invalid | abortRequest | endRequest | stdout | stderr | data | getValues
      | getValuesResult => rfl

/-- Only the records the codecs act on matter. -/
theorem foldl_handle_filter (rs : List Record) :
    rs.foldl handle s = (rs.filter Record.isCore).foldl handle s := by
  induction rs generalizing s with
  | nil => rfl
  | cons r rs ih =>
      cases h : r.isCore with
      | true => rw [List.filter_cons_of_pos h, List.foldl_cons, List.foldl_cons, ih]
      | false =>
          rw [List.filter_cons_of_neg (by simp [h]), List.foldl_cons, s.handle_of_not_isCore h, ih]

/-- A record completes the request iff it is an empty `STDIN` record. -/
theorem gotRequest_handle : (s.handle r).gotRequest = (s.gotRequest || r.isStdinEnd) := by
  cases hcore : r.isCore with
  | false =>
      have hend : r.isStdinEnd = false := by
        simp only [Record.isCore, Bool.or_eq_false_iff] at hcore
        simp [Record.isStdinEnd, hcore.2]
      rw [s.handle_of_not_isCore hcore, hend, Bool.or_false]
  | true =>
      simp only [Record.isCore, Bool.or_eq_true, beq_iff_eq] at hcore
      obtain (hb | hp) | hs := hcore
      -- of the three types the codecs act on, only `STDIN` touches the flag
      · have hend : r.isStdinEnd = false := by rw [Record.isStdinEnd, hb]; rfl
        rw [s.handle_beginRequest hb, hend, onBeginRequest]
        split <;> simp
      · have hend : r.isStdinEnd = false := by rw [Record.isStdinEnd, hp]; rfl
        rw [s.handle_params hp, hend, onParams]
        split <;> simp [parseAllParams]
      · rw [s.handle_stdin hs, onStdin]
        by_cases hc : r.contentData = []
        · simp [hc, Record.isStdinEnd, hs]
        · simp [hc, Record.isStdinEnd]

theorem gotRequest_foldl_handle (rs : List Record) :
    (rs.foldl handle s).gotRequest = (s.gotRequest || rs.any Record.isStdinEnd) := by
  induction rs generalizing s with
  | nil => simp
  | cons r rs ih =>
      rw [List.foldl_cons, ih, s.gotRequest_handle, List.any_cons, Bool.or_assoc]

/-- Non-empty `PARAMS` records extend the params stream by their contents. -/
theorem foldl_handle_params (rs : List Record)
    (h : ∀ r ∈ rs, r.type = FcgiType.params.toByte ∧ r.contentData ≠ []) :
    rs.foldl handle s
      = { s with paramsStream := s.paramsStream ++ rs.flatMap Record.contentData } := by
  induction rs generalizing s with
  | nil => simp
  | cons r rs ih =>
      obtain ⟨ht, hc⟩ := h r List.mem_cons_self
      rw [List.foldl_cons, s.handle_params ht, onParams, if_neg hc,
        ih _ (fun r' hr' => h r' (List.mem_cons_of_mem _ hr'))]
      simp

/-- Non-empty `STDIN` records extend the body by their contents. -/
theorem foldl_handle_stdin (rs : List Record)
    (h : ∀ r ∈ rs, r.type = FcgiType.stdin.toByte ∧ r.contentData ≠ []) :
    rs.foldl handle s = { s with stdin := s.stdin ++ rs.flatMap Record.contentData } := by
  induction rs generalizing s with
  | nil => simp
  | cons r rs ih =>
      obtain ⟨ht, hc⟩ := h r List.mem_cons_self
      rw [List.foldl_cons, s.handle_stdin ht, onStdin, if_neg hc,
        ih _ (fun r' hr' => h r' (List.mem_cons_of_mem _ hr'))]
      simp

end Accum

/-! ## Requests -/

/-- A **well-formed responder request**: its records, and how they are laid out. -/
structure Request where
  /-- All records of the request, in the order they are sent. -/
  records : List Record
  beginRecord : Record
  paramsRecords : List Record
  paramsEnd : Record
  stdinRecords : List Record
  stdinEnd : Record
  /-- The parameters, with the forms their lengths are written in. -/
  pairs : List Pair
  core_eq : records.filter Record.isCore
    = beginRecord :: paramsRecords ++ paramsEnd :: stdinRecords ++ [stdinEnd]
  /-- Nothing follows the empty `STDIN` record. -/
  last_eq : records.getLast? = some stdinEnd
  begin_type : beginRecord.type = FcgiType.beginRequest.toByte
  begin_length : 8 ≤ beginRecord.contentData.length
  begin_role : beginRecord.contentData.take 2 = [0, 1]
  params_type : ∀ r ∈ paramsRecords, r.type = FcgiType.params.toByte ∧ r.contentData ≠ []
  params_content : paramsRecords.flatMap Record.contentData = pairs.flatMap Pair.encode
  paramsEnd_type : paramsEnd.type = FcgiType.params.toByte
  paramsEnd_content : paramsEnd.contentData = []
  stdin_type : ∀ r ∈ stdinRecords, r.type = FcgiType.stdin.toByte ∧ r.contentData ≠ []
  stdinEnd_type : stdinEnd.type = FcgiType.stdin.toByte
  stdinEnd_content : stdinEnd.contentData = []

namespace Request

variable (q : Request)

/-- The bytes of the request. -/
def bytes : Bytes := q.records.flatMap Record.encode

/-- The flags of the request. -/
def flags : UInt8 := Accum.beginFlags q.beginRecord.contentData

/-- The parameters of the request, later pairs of a name winning. -/
def params : ParamMap := storePairs ∅ q.pairs

/-- The body of the request. -/
def body : Bytes := q.stdinRecords.flatMap Record.contentData

theorem stdinEnd_isCore : q.stdinEnd.isCore = true := by
  rw [Record.isCore, q.stdinEnd_type]
  rfl

theorem stdinEnd_isStdinEnd : q.stdinEnd.isStdinEnd = true := by
  rw [Record.isStdinEnd, q.stdinEnd_type, q.stdinEnd_content]
  rfl

/-- The records are those before the empty `STDIN` record, followed by it. -/
theorem records_eq : q.records = q.records.dropLast ++ [q.stdinEnd] := by
  have hne : q.records ≠ [] := by
    intro hnil
    have h := q.last_eq
    rw [hnil] at h
    cases h
  have hlast : q.records.getLast hne = q.stdinEnd := by
    have h := q.last_eq
    rw [List.getLast?_eq_some_getLast hne] at h
    exact Option.some.inj h
  rw [← hlast, List.dropLast_append_getLast hne]

theorem core_dropLast : q.records.dropLast.filter Record.isCore
    = q.beginRecord :: q.paramsRecords ++ q.paramsEnd :: q.stdinRecords := by
  have h := q.core_eq
  rw [q.records_eq, List.filter_append, List.filter_cons_of_pos q.stdinEnd_isCore,
    List.filter_nil] at h
  exact List.append_cancel_right h

/-- No record before the last completes the request. -/
theorem not_isStdinEnd_of_mem_dropLast {r : Record} (h : r ∈ q.records.dropLast) :
    r.isStdinEnd = false := by
  by_contra hend
  rw [Bool.not_eq_false] at hend
  obtain ⟨ht, hc⟩ : r.type = FcgiType.stdin.toByte ∧ r.contentData = [] := by
    simpa [Record.isStdinEnd] using hend
  have hcore : r.isCore = true := by rw [Record.isCore, ht]; rfl
  have hmem : r ∈ q.records.dropLast.filter Record.isCore := List.mem_filter.mpr ⟨h, hcore⟩
  rw [q.core_dropLast] at hmem
  simp only [List.cons_append, List.mem_cons, List.mem_append] at hmem
  -- an empty `STDIN` record among the core records can only be the last one
  have hne : FcgiType.stdin.toByte ≠ FcgiType.beginRequest.toByte ∧
      FcgiType.stdin.toByte ≠ FcgiType.params.toByte := by decide
  obtain rfl | hp | rfl | hs := hmem
  · exact hne.1 (ht.symm.trans q.begin_type)
  · exact hne.2 (ht.symm.trans (q.params_type r hp).1)
  · exact hne.2 (ht.symm.trans q.paramsEnd_type)
  · exact (q.stdin_type r hs).2 hc

/-- **Nothing is complete before the last record.** -/
theorem not_isStdinEnd_of_append {rs missing : List Record} (h : q.records = rs ++ missing)
    (hne : missing ≠ []) : rs.any Record.isStdinEnd = false := by
  rw [List.any_eq_false]
  intro r hr
  have hmem : r ∈ q.records.dropLast := by
    rw [h, List.dropLast_append_of_ne_nil hne]
    exact List.mem_append_left _ hr
  simp [q.not_isStdinEnd_of_mem_dropLast hmem]

theorem beginAccepted : Accum.beginAccepted q.beginRecord.contentData = true := by
  obtain ⟨role1, role0, flags, tail, hcontent, hacc⟩ :=
    Accum.beginAccepted_of_length_le q.begin_length
  have hrole := q.begin_role
  rw [hcontent] at hrole
  simp only [List.take_succ_cons, List.take_zero, List.cons.injEq, and_true] at hrole
  rw [hacc, hrole.1, hrole.2]
  rfl

/-- Accumulators that hold nothing of an earlier request. The flag `keepConn` may be left over: it
is overwritten by the next accepted `BEGIN_REQUEST`. -/
def clean (keepConn : Bool) : Accum := ⟨false, keepConn, [], [], ∅⟩

/-- **Handling all records of a request** makes clean accumulators hold exactly this request. -/
theorem handle_records (keepConn : Bool) :
    q.records.foldl Accum.handle (clean keepConn)
      = ⟨true, q.flags == Codec.kFcgiKeepConn, q.body, [], q.params⟩ := by
  -- the core records in the order they are sent: begin, params, stdin
  rw [Accum.foldl_handle_filter, q.core_eq]
  simp only [List.cons_append, List.foldl_cons, List.foldl_append, List.foldl_nil]
  rw [Accum.handle_beginRequest _ q.begin_type, Accum.onBeginRequest, if_pos q.beginAccepted,
    Accum.foldl_handle_params _ _ q.params_type, Accum.handle_params _ q.paramsEnd_type,
    Accum.onParams, if_pos q.paramsEnd_content, Accum.parseAllParams]
  -- the stream closed by the empty record consists of the pairs and nothing else
  have hframes := pairFormat.frames_flatMap_encode q.pairs
  have hstream : ∀ s : Bytes, s = q.pairs.flatMap Pair.encode →
      pairFormat.frames s = (q.pairs, []) := by
    rintro s rfl
    exact hframes
  simp only [clean, List.nil_append]
  rw [hstream _ q.params_content, Accum.foldl_handle_stdin _ _ q.stdin_type,
    Accum.handle_stdin _ q.stdinEnd_type, Accum.onStdin, if_pos q.stdinEnd_content]
  simp [params, body, flags]

end Request

/-- A record of version 1 and id 1 without padding. -/
def Record.plain (type : FcgiType) (content : Bytes) (h : content.length < 2 ^ 16) : Record :=
  ⟨1, type.toByte, 0, 1, 0, content, [], h, padding_nil_lt⟩

/-- A request with one parameter and a body, each in one record. -/
def Request.single (flags : UInt8) (pair : Pair) (body : Bytes)
    (hpair : pair.encode.length < 2 ^ 16) (hbody : body.length < 2 ^ 16) (hne : body ≠ []) :
    Request where
  records :=
    [.plain .beginRequest [0, 1, flags, 0, 0, 0, 0, 0] (by simp), .plain .params pair.encode hpair,
      .plain .params [] Record.content_nil_lt, .plain .stdin body hbody,
      .plain .stdin [] Record.content_nil_lt]
  beginRecord := .plain .beginRequest [0, 1, flags, 0, 0, 0, 0, 0] (by simp)
  paramsRecords := [.plain .params pair.encode hpair]
  paramsEnd := .plain .params [] Record.content_nil_lt
  stdinRecords := [.plain .stdin body hbody]
  stdinEnd := .plain .stdin [] Record.content_nil_lt
  pairs := [pair]
  core_eq := rfl
  last_eq := rfl
  begin_type := rfl
  begin_length := le_rfl
  begin_role := rfl
  params_type := by
    intro r hr
    rw [List.mem_singleton] at hr
    subst hr
    exact ⟨rfl, pairFormat.encode_ne_nil pair⟩
  params_content := rfl
  paramsEnd_type := rfl
  paramsEnd_content := rfl
  stdin_type := by
    intro r hr
    rw [List.mem_singleton] at hr
    subst hr
    exact ⟨rfl, hne⟩
  stdinEnd_type := rfl
  stdinEnd_content := rfl

/-! ## Requests that arrive in pieces -/

/-- The records `rs` end with the completion of a request, and not before. -/
structure EndsRequest (rs : List Record) : Prop where
  quiet : ∀ {started missing}, rs = started ++ missing → missing ≠ [] →
    started.any Record.isStdinEnd = false
  complete : rs.any Record.isStdinEnd = true

theorem Request.endsRequest_records (q : Request) : EndsRequest q.records where
  quiet := q.not_isStdinEnd_of_append
  complete := by
    rw [q.records_eq, List.any_append, List.any_cons, q.stdinEnd_isStdinEnd]
    simp

/-- As long as bytes are missing, the request is not complete. -/
theorem EndsRequest.not_gotRequest_feed {rs : List Record} (hends : EndsRequest rs)
    {v : Accum × Bytes} (hgot : v.1.gotRequest = false) {b rest : Bytes}
    (hbytes : v.2 ++ (b ++ rest) = rs.flatMap Record.encode) (hrest : rest ≠ []) :
    (recordFormat.feed Accum.handle v b).1.gotRequest = false := by
  rw [← List.append_assoc] at hbytes
  obtain ⟨missing, hrs, hmissing⟩ := recordFormat.frames_prefix hbytes
  have hmissing_ne := recordFormat.frames_prefix_ne hmissing hrest
  rw [Framing.Format.feed, Accum.gotRequest_foldl_handle, hgot, hends.quiet hrs hmissing_ne]
  rfl

/-- A request and a cutting of its bytes into non-empty chunks. -/
structure Delivery where
  request : Request
  chunks : List Bytes
  chunks_ne_nil : ∀ chunk ∈ chunks, chunk ≠ []
  flatten_chunks : chunks.flatten = request.bytes

theorem Request.bytes_ne_nil (q : Request) : q.bytes ≠ [] := by
  rw [bytes, q.records_eq, List.flatMap_append]
  simp [Record.encode]

theorem Delivery.chunks_ne (d : Delivery) : d.chunks ≠ [] := by
  intro hnil
  have hbytes := d.flatten_chunks
  rw [hnil, List.flatten_nil] at hbytes
  exact d.request.bytes_ne_nil hbytes.symm

/-! ## Clearing a request -/

/-- Clear what was accumulated for a request. -/
def Accum.reset (s : Accum) : Accum := Request.clean s.keepConn

theorem Codec.view_clearRequest (c : Codec) : c.clearRequest.view = (c.accum.reset, c.input) := by
  simp [clearRequest, view, accum, input, Accum.reset, Request.clean]

theorem Codec.view_new : Codec.new.view = (Request.clean false, []) := by
  simp [view, accum, input, new, Request.clean]

end FastCgi
