import FastCgi.ParamsGrammar
import FastCgi.Windows

/-! # Which requests reach the backend

The record handlers report failure through booleans that the parse loops drop; the request handler
is invoked as soon as an empty `STDIN` record has been seen. So whether what it is invoked on is a
complete and valid request depends on the input alone. `Window.Valid` says what the record handlers
must have returned (by `Codec.onBeginRequest_refines` and `Codec.onParams_refines` the handlers of
the accumulators return what those of the codec return), `Window.WellFormed` what records must have
been sent, and `invocations_valid_iff` that the two agree at every invocation of every run of both
servers. -/

namespace FastCgi

/-! ## What the record handlers return -/

namespace Accum

/-- No `BEGIN_REQUEST` and no `PARAMS` record of a list is rejected. -/
def AcceptsAll : Accum → List Record → Prop
  | _, [] => True
  | s, r :: rs =>
    (r.type = FcgiType.beginRequest.toByte → (s.onBeginRequest r.contentData).1 = true) ∧
      (r.type = FcgiType.params.toByte → (s.onParams r.contentData).1 = true) ∧
      (s.handle r).AcceptsAll rs

/-- Some `BEGIN_REQUEST` record of a list is accepted. -/
def Begins : Accum → List Record → Prop
  | _, [] => False
  | s, r :: rs =>
    (r.type = FcgiType.beginRequest.toByte ∧ (s.onBeginRequest r.contentData).1 = true) ∨
      (s.handle r).Begins rs

/-- Some empty `PARAMS` record of a list closes the params stream, and it is parsed. -/
def Closes : Accum → List Record → Prop
  | _, [] => False
  | s, r :: rs =>
    (r.type = FcgiType.params.toByte ∧ r.contentData = [] ∧
        (s.onParams r.contentData).1 = true) ∨
      (s.handle r).Closes rs

end Accum

/-- A window is **valid**: a `BEGIN_REQUEST` was accepted, the params stream was closed by an empty
`PARAMS` record and parsed, no record was rejected, and nothing is left in the params stream. -/
structure Window.Valid (w : Window) : Prop where
  begins : w.start.Begins w.records
  closes : w.start.Closes w.records
  acceptsAll : w.start.AcceptsAll w.records
  parsed : w.accum.paramsStream = []

/-! ## What records are sent -/

/-- The contents of the `PARAMS` records of a list. -/
def paramsContents (rs : List Record) : List Bytes :=
  (rs.filter fun r => r.type = FcgiType.params.toByte).map Record.contentData

theorem paramsContents_cons_of_params {r : Record} {rs : List Record}
    (h : r.type = FcgiType.params.toByte) :
    paramsContents (r :: rs) = r.contentData :: paramsContents rs := by
  simp [paramsContents, h]

theorem paramsContents_cons_of_not_params {r : Record} {rs : List Record}
    (h : ¬ r.type = FcgiType.params.toByte) : paramsContents (r :: rs) = paramsContents rs := by
  simp [paramsContents, h]

/-- Contents of `PARAMS` records, behind the bytes `pending` of the params stream, that consist of
name-value pairs up to each empty record, the last of them empty. -/
def IsPairStream : Bytes → List Bytes → Prop
  | pending, [] => pending = []
  | pending, content :: contents =>
    if content = [] then
      (∃ pairs : List Pair, pending = pairs.flatMap Pair.encode) ∧ IsPairStream [] contents
    else IsPairStream (pending ++ content) contents

/-- The records of a window are **well-formed**: there is a `BEGIN_REQUEST` record, all of them are
long enough and for a responder, and the `PARAMS` records are closed and carry name-value pairs. -/
structure Window.WellFormed (rs : List Record) : Prop where
  begins : ∃ r ∈ rs, r.type = FcgiType.beginRequest.toByte
  responder : ∀ r ∈ rs, r.type = FcgiType.beginRequest.toByte →
    Accum.beginAccepted r.contentData = true
  closed : [] ∈ paramsContents rs
  pairs : IsPairStream [] (paramsContents rs)

/-! ## The two agree -/

namespace Accum

theorem onBeginRequest_fst (s : Accum) (content : Bytes) :
    (s.onBeginRequest content).1 = beginAccepted content := by
  rw [onBeginRequest]
  split <;> simp_all

/-- Only `PARAMS` records touch the params stream. -/
theorem paramsStream_handle {s : Accum} {r : Record} (h : r.type ≠ FcgiType.params.toByte) :
    (s.handle r).paramsStream = s.paramsStream := by
  cases hcore : r.isCore with
  | false => rw [s.handle_of_not_isCore hcore]
  | true =>
      simp only [Record.isCore, Bool.or_eq_true, beq_iff_eq] at hcore
      obtain (hb | hp) | hs := hcore
      · rw [s.handle_beginRequest hb, onBeginRequest]
        split <;> rfl
      · exact absurd hp h
      · rw [s.handle_stdin hs, onStdin]
        split <;> rfl

theorem begins_iff (s : Accum) (rs : List Record) :
    s.Begins rs ↔ ∃ r ∈ rs, r.type = FcgiType.beginRequest.toByte ∧
      beginAccepted r.contentData = true := by
  induction rs generalizing s with
  | nil => simp [Begins]
  | cons r rs ih => rw [Begins, onBeginRequest_fst, ih, List.exists_mem_cons_iff]

/-- No record is rejected and nothing is left in the params stream iff all `BEGIN_REQUEST` records
are acceptable and the `PARAMS` records carry name-value pairs. -/
theorem acceptsAll_iff (s : Accum) (rs : List Record) :
    s.AcceptsAll rs ∧ (rs.foldl handle s).paramsStream = [] ↔
      (∀ r ∈ rs, r.type = FcgiType.beginRequest.toByte → beginAccepted r.contentData = true) ∧
        IsPairStream s.paramsStream (paramsContents rs) := by
  induction rs generalizing s with
  | nil => simp [AcceptsAll, paramsContents, IsPairStream]
  | cons r rs ih =>
      rw [AcceptsAll, onBeginRequest_fst, List.foldl_cons, and_assoc, and_assoc, ih,
        List.forall_mem_cons]
      by_cases hp : r.type = FcgiType.params.toByte
      · have hb : ¬ r.type = FcgiType.beginRequest.toByte := by rw [hp]; decide
        rw [paramsContents_cons_of_params hp, s.handle_params hp, onParams, IsPairStream]
        by_cases hc : r.contentData = []
        · -- the stream is closed here: it is parsed iff it consists of pairs, and then it is empty
          simp only [hc, if_true, ← s.parseAllParams_fst_iff]
          constructor
          · rintro ⟨-, hparse, hrest, hpairs⟩
            rw [paramsStream_parseAllParams (hparse hp)] at hpairs
            exact ⟨⟨fun h => absurd h hb, hrest⟩, hparse hp, hpairs⟩
          · rintro ⟨⟨-, hrest⟩, hparse, hpairs⟩
            rw [← paramsStream_parseAllParams hparse] at hpairs
            exact ⟨fun h => absurd h hb, fun _ => hparse, hrest, hpairs⟩
        -- a non-empty record is never rejected, and extends the stream
        · simp only [hc, if_false, hb, false_imp_iff, imp_true_iff, true_and]
      -- a record of another type leaves the params stream as it is
      · rw [paramsContents_cons_of_not_params hp, paramsStream_handle hp]
        simp only [hp, false_imp_iff, true_and, and_assoc]

/-- When no record is rejected, the params stream is closed iff an empty `PARAMS` record is sent. -/
theorem closes_iff {s : Accum} {rs : List Record} (h : s.AcceptsAll rs) :
    s.Closes rs ↔ [] ∈ paramsContents rs := by
  induction rs generalizing s with
  | nil => simp [Closes, paramsContents]
  | cons r rs ih =>
      obtain ⟨-, hparams, hrest⟩ := h
      rw [Closes, ih hrest]
      by_cases hp : r.type = FcgiType.params.toByte
      · rw [paramsContents_cons_of_params hp, List.mem_cons, eq_comm (a := [])]
        simp only [hp, hparams hp, true_and, and_true]
      · rw [paramsContents_cons_of_not_params hp]
        simp only [hp, false_and, false_or]

end Accum

/-- A window that begins with nothing accumulated is valid iff its records are well-formed. -/
theorem Window.valid_iff {w : Window} (hstart : ∃ keepConn, w.start = Request.clean keepConn) :
    w.Valid ↔ WellFormed w.records := by
  obtain ⟨keepConn, hstart⟩ := hstart
  have haccepts := w.start.acceptsAll_iff w.records
  rw [show w.start.paramsStream = [] by rw [hstart]; rfl] at haccepts
  constructor
  · intro hv
    obtain ⟨hbegin, hpairs⟩ := haccepts.mp ⟨hv.acceptsAll, hv.parsed⟩
    obtain ⟨r, hr, ht, -⟩ := (w.start.begins_iff w.records).mp hv.begins
    exact ⟨⟨r, hr, ht⟩, hbegin, (Accum.closes_iff hv.acceptsAll).mp hv.closes, hpairs⟩
  · intro hw
    obtain ⟨hall, hparsed⟩ := haccepts.mpr ⟨hw.responder, hw.pairs⟩
    obtain ⟨r, hr, ht⟩ := hw.begins
    exact
      { begins := (w.start.begins_iff w.records).mpr ⟨r, hr, ht, hw.responder r hr ht⟩
        closes := (Accum.closes_iff hall).mpr hw.closed
        acceptsAll := hall
        parsed := hparsed }

/-- Every invocation on a new connection is valid iff the records since the previous one are
well-formed. -/
theorem valid_iff_of_mem_windows {w : Window} {chunks : List Bytes}
    (h : w ∈ windows .new [] chunks) : w.Valid ↔ Window.WellFormed w.records :=
  Window.valid_iff (start_of_mem_windows ⟨false, rfl⟩ h)

/-- **Which requests reach the backend.** Over every run of a connection of `mucgi`, whatever the
bytes and their chunks, and over every run of a connection of `cocgi`, whatever the system calls
return: the request handler is invoked at the end of the windows of the chunks received, on what
they accumulate, and such a window is valid iff the records that were sent in it are well-formed. -/
theorem invocations_valid_iff (chunks : List Bytes) (backend : Backend) (calls : List Cocgi.Call) :
    (∃ actions c, Mucgi.run Codec.new chunks = .ok (actions, c) ∧
      Mucgi.callbacks actions = (windows .new [] chunks).map Window.handed ∧
      ∀ w ∈ windows .new [] chunks, w.Valid ↔ Window.WellFormed w.records) ∧
    Cocgi.invocations (Cocgi.serve backend Codec.new 0 calls).1
        = (windows .new [] (Cocgi.chunksRead backend Codec.new 0 calls)).map Window.handed ∧
      ∀ w ∈ windows .new [] (Cocgi.chunksRead backend Codec.new 0 calls),
        w.Valid ↔ Window.WellFormed w.records := by
  refine ⟨?_, Cocgi.serve_windows backend calls, fun w hw => valid_iff_of_mem_windows hw⟩
  obtain ⟨actions, c, hrun, hcallbacks⟩ := Mucgi.run_windows chunks
  exact ⟨actions, c, hrun, hcallbacks, fun w hw => valid_iff_of_mem_windows hw⟩

/-! ## A request that should not be executed -/

/-- The records of a request for an authorizer whose params stream is cut short: behind its first
pair stands a length that announces five bytes. -/
def brokenRecords : List Record :=
  [.plain .beginRequest [0, 2, 1, 0, 0, 0, 0, 0] (by decide),
    .plain .params [1, 1, 65, 49, 5] (by decide), .plain .params [] Record.content_nil_lt,
    .plain .stdin [] Record.content_nil_lt]

/-- The bytes of these records. -/
def brokenBytes : Bytes := brokenRecords.flatMap Record.encode

theorem windows_brokenBytes :
    windows .new [] [brokenBytes] = [⟨Request.clean false, brokenRecords⟩] := by
  have hframes : recordFormat.frames ([] ++ brokenBytes) = (brokenRecords, []) :=
    recordFormat.frames_flatMap_encode brokenRecords
  have hgot : (Window.new.extend brokenRecords).accum.gotRequest = true := by decide
  rw [windows, hframes, if_pos hgot]
  rfl

/-- The handlers reject its `BEGIN_REQUEST` and its params stream, and it is executed by both
servers on the one pair in front of the rest. -/
theorem brokenBytes_executed :
    (∃ actions c, Mucgi.run Codec.new [brokenBytes] = .ok (actions, c) ∧
      Mucgi.callbacks actions = [((∅ : ParamMap).insert [65] [49], [])]) ∧
    Cocgi.invocations (Cocgi.serve printRequest Codec.new 0
        [⟨0, .bytes brokenBytes, fun _ => .accept 65535⟩]).1
      = [((∅ : ParamMap).insert [65] [49], [])] ∧
    ∀ w ∈ windows .new [] [brokenBytes], ¬ w.Valid := by
  have hhanded : (windows .new [] [brokenBytes]).map Window.handed
      = [((∅ : ParamMap).insert [65] [49], [])] := by
    rw [windows_brokenBytes]
    decide
  refine ⟨?_, ?_, ?_⟩
  · obtain ⟨actions, c, hrun, hcallbacks⟩ := Mucgi.run_windows [brokenBytes]
    exact ⟨actions, c, hrun, hcallbacks.trans hhanded⟩
  · rw [Cocgi.serve_windows, Cocgi.chunksRead, Cocgi.serve_singleton]
    exact hhanded
  · rw [windows_brokenBytes]
    intro w hw hvalid
    rw [List.mem_singleton] at hw
    subst hw
    obtain ⟨r, hr, ht, hacc⟩ := (Accum.begins_iff _ _).mp hvalid.begins
    revert r
    decide

end FastCgi
