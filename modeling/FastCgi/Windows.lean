import FastCgi.Cocgi
import FastCgi.Mucgi

/-! # What a request handler is invoked on

In both servers the handler is invoked when, after the buffer has been drained, an empty `STDIN`
record has been among the records, and what was accumulated is cleared then. A `Window` is what was
handled since the previous invocation: the accumulators at its beginning and the records since.
`windows` lists the windows of a sequence of chunks that end in an invocation.

`Mucgi.run_windows` and `Cocgi.serve_windows` say that these are the invocations of the two
servers, on exactly what the windows accumulate. -/

namespace FastCgi

/-- The records handled since an invocation, and the accumulators it left. -/
structure Window where
  start : Accum
  records : List Record

namespace Window

/-- The accumulators at the end of a window. -/
def accum (w : Window) : Accum := w.records.foldl Accum.handle w.start

/-- What the handler is invoked on at the end of a window. -/
def handed (w : Window) : ParamMap × Bytes := (w.accum.params, w.accum.stdin)

/-- A window after more records. -/
def extend (w : Window) (rs : List Record) : Window := ⟨w.start, w.records ++ rs⟩

/-- The window that begins when the handler was invoked at the end of `w`. -/
def next (w : Window) : Window := ⟨w.accum.reset, []⟩

/-- The window of a new connection. -/
def new : Window := ⟨Request.clean false, []⟩

theorem accum_extend (w : Window) (rs : List Record) :
    (w.extend rs).accum = rs.foldl Accum.handle w.accum := List.foldl_append

end Window

/-- The **windows** of a sequence of chunks that end in an invocation, from the window that has
begun and the pending input. -/
def windows : Window → Bytes → List Bytes → List Window
  | _, _, [] => []
  | w, pending, chunk :: chunks =>
    let cut := recordFormat.frames (pending ++ chunk)
    let w := w.extend cut.1
    if w.accum.gotRequest then w :: windows w.next cut.2 chunks else windows w cut.2 chunks

/-- Every window begins with nothing accumulated. -/
theorem start_of_mem_windows {w v : Window} {pending : Bytes} {chunks : List Bytes}
    (hw : ∃ keepConn, w.start = Request.clean keepConn) (hv : v ∈ windows w pending chunks) :
    ∃ keepConn, v.start = Request.clean keepConn := by
  induction chunks generalizing w pending with
  | nil => cases hv
  | cons chunk chunks ih =>
      rw [windows] at hv
      split at hv
      · obtain rfl | hv := List.mem_cons.mp hv
        · exact hw
        · exact ih ⟨_, rfl⟩ hv
      · exact ih (w := w.extend _) hw hv

/-- Feeding a chunk extends the window. -/
theorem feed_accum (w : Window) (pending chunk : Bytes) :
    recordFormat.feed Accum.handle (w.accum, pending) chunk
      = ((w.extend (recordFormat.frames (pending ++ chunk)).1).accum,
          (recordFormat.frames (pending ++ chunk)).2) := by
  rw [Window.accum_extend]
  rfl

/-- What the first element of a list contributes, and what the others do. -/
theorem filterMap_cons_toList {α β : Type*} (f : α → Option β) (a : α) (l : List α) :
    (a :: l).filterMap f = (f a).toList ++ l.filterMap f := by
  rw [List.filterMap_eq_flatMap_toList, List.filterMap_eq_flatMap_toList, List.flatMap_cons]

/-! ## The invocations of `mucgi` -/

namespace Mucgi

/-- The invocations among the actions of a run. -/
def callbacks (actions : List (List Action)) : List (ParamMap × Bytes) :=
  actions.flatten.filterMap fun
    | .callback params stdin => some (params, stdin)
    | .shutdown => none

theorem callbacks_actionsOf (s : Accum) (rest : List (List Action)) :
    callbacks (actionsOf s :: rest)
      = if s.gotRequest then (s.params, s.stdin) :: callbacks rest else callbacks rest := by
  rw [actionsOf]
  split
  · cases s.keepConn <;> rfl
  · rfl

theorem callbacks_runSpec (w : Window) (pending : Bytes) (chunks : List Bytes) :
    callbacks (runSpec (w.accum, pending) chunks).1
      = (windows w pending chunks).map Window.handed := by
  induction chunks generalizing w pending with
  | nil => rfl
  | cons chunk chunks ih =>
      simp only [runSpec, deliverSpec, feed_accum, callbacks_actionsOf, windows, settle]
      split
      · rw [List.map_cons, ← ih]
        rfl
      · exact ih _ _

/-- **The invocations of `mucgi`** are those at the end of the windows of its chunks. -/
theorem run_windows (chunks : List Bytes) :
    ∃ actions c, run Codec.new chunks = .ok (actions, c) ∧
      callbacks actions = (windows .new [] chunks).map Window.handed := by
  obtain ⟨c, hrun, -⟩ := run_refines Codec.new chunks
  refine ⟨_, c, hrun, ?_⟩
  rw [Codec.view_new]
  exact callbacks_runSpec .new [] chunks

end Mucgi

/-! ## The invocations of `cocgi` -/

namespace Cocgi

variable (backend : Backend)

/-- The bytes read by a call, when it read any. -/
def Call.chunk (call : Call) : Option Bytes :=
  match call.read with
  | .bytes data => if data = [] then none else some data
  | .error _ => none

/-- The invocations of a run. -/
def invocations (reports : List Report) : List (ParamMap × Bytes) :=
  reports.filterMap Report.invoked

/-- The chunks read by the calls a run makes. -/
def chunksRead (c : Codec) (recycle : Nat) (calls : List Call) : List Bytes :=
  (calls.take (serve backend c recycle calls).1.length).filterMap Call.chunk

/-- A call that reads nothing leaves the codec alone and does not get to `doRequest`; what it
returns is the same for every codec. -/
theorem readData_of_chunk_none {call : Call} (h : call.chunk = none) :
    ∃ ret errno, ∀ c, readData backend call c = .quiet (.ok (ret, errno, c)) := by
  cases hread : call.read with
  | error e => exact ⟨idleCode e, e, fun c => by simp only [readData, hread]⟩
  | bytes data =>
      have hdata : data = [] := by
        by_contra hne
        simp [Call.chunk, hread, hne] at h
      exact ⟨_, _, fun c => by simp only [readData, hread, hdata]; rfl⟩

theorem read_of_chunk_some {call : Call} {data : Bytes} (h : call.chunk = some data) :
    call.read = .bytes data ∧ data ≠ [] := by
  cases hread : call.read with
  | error e => simp [Call.chunk, hread] at h
  | bytes data' =>
      simp only [Call.chunk, hread] at h
      split at h
      · cases h
      · rename_i hne
        cases h
        exact ⟨rfl, hne⟩

/-- One call ends the windows that its chunk ends, and leaves a codec that holds the window that has
begun since. -/
theorem readData_windows (call : Call) {c : Codec} {w : Window} {pending : Bytes}
    (hview : c.view = (w.accum, pending)) :
    (readData backend call c).invoked.toList
        = (windows w pending call.chunk.toList).map Window.handed ∧
      ∀ ret errno c', (readData backend call c).outcome = .ok (ret, errno, c') →
        ∃ w' pending', c'.view = (w'.accum, pending') ∧ ∀ chunks,
          windows w pending (call.chunk.toList ++ chunks)
            = windows w pending call.chunk.toList ++ windows w' pending' chunks := by
  cases hchunk : call.chunk with
  | none =>
      obtain ⟨ret, errno, hcall⟩ := readData_of_chunk_none backend hchunk
      rw [hcall]
      refine ⟨rfl, fun ret' errno' c' hout => ?_⟩
      cases hout
      exact ⟨w, pending, hview, fun chunks => rfl⟩
  | some data =>
      obtain ⟨hread, hdata⟩ := read_of_chunk_some hchunk
      obtain ⟨c₁, hcall, hview₁⟩ := readData_bytes backend hread hdata c
      rw [hview, feed_accum] at hview₁
      have hacc : c₁.accum = (w.extend (recordFormat.frames (pending ++ data)).1).accum :=
        congrArg Prod.fst hview₁
      have hin : c₁.input = (recordFormat.frames (pending ++ data)).2 := congrArg Prod.snd hview₁
      rw [hcall]
      simp only [Option.toList_some, List.singleton_append, windows, ← hacc, ← hin]
      cases hgot : c₁.gotRequest with
      | false =>
          have hgot' : ¬ c₁.accum.gotRequest = true := by simp [Codec.accum, hgot]
          rw [finish_of_not_got backend hgot]
          simp only [if_neg hgot']
          -- the window goes on with the next chunk that is read
          refine ⟨rfl, fun ret errno c' hout => ?_⟩
          cases hout
          exact ⟨_, _, hview₁, fun chunks => by rw [← hin]; rfl⟩
      | true =>
          have hgot' : c₁.accum.gotRequest = true := hgot
          simp only [if_pos hgot']
          have hhanded : (w.extend (recordFormat.frames (pending ++ data)).1).handed
              = (c₁.params, c₁.stdin.contents) := by
            rw [Window.handed, ← hacc]
            rfl
          refine ⟨by simp [invoked_finish_of_got backend hgot, hhanded],
            fun ret errno c' hout => ?_⟩
          by_cases hbad : MalformedBody c₁.params c₁.stdin.contents
          · rw [finish_of_malformed backend hgot hbad] at hout
            cases hout
          -- the request has been answered or not, but cleared in any case
          · obtain ⟨qmap, header, wr, -, hfin⟩ := finish_of_got backend call hgot hbad
            rw [hfin] at hout
            cases hout
            refine ⟨(w.extend (recordFormat.frames (pending ++ data)).1).next, c₁.input, ?_,
              fun chunks => rfl⟩
            rw [Codec.view_clearRequest, hacc]
            rfl

/-- The first call of a run is the last one, or the run goes on from the codec it leaves. -/
theorem serve_cons_cases (call : Call) (calls : List Call) (c : Codec) (recycle : Nat) :
    (serve backend c recycle (call :: calls)).1 = [readData backend call c] ∨
      ∃ ret errno c' recycle', (readData backend call c).outcome = .ok (ret, errno, c') ∧
        (serve backend c recycle (call :: calls)).1
          = readData backend call c :: (serve backend c' recycle' calls).1 := by
  rw [serve]
  split
  · exact .inl rfl
  · rename_i ret errno c' hout
    split
    · exact .inl rfl
    · exact .inr ⟨ret, errno, c', _, hout, rfl⟩

theorem invocations_cons (r : Report) (rs : List Report) :
    invocations (r :: rs) = r.invoked.toList ++ invocations rs :=
  filterMap_cons_toList _ r rs

theorem invocations_serve {c : Codec} {w : Window} {pending : Bytes} (recycle : Nat)
    (calls : List Call) (hview : c.view = (w.accum, pending)) :
    invocations (serve backend c recycle calls).1
      = (windows w pending (chunksRead backend c recycle calls)).map Window.handed := by
  induction calls generalizing c w pending recycle with
  | nil => rfl
  | cons call calls ih =>
      obtain ⟨hinvoked, hnext⟩ := readData_windows backend call hview
      have hread : ∀ n, ((call :: calls).take (n + 1)).filterMap Call.chunk
          = call.chunk.toList ++ (calls.take n).filterMap Call.chunk := by
        intro n
        rw [List.take_succ_cons, filterMap_cons_toList]
      obtain hone | ⟨ret, errno, c', recycle', hout, hmore⟩ :=
        serve_cons_cases backend call calls c recycle
      -- the connection is closed or the process ended: no other call is made
      · rw [chunksRead, hone, invocations_cons, List.length_singleton, hread, hinvoked]
        simp [invocations]
      · obtain ⟨w', pending', hview', happ⟩ := hnext ret errno c' hout
        rw [chunksRead, hmore, invocations_cons, List.length_cons, hread, happ, List.map_append,
          hinvoked, ih recycle' hview', chunksRead]

/-- **The invocations of `cocgi`** are those at the end of the windows of the chunks it reads. -/
theorem serve_windows (calls : List Call) :
    invocations (serve backend Codec.new 0 calls).1
      = (windows .new [] (chunksRead backend Codec.new 0 calls)).map Window.handed :=
  invocations_serve backend 0 calls Codec.view_new

end Cocgi

end FastCgi
