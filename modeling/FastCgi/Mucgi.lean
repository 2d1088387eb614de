import FastCgi.Request

/-! # The connection of `mucgi`

`FastCgiCodec::onMessage` is the message callback of a connection: it drains the input buffer, and
if a request is complete hands it to the request callback, clears the accumulators, and shuts the
connection down unless it is to be kept. `Mucgi.run` is a whole run of one connection, one call of
`onMessage` for each chunk of bytes that arrives.

`Mucgi.run_refines` reduces runs of the codec to runs over accumulators, and
`Mucgi.runSpec_of_endsRequest` says what the chunks of one request make the connection do. From
the two follows the decoding of whole keep-alive runs, `Mucgi.run_deliveries`. -/

namespace FastCgi

namespace Mucgi

/-- What a call of `onMessage` does to the outside. -/
inductive Action
  /-- `cb_(conn, params_, &stdin_)`. -/
  | callback (params : ParamMap) (stdin : Bytes)
  /-- `conn->shutdown()`. -/
  | shutdown

/-- `FastCgiCodec::onMessage`. The callback may use up what it is handed, but all of that is
cleared as soon as it returns. -/
def onMessage (c : Codec) : Except Fault (List Action × Codec) := do
  let c ← parseRequest c
  if c.gotRequest then
    let actions := .callback c.params c.stdin.contents :: if c.keepConn then [] else [.shutdown]
    return (actions, c.clearRequest)
  else return ([], c)

/-- Bytes arrive: they are appended to the input buffer, and `onMessage` is called. -/
def deliver (c : Codec) (chunk : Bytes) : Except Fault (List Action × Codec) :=
  c.receive chunk >>= onMessage

/-- A run of a connection: what each chunk made it do, and the codec at the end. -/
def run : Codec → List Bytes → Except Fault (List (List Action) × Codec)
  | c, [] => return ([], c)
  | c, chunk :: chunks => do
    let (actions, c) ← deliver c chunk
    let (rest, c) ← run c chunks
    return (actions :: rest, c)

/-! ## Runs over accumulators -/

/-- The actions after a chunk that left the accumulators `s`. -/
def actionsOf (s : Accum) : List Action :=
  if s.gotRequest then .callback s.params s.stdin :: if s.keepConn then [] else [.shutdown]
  else []

/-- The accumulators kept after a chunk that left the accumulators `s`. -/
def settle (s : Accum) : Accum := if s.gotRequest then s.reset else s

/-- What the arrival of a chunk does, on accumulators and pending input. -/
def deliverSpec (v : Accum × Bytes) (chunk : Bytes) : List Action × (Accum × Bytes) :=
  let fed := recordFormat.feed Accum.handle v chunk
  (actionsOf fed.1, settle fed.1, fed.2)

/-- A run of a connection, on accumulators and pending input. -/
def runSpec : Accum × Bytes → List Bytes → List (List Action) × (Accum × Bytes)
  | v, [] => ([], v)
  | v, chunk :: chunks =>
    let (actions, v) := deliverSpec v chunk
    let (rest, v) := runSpec v chunks
    (actions :: rest, v)

theorem deliver_refines (c : Codec) (chunk : Bytes) :
    ∃ c', deliver c chunk = .ok ((deliverSpec c.view chunk).1, c') ∧
      c'.view = (deliverSpec c.view chunk).2 := by
  obtain ⟨c₁, hparse, hview⟩ := c.receive_parse_refines Mucgi.order chunk
  have hacc : c₁.accum = (recordFormat.feed Accum.handle c.view chunk).1 := congrArg Prod.fst hview
  have hin : c₁.input = (recordFormat.feed Accum.handle c.view chunk).2 := congrArg Prod.snd hview
  have hdeliver : deliver c chunk = (do
      let c ← c.receive chunk >>= Codec.parse Mucgi.order
      if c.gotRequest then
        return (.callback c.params c.stdin.contents :: if c.keepConn then [] else [.shutdown],
          c.clearRequest)
      else return ([], c)) := by
    rw [deliver, bind_assoc]
    rfl
  rw [hdeliver, hparse]
  simp only [bind, Except.bind, deliverSpec, ← hacc, ← hin]
  by_cases hgot : c₁.gotRequest
  · have hgot' : c₁.accum.gotRequest = true := hgot
    rw [if_pos hgot, actionsOf, settle, if_pos hgot', if_pos hgot']
    exact ⟨_, rfl, c₁.view_clearRequest⟩
  · have hgot' : ¬ c₁.accum.gotRequest = true := hgot
    rw [if_neg hgot, actionsOf, settle, if_neg hgot', if_neg hgot']
    exact ⟨c₁, rfl, rfl⟩

/-- **Runs of the codec are runs over accumulators**, and raise no fault. -/
theorem run_refines (c : Codec) (chunks : List Bytes) :
    ∃ c', run c chunks = .ok ((runSpec c.view chunks).1, c') ∧
      c'.view = (runSpec c.view chunks).2 := by
  induction chunks generalizing c with
  | nil => exact ⟨c, rfl, rfl⟩
  | cons chunk chunks ih =>
      obtain ⟨c₁, hdeliver, hview₁⟩ := deliver_refines c chunk
      obtain ⟨c', hrun, hview⟩ := ih c₁
      rw [hview₁] at hrun hview
      refine ⟨c', ?_, hview⟩
      rw [run, hdeliver]
      simp only [bind, Except.bind, hrun]
      rfl

theorem runSpec_append (v : Accum × Bytes) (cs ds : List Bytes) :
    runSpec v (cs ++ ds)
      = ((runSpec v cs).1 ++ (runSpec (runSpec v cs).2 ds).1, (runSpec (runSpec v cs).2 ds).2) := by
  induction cs generalizing v with
  | nil => rfl
  | cons chunk chunks ih =>
      simp only [List.cons_append, runSpec, ih]

/-- While no request gets complete, a run does nothing but feed the chunks. -/
theorem runSpec_quiet (v : Accum × Bytes) (cs : List Bytes)
    (h : (recordFormat.feed Accum.handle v cs.flatten).1.gotRequest = false) :
    runSpec v cs = (List.replicate cs.length [],
      cs.foldl (recordFormat.feed Accum.handle) v) := by
  induction cs generalizing v with
  | nil => rfl
  | cons chunk chunks ih =>
      rw [List.flatten_cons, ← recordFormat.feed_append] at h
      -- the flag is never taken back, so it is not set after the first chunk either
      have hfirst : (recordFormat.feed Accum.handle v chunk).1.gotRequest = false := by
        have hmono := h
        rw [Framing.Format.feed, Accum.gotRequest_foldl_handle, Bool.or_eq_false_iff] at hmono
        exact hmono.1
      have hsettle : settle (recordFormat.feed Accum.handle v chunk).1
          = (recordFormat.feed Accum.handle v chunk).1 := by
        rw [settle, hfirst]
        rfl
      simp only [runSpec, deliverSpec, hsettle, ih _ h]
      rw [actionsOf, hfirst]
      rfl

/-- **What the chunks of one request make a connection do.** The pending input and the chunks
together are the records `rs`, which end with the completion of a request: nothing happens before
the last chunk, and with it the request is handed over and no input is left. -/
theorem runSpec_of_endsRequest {v : Accum × Bytes} {rs : List Record} {chunks : List Bytes}
    (hends : EndsRequest rs) (hgot : v.1.gotRequest = false)
    (hbytes : v.2 ++ chunks.flatten = rs.flatMap Record.encode)
    (hne : ∀ chunk ∈ chunks, chunk ≠ []) (hsome : chunks ≠ []) :
    runSpec v chunks = (List.replicate (chunks.length - 1) [] ++
      [actionsOf (rs.foldl Accum.handle v.1)], settle (rs.foldl Accum.handle v.1), []) := by
  obtain ⟨init, last, rfl⟩ : ∃ init last, chunks = init ++ [last] :=
    ⟨chunks.dropLast, chunks.getLast hsome, (List.dropLast_append_getLast hsome).symm⟩
  have hlast : last ≠ [] := hne last (by simp)
  rw [List.flatten_append, List.flatten_singleton] at hbytes
  -- all but the last chunk leave part of the records missing, so nothing is complete
  have hquiet : (recordFormat.feed Accum.handle v init.flatten).1.gotRequest = false :=
    hends.not_gotRequest_feed hgot hbytes hlast
  -- with the last chunk all records are there, and nothing is left over
  have hfed : recordFormat.feed Accum.handle (init.foldl (recordFormat.feed Accum.handle) v) last
      = (rs.foldl Accum.handle v.1, []) := by
    rw [recordFormat.feed_foldl_feed]
    exact recordFormat.feed_of_append_eq Accum.handle hbytes
  rw [runSpec_append, runSpec_quiet v init hquiet]
  simp only [runSpec, deliverSpec, hfed, List.length_append, List.length_singleton,
    Nat.add_sub_cancel]

/-! ## Keep-alive runs -/

variable (d : Delivery)

/-- What is to happen when a request has arrived: it is handed over, and the connection is shut
down unless the request asked to keep it. -/
def answerTo : List Action :=
  .callback d.request.params d.request.body ::
    if d.request.flags = Codec.kFcgiKeepConn then [] else [.shutdown]

/-- What is to happen during each chunk: nothing until the last one. -/
def actions : List (List Action) := List.replicate (d.chunks.length - 1) [] ++ [answerTo d]

/-- One delivery, from clean accumulators and no pending input. -/
theorem runSpec_delivery (keepConn : Bool) :
    runSpec (Request.clean keepConn, []) d.chunks
      = (actions d, Request.clean (d.request.flags == Codec.kFcgiKeepConn), []) := by
  have hrun := runSpec_of_endsRequest (v := (Request.clean keepConn, []))
    d.request.endsRequest_records rfl d.flatten_chunks d.chunks_ne_nil d.chunks_ne
  rw [hrun, d.request.handle_records]
  simp [actions, answerTo, actionsOf, settle, Accum.reset, Request.clean]

/-- Deliveries one after the other, from clean accumulators and no pending input. -/
theorem runSpec_deliveries (ds : List Delivery) (keepConn : Bool) :
    ∃ keepConn', runSpec (Request.clean keepConn, []) (ds.flatMap Delivery.chunks)
      = (ds.flatMap actions, Request.clean keepConn', []) := by
  induction ds generalizing keepConn with
  | nil => exact ⟨keepConn, rfl⟩
  | cons d ds ih =>
      obtain ⟨keepConn', hrest⟩ := ih (d.request.flags == Codec.kFcgiKeepConn)
      refine ⟨keepConn', ?_⟩
      rw [List.flatMap_cons, runSpec_append, runSpec_delivery d, hrest, List.flatMap_cons]

/-- **Decoding of keep-alive runs.** Whatever requests arrive on a new connection one after the
other, cut into chunks in any way, the callback is invoked once for each request, during the chunk
that ends it, with exactly its parameters and its body; the connection is shut down after the
requests that did not ask to keep it; and nothing is left over in the codec. -/
theorem run_deliveries (ds : List Delivery) :
    ∃ c keepConn, run Codec.new (ds.flatMap Delivery.chunks)
        = .ok (ds.flatMap actions, c) ∧
      c.view = (Request.clean keepConn, []) := by
  obtain ⟨c, hrun, hview⟩ := run_refines Codec.new (ds.flatMap Delivery.chunks)
  obtain ⟨keepConn, hspec⟩ := runSpec_deliveries ds false
  rw [Codec.view_new, hspec] at hrun hview
  exact ⟨c, keepConn, hrun, hview⟩

end Mucgi

end FastCgi
