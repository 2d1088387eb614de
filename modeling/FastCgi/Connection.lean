import FastCgi.Streams
import FastCgi.Windows

/-! # The connections of `mucgi`

A `TcpConnection` of `mucgi` calls `FastCgiCodec::onMessage` whenever bytes have arrived. The
request callback passes its response to `send`, and `onMessage` calls `shutdown` when the connection
is not to be kept. `shutdown` closes the write side only: the connection goes to `kDisconnecting`,
where `send` does nothing, and it goes on reading until the peer closes its end.

`TcpConnection` is that state machine, driven by the events of its channel, and
`TcpConnection.run` a run of one connection. `invocations_connected_iff` says when every request
that is executed can still be answered: as long as the peer completes no request behind one after
which the connection was shut down. -/

namespace FastCgi

namespace Mucgi

open Cocgi (ReadOutcome receiveFd receiveFd_ok)

/-- `EPIPE`. -/
def epipe : Errno := 32

/-- `ECONNRESET`. -/
def econnreset : Errno := 104

/-- `TcpConnection::StateE`. -/
inductive StateE
  | disconnected
  | connecting
  | connected
  | disconnecting
  deriving DecidableEq, Repr

/-- The data members of `TcpConnection` that matter to the requests on it. The input buffer is that
of the codec. -/
structure TcpConnection where
  state : StateE
  /-- `channel_->isReading()`. -/
  reading : Bool
  /-- `channel_->isWriting()`. -/
  writing : Bool
  codec : Codec
  outputBuffer : Buffer
  /-- The write side of the socket has been shut down. -/
  writeShut : Bool

/-- A call of the request callback: what it is called on, and the state of the connection. -/
structure Invocation where
  params : ParamMap
  stdin : Bytes
  state : StateE

/-- What the handling of one event does: it may invoke the request callback, and it leaves a
connection unless an exception ends the process. -/
structure Turn where
  invoked : Option Invocation
  outcome : Except Fault TcpConnection

/-- What the poller reports for the channel of a connection, with the outcomes of the system calls
that follow. -/
inductive Event
  /-- `POLLIN`, with the outcome of `readv`, and of the direct `write` if a response is sent. -/
  | readable (read : ReadOutcome) (write : WriteOutcome)
  /-- `POLLOUT`. -/
  | writable (write : WriteOutcome)
  /-- `POLLHUP` without `POLLIN`. -/
  | hangUp

namespace TcpConnection

variable (backend : Backend) (conn : TcpConnection)

/-- A new connection after `connectEstablished` and `onConnection`. -/
def established : TcpConnection := ⟨.connected, true, false, .new, .new, false⟩

/-- The direct `write` of `sendInLoop`, made when nothing is in the output queue: how many bytes the
socket takes, and whether the connection is broken. -/
def writeDirectly (len : Nat) (write : WriteOutcome) : Nat × Bool :=
  if !conn.writing && conn.outputBuffer.readableBytes == 0 then
    match write with
    | .accept k => (min (k + 1) len, false)
    | .error e => (0, e == epipe || e == econnreset)
  else (0, false)

/-- `sendInLoop`: what the socket does not take at once goes to the output buffer, unless the
connection is broken. -/
def sendInLoop (data : Bytes) (write : WriteOutcome) : Except Fault TcpConnection :=
  if conn.state = .disconnected then return conn
  else
    let wrote := conn.writeDirectly data.length write
    if !wrote.2 && wrote.1 < data.length then do
      let outputBuffer ← conn.outputBuffer.append (data.drop wrote.1)
      return { conn with outputBuffer, writing := true }
    else return conn

/-- `send`: nothing is done unless the connection is in `kConnected`. -/
def send (response : Buffer) (write : WriteOutcome) : Except Fault TcpConnection :=
  if conn.state = .connected then do
    let data ← response.peekBytes 0 response.readableBytes
    conn.sendInLoop data write
  else return conn

/-- `shutdownInLoop`. -/
def shutdownInLoop : TcpConnection :=
  if conn.writing then conn else { conn with writeShut := true }

/-- `shutdown`. -/
def shutdown : TcpConnection :=
  if conn.state = .connected then { conn with state := .disconnecting }.shutdownInLoop else conn

/-- `handleClose`, with `disableAll` of the channel. -/
def handleClose : TcpConnection :=
  { conn with state := .disconnected, reading := false, writing := false }

/-- `handleWrite`. -/
def handleWrite (write : WriteOutcome) : Except Fault TcpConnection :=
  if conn.writing then
    match write with
    | .accept k => do
      let outputBuffer ← conn.outputBuffer.retrieve (min (k + 1) conn.outputBuffer.readableBytes)
      let conn := { conn with outputBuffer }
      if outputBuffer.readableBytes = 0 then
        let conn := { conn with writing := false }
        return if conn.state = .disconnecting then conn.shutdownInLoop else conn
      else return conn
    | .error _ => return conn
  else return conn

/-- The message callback, `FastCgiCodec::onMessage`, with the request callback `onRequest`. -/
def onMessage (write : WriteOutcome) : Turn :=
  match parseRequest conn.codec with
  | .error f => ⟨none, .error f⟩
  | .ok c =>
    if c.gotRequest then
      ⟨some ⟨c.params, c.stdin.contents, conn.state⟩, do
        let response ← onRequest backend c.params c.stdin
        let conn ← conn.send response write
        let conn := { conn with codec := c.clearRequest }
        return if c.keepConn then conn else conn.shutdown⟩
    else ⟨none, .ok { conn with codec := c }⟩

/-- `handleRead`. A failure of `readv` is logged. -/
def handleRead (read : ReadOutcome) (write : WriteOutcome) : Turn :=
  match read with
  | .bytes data =>
    if 0 < data.length then
      match receiveFd conn.codec data with
      | .error f => ⟨none, .error f⟩
      | .ok codec => { conn with codec }.onMessage backend write
    else ⟨none, .ok conn.handleClose⟩
  | .error _ => ⟨none, .ok conn⟩

/-- `Channel::handleEvent`. Once the channel is disabled, nothing is reported for it. -/
def handleEvent (event : Event) : Turn :=
  match event with
  | .readable read write =>
    if conn.reading then conn.handleRead backend read write else ⟨none, .ok conn⟩
  | .writable write => ⟨none, conn.handleWrite write⟩
  | .hangUp => ⟨none, .ok (if conn.reading then conn.handleClose else conn)⟩

/-- A run of a connection: the invocations of the request callback, and the connection at the end
or the exception that ended the process. -/
def run : TcpConnection → List Event → List Invocation × Except Fault TcpConnection
  | conn, [] => ([], .ok conn)
  | conn, event :: events =>
    let turn := conn.handleEvent backend event
    match turn.outcome with
    | .error f => (turn.invoked.toList, .error f)
    | .ok conn => (turn.invoked.toList ++ (run conn events).1, (run conn events).2)

/-! ## What the operations leave alone -/

/-- What sending does not touch: the state, the reading side and the codec. -/
structure SameSide (conn conn' : TcpConnection) : Prop where
  state : conn'.state = conn.state
  reading : conn'.reading = conn.reading
  codec : conn'.codec = conn.codec

theorem SameSide.refl : SameSide conn conn := ⟨rfl, rfl, rfl⟩

theorem sendInLoop_ok (data : Bytes) (write : WriteOutcome) :
    ∃ conn', conn.sendInLoop data write = .ok conn' ∧ SameSide conn conn' := by
  unfold sendInLoop
  split
  · exact ⟨conn, rfl, .refl conn⟩
  · simp only
    split
    · obtain ⟨outputBuffer, happ, -⟩ :=
        conn.outputBuffer.append_ok (data.drop (conn.writeDirectly data.length write).1)
      rw [happ]
      exact ⟨_, rfl, rfl, rfl, rfl⟩
    · exact ⟨conn, rfl, .refl conn⟩

theorem send_ok (response : Buffer) (write : WriteOutcome) :
    ∃ conn', conn.send response write = .ok conn' ∧ SameSide conn conn' := by
  rw [send]
  split
  · rw [Buffer.peekBytes_ok (by rw [response.length_contents, Nat.zero_add])]
    exact conn.sendInLoop_ok _ write
  · exact ⟨conn, rfl, .refl conn⟩

/-- Outside `kConnected` a response is dropped. -/
theorem send_of_ne_connected (h : conn.state ≠ .connected) (response : Buffer)
    (write : WriteOutcome) : conn.send response write = .ok conn := by
  rw [send, if_neg h]
  rfl

theorem shutdownInLoop_sameSide : SameSide conn conn.shutdownInLoop := by
  rw [shutdownInLoop]
  split
  · exact .refl conn
  · exact ⟨rfl, rfl, rfl⟩

theorem handleWrite_ok (write : WriteOutcome) :
    ∃ conn', conn.handleWrite write = .ok conn' ∧ SameSide conn conn' := by
  unfold handleWrite
  split
  · cases write with
    | error e => exact ⟨conn, rfl, .refl conn⟩
    | accept k =>
        have hle : min (k + 1) conn.outputBuffer.readableBytes
            ≤ conn.outputBuffer.contents.length := by
          rw [conn.outputBuffer.length_contents]
          exact min_le_right _ _
        obtain ⟨outputBuffer, hretr, -⟩ := Buffer.retrieve_ok hle
        simp only [hretr, bind, Except.bind]
        split
        · refine ⟨_, rfl, ?_⟩
          split
          · exact ⟨(shutdownInLoop_sameSide _).state, (shutdownInLoop_sameSide _).reading,
              (shutdownInLoop_sameSide _).codec⟩
          · exact ⟨rfl, rfl, rfl⟩
        · exact ⟨_, rfl, rfl, rfl, rfl⟩
  · exact ⟨conn, rfl, .refl conn⟩

/-- The state behind a request: `shutdown` leaves `kConnected`. -/
def stateAfter (keepConn : Bool) (state : StateE) : StateE :=
  if !keepConn && state = .connected then .disconnecting else state

theorem shutdown_state : conn.shutdown.state = stateAfter false conn.state := by
  rw [shutdown, stateAfter]
  by_cases h : conn.state = .connected
  · rw [if_pos h, if_pos (by simp [h]), (shutdownInLoop_sameSide _).state]
  · rw [if_neg h, if_neg (by simp [h])]

theorem shutdown_reading_codec :
    conn.shutdown.reading = conn.reading ∧ conn.shutdown.codec = conn.codec := by
  rw [shutdown]
  split
  · exact ⟨(shutdownInLoop_sameSide _).reading, (shutdownInLoop_sameSide _).codec⟩
  · exact ⟨rfl, rfl⟩

/-! ## One event -/

/-- The connection is reading, and its codec holds the window `w` and the input `pending`. -/
structure Holds (w : Window) (pending : Bytes) : Prop where
  reading : conn.reading = true
  view : conn.codec.view = (w.accum, pending)

theorem established_holds : established.Holds .new [] := ⟨rfl, Codec.view_new⟩

variable {conn} {w : Window} {pending data : Bytes}

theorem Holds.of_sameSide {conn' : TcpConnection} (h : conn.Holds w pending)
    (hsame : SameSide conn conn') : conn'.Holds w pending :=
  ⟨hsame.reading.trans h.reading, (congrArg Codec.view hsame.codec).trans h.view⟩

/-- Bytes that are read extend the window. -/
theorem Holds.receive (h : conn.Holds w pending) (data : Bytes) :
    ∃ c c', receiveFd conn.codec data = .ok c ∧ parseRequest c = .ok c' ∧
      c'.view = ((w.extend (recordFormat.frames (pending ++ data)).1).accum,
        (recordFormat.frames (pending ++ data)).2) := by
  obtain ⟨c, hrecv, hview⟩ := receiveFd_ok conn.codec data
  obtain ⟨c', hparse, hview'⟩ := c.parse_view Mucgi.order
  refine ⟨c, c', hrecv, hparse, ?_⟩
  have haccum : conn.codec.accum = w.accum := congrArg Prod.fst h.view
  have hinput : conn.codec.input = pending := congrArg Prod.snd h.view
  rw [hview', hview, haccum, hinput, Framing.Format.feed, List.append_nil, Window.accum_extend]

/-- Bytes that complete no request. -/
theorem handleRead_of_not_got (h : conn.Holds w pending) (hdata : data ≠ [])
    (hgot : (w.extend (recordFormat.frames (pending ++ data)).1).accum.gotRequest = false)
    (write : WriteOutcome) :
    ∃ conn', conn.handleRead backend (.bytes data) write = ⟨none, .ok conn'⟩ ∧
      conn'.Holds (w.extend (recordFormat.frames (pending ++ data)).1)
        (recordFormat.frames (pending ++ data)).2 ∧
      conn'.state = conn.state := by
  obtain ⟨c, c', hrecv, hparse, hview⟩ := h.receive data
  have hgot' : ¬ c'.gotRequest = true := by
    have hacc := congrArg Prod.fst hview
    rw [show c'.gotRequest = c'.accum.gotRequest from rfl, show c'.accum = _ from hacc, hgot]
    decide
  refine ⟨{ conn with codec := c' }, ?_, ⟨h.reading, hview⟩, rfl⟩
  simp only [handleRead, if_pos (List.length_pos_iff.mpr hdata), hrecv, onMessage, hparse,
    if_neg hgot']

/-- Bytes that complete a request: the callback is invoked in the state the connection is in. It
ends the process if the body is malformed; else the connection goes on with the next window, in
`kDisconnecting` if it was not to be kept. -/
theorem handleRead_of_got (h : conn.Holds w pending) (hdata : data ≠ [])
    (hgot : (w.extend (recordFormat.frames (pending ++ data)).1).accum.gotRequest = true)
    (write : WriteOutcome) {w' : Window}
    (hw' : w' = w.extend (recordFormat.frames (pending ++ data)).1) :
    (conn.handleRead backend (.bytes data) write).invoked
        = some ⟨w'.handed.1, w'.handed.2, conn.state⟩ ∧
      (MalformedBody w'.handed.1 w'.handed.2 →
        ∃ f, (conn.handleRead backend (.bytes data) write).outcome = .error f) ∧
      (¬ MalformedBody w'.handed.1 w'.handed.2 →
        ∃ conn', (conn.handleRead backend (.bytes data) write).outcome = .ok conn' ∧
          conn'.Holds w'.next (recordFormat.frames (pending ++ data)).2 ∧
          conn'.state = stateAfter w'.accum.keepConn conn.state) := by
  obtain ⟨c, c', hrecv, hparse, hview⟩ := h.receive data
  rw [← hw'] at hgot hview
  have hacc : c'.accum = w'.accum := congrArg Prod.fst hview
  have hgot' : c'.gotRequest = true := (congrArg Accum.gotRequest hacc).trans hgot
  have hparams : c'.params = w'.handed.1 := congrArg Accum.params hacc
  have hstdin : c'.stdin.contents = w'.handed.2 := congrArg Accum.stdin hacc
  have hkeep : c'.keepConn = w'.accum.keepConn := congrArg Accum.keepConn hacc
  simp only [handleRead, if_pos (List.length_pos_iff.mpr hdata), hrecv, onMessage, hparse,
    if_pos hgot', hparams, hstdin]
  refine ⟨trivial, fun hbad => ?_, fun hok => ?_⟩
  · -- the callback throws before anything is sent
    rw [← hparams, ← hstdin] at hbad
    rw [← hparams, onRequest, backendInput, parseInput_error hbad]
    exact ⟨_, rfl⟩
  · rw [← hparams, ← hstdin] at hok
    -- it is answered, and the codec begins the next window with the bytes that are left
    obtain ⟨qmap, header, response, -, hrun, -⟩ := completesNormally backend hok
    obtain ⟨conn₁, hsend, hsame⟩ := send_ok { conn with codec := c } response write
    rw [← hparams, hrun]
    simp only [bind, Except.bind, hsend, hkeep]
    refine ⟨_, rfl, ?_, ?_⟩
    · have hnext : c'.clearRequest.view
          = (w'.next.accum, (recordFormat.frames (pending ++ data)).2) := by
        rw [c'.view_clearRequest, hacc, show c'.input = _ from congrArg Prod.snd hview]
        rfl
      have hreading : conn₁.reading = true := hsame.reading.trans h.reading
      split
      · exact ⟨hreading, hnext⟩
      · obtain ⟨hr, hc⟩ := shutdown_reading_codec { conn₁ with codec := c'.clearRequest }
        exact ⟨hr.trans hreading, (congrArg Codec.view hc).trans hnext⟩
    · cases w'.accum.keepConn with
      | true => exact hsame.state
      | false =>
          rw [if_neg (by decide), shutdown_state]
          exact congrArg (stateAfter false) hsame.state

/-! ## Whole runs -/

/-- The chunks that are read in a run: all until the peer closes its end or hangs up. -/
def received : List Event → List Bytes
  | [] => []
  | .readable (.bytes data) _ :: events => if data = [] then [] else data :: received events
  | .readable (.error _) _ :: events => received events
  | .writable _ :: events => received events
  | .hangUp :: _ => []

/-- The requests of the windows are all executed in `kConnected`, on a connection that is in `state`
and reads on until the process ends. -/
def Connected : StateE → List Window → Prop
  | _, [] => True
  | state, w :: ws => state = .connected ∧
    (¬ MalformedBody w.handed.1 w.handed.2 → Connected (stateAfter w.accum.keepConn state) ws)

/-- A connection that does not read invokes nothing. -/
theorem run_of_not_reading (h : conn.reading = false) (events : List Event) :
    (conn.run backend events).1 = [] := by
  induction events generalizing conn with
  | nil => rfl
  | cons event events ih =>
      have hstep : ∃ conn', conn.handleEvent backend event = ⟨none, .ok conn'⟩ ∧
          conn'.reading = false := by
        cases event with
        | readable read write => exact ⟨conn, by simp [handleEvent, h], h⟩
        | hangUp => exact ⟨conn, by simp [handleEvent, h], h⟩
        | writable write =>
            obtain ⟨conn', hwrite, hsame⟩ := conn.handleWrite_ok write
            exact ⟨conn', by rw [handleEvent, hwrite], hsame.reading.trans h⟩
      obtain ⟨conn', hturn, hreading⟩ := hstep
      rw [run, hturn]
      exact ih hreading

/-- After an event that does not end the process the run goes on. -/
theorem run_cons_of_ok {event : Event} {events : List Event} {conn' : TcpConnection}
    (h : (conn.handleEvent backend event).outcome = .ok conn') :
    (conn.run backend (event :: events)).1
      = (conn.handleEvent backend event).invoked.toList ++ (conn'.run backend events).1 := by
  rw [run, h]

theorem run_cons_of_error {event : Event} {events : List Event} {f : Fault}
    (h : (conn.handleEvent backend event).outcome = .error f) :
    (conn.run backend (event :: events)).1 = (conn.handleEvent backend event).invoked.toList := by
  rw [run, h]

/-- **What an event can do**: end the reading; extend the window, if at all, and invoke nothing; or
end the window and invoke the callback on it. -/
theorem handleEvent_cases (h : conn.Holds w pending) (event : Event) :
    (∃ conn', conn.handleEvent backend event = ⟨none, .ok conn'⟩ ∧ conn'.reading = false ∧
      ∀ events, received (event :: events) = []) ∨
    (∃ conn' w' pending', conn.handleEvent backend event = ⟨none, .ok conn'⟩ ∧
      conn'.Holds w' pending' ∧ conn'.state = conn.state ∧
      ∀ events, windows w pending (received (event :: events))
        = windows w' pending' (received events)) ∨
    ∃ w' pending',
      (conn.handleEvent backend event).invoked
        = some ⟨w'.handed.1, w'.handed.2, conn.state⟩ ∧
      (MalformedBody w'.handed.1 w'.handed.2 →
        ∃ f, (conn.handleEvent backend event).outcome = .error f) ∧
      (¬ MalformedBody w'.handed.1 w'.handed.2 →
        ∃ conn', (conn.handleEvent backend event).outcome = .ok conn' ∧
          conn'.Holds w'.next pending' ∧
          conn'.state = stateAfter w'.accum.keepConn conn.state) ∧
      ∀ events, windows w pending (received (event :: events))
        = w' :: windows w'.next pending' (received events) := by
  cases event with
  | writable write =>
      obtain ⟨conn', hwrite, hsame⟩ := conn.handleWrite_ok write
      refine .inr (.inl ⟨conn', w, pending, ?_, h.of_sameSide hsame, hsame.state, fun _ => rfl⟩)
      rw [handleEvent, hwrite]
  | hangUp => exact .inl ⟨conn.handleClose, by simp [handleEvent, h.reading], rfl, fun _ => rfl⟩
  | readable read write =>
      have hevent : conn.handleEvent backend (.readable read write)
          = conn.handleRead backend read write := by simp [handleEvent, h.reading]
      rw [hevent]
      rcases read with data | e
      · by_cases hdata : data = []
        · subst hdata
          exact .inl ⟨conn.handleClose, rfl, rfl, fun _ => rfl⟩
        · right
          have hreceived : ∀ events, received (.readable (.bytes data) write :: events)
              = data :: received events := by
            intro events
            rw [received, if_neg hdata]
          cases hgot : (w.extend (recordFormat.frames (pending ++ data)).1).accum.gotRequest with
          | false =>
              obtain ⟨conn', hturn, hholds, hstate⟩ :=
                handleRead_of_not_got backend h hdata hgot write
              -- the chunk completes no request, and the window goes on
              refine .inl ⟨conn', _, _, hturn, hholds, hstate, fun events => ?_⟩
              rw [hreceived, windows, if_neg (by rw [hgot]; decide)]
          | true =>
              obtain ⟨hinvoked, hbad, hok⟩ := handleRead_of_got backend h hdata hgot write rfl
              -- it completes one, and a new window begins
              refine .inr ⟨_, _, hinvoked, hbad, hok, fun events => ?_⟩
              rw [hreceived, windows, if_pos hgot]
      · exact .inr (.inl ⟨conn, w, pending, rfl, h, rfl, fun _ => rfl⟩)

/-- **The invocations of a run are all made in `kConnected`** iff the windows of the chunks it
receives say so. -/
theorem run_connected_iff (h : conn.Holds w pending) (events : List Event) :
    (∀ inv ∈ (conn.run backend events).1, inv.state = .connected) ↔
      Connected conn.state (windows w pending (received events)) := by
  induction events generalizing conn w pending with
  | nil => simp [run, received, windows, Connected]
  | cons event events ih =>
      obtain ⟨conn', hturn, hreading, hnil⟩ | ⟨conn', w', pending', hturn, hholds, hstate, hwin⟩ |
        ⟨w', pending', hinvoked, hbad, hok, hwin⟩ := handleEvent_cases backend h event
      · rw [run_cons_of_ok backend (congrArg Turn.outcome hturn), hturn,
          run_of_not_reading backend hreading, hnil]
        simp [windows, Connected]
      · rw [run_cons_of_ok backend (congrArg Turn.outcome hturn), hturn, hwin, ← hstate]
        exact ih hholds
      · rw [hwin, Connected]
        by_cases hmal : MalformedBody w'.handed.1 w'.handed.2
        -- the callback throws, and the run is over
        · obtain ⟨f, hout⟩ := hbad hmal
          rw [run_cons_of_error backend hout, hinvoked]
          simp [hmal]
        · obtain ⟨conn', hout, hholds, hstate⟩ := hok hmal
          rw [run_cons_of_ok backend hout, hinvoked, Option.toList_some, List.singleton_append,
            List.forall_mem_cons, ih hholds, hstate]
          simp [hmal]

end TcpConnection

/-! ## Requests behind a shutdown -/

/-- The connection is to be kept after a window: the last `BEGIN_REQUEST` that was accepted by then
has flags that are `FCGI_KEEP_CONN`. -/
def KeptAfter (w : Window) : Prop :=
  (contentsOf .beginRequest w.records).foldl keepConnStep w.start.keepConn = true

theorem keptAfter_iff (w : Window) : KeptAfter w ↔ w.accum.keepConn = true := by
  rw [KeptAfter, Window.accum, Accum.foldl_handle_eq_streams]
  rfl

/-- Every request that is followed by another one, and answered, keeps the connection. A malformed
request ends the process, so what follows it does not count. -/
def KeptUntilLast (ws : List Window) : Prop :=
  ∀ before w after, ws = before ++ w :: after → after ≠ [] →
    (∀ v ∈ before ++ [w], ¬ MalformedBody v.handed.1 v.handed.2) → KeptAfter w

namespace TcpConnection

/-- The first of the requests is executed in the state the connection is in. -/
theorem connected_of_ne_nil {state : StateE} {ws : List Window} (hne : ws ≠ [])
    (h : Connected state ws) : state = .connected := by
  rcases ws with _ | ⟨w, ws⟩
  · exact absurd rfl hne
  · exact h.1

/-- The connection stays in `kConnected` after a window iff it is to be kept. -/
theorem stateAfter_eq_connected_iff (w : Window) :
    stateAfter w.accum.keepConn .connected = .connected ↔ KeptAfter w := by
  rw [keptAfter_iff]
  cases w.accum.keepConn <;> simp [stateAfter]

theorem connected_iff_keptUntilLast (ws : List Window) :
    Connected .connected ws ↔ KeptUntilLast ws := by
  induction ws with
  | nil =>
      refine ⟨fun _ before w after h => ?_, fun _ => trivial⟩
      simp at h
  | cons w ws ih =>
      rw [Connected]
      constructor
      · rintro ⟨-, hrest⟩ before v after hsplit hne hok
        -- the first window is not malformed, so the second one is executed
        have hw : ¬ MalformedBody w.handed.1 w.handed.2 := by
          refine hok w ?_
          rcases before with _ | ⟨u, before⟩
          · cases hsplit
            simp
          · cases hsplit
            simp
        have hnext := hrest hw
        rcases before with _ | ⟨u, before⟩
        · cases hsplit
          exact (stateAfter_eq_connected_iff w).mp (connected_of_ne_nil hne hnext)
        · cases hsplit
          rw [connected_of_ne_nil (by simp) hnext] at hnext
          exact ih.mp hnext before v after rfl hne fun v' hv' =>
            hok v' (List.mem_cons_of_mem _ hv')
      · intro hkept
        refine ⟨rfl, fun hw => ?_⟩
        rcases ws with _ | ⟨v, ws⟩
        · trivial
        · -- there is a window behind this one, which therefore keeps the connection
          have hstate := (stateAfter_eq_connected_iff w).mpr
            (hkept [] w (v :: ws) rfl (by simp) (by simpa using hw))
          rw [hstate, ih]
          intro before u after hsplit hne hok
          refine hkept (w :: before) u after (by rw [hsplit]; rfl) hne ?_
          intro v' hv'
          obtain rfl | hv' := List.mem_cons.mp hv'
          · exact hw
          · exact hok v' hv'

end TcpConnection

/-- **Every request that is executed can be answered** iff the peer completes no request behind one
after which the connection was shut down: in every run of a connection, the request callback is
invoked in `kConnected` only iff each of the requests but the last keeps the connection. -/
theorem invocations_connected_iff (backend : Backend) (events : List Event) :
    (∀ inv ∈ (TcpConnection.run backend .established events).1, inv.state = .connected) ↔
      KeptUntilLast (windows .new [] (TcpConnection.received events)) := by
  rw [TcpConnection.run_connected_iff backend TcpConnection.established_holds events]
  exact TcpConnection.connected_iff_keptUntilLast _

/-- A request that arrives in one chunk ends a window of its own. -/
theorem windows_of_whole (q : Request) (keepConn : Bool) (chunks : List Bytes) :
    windows ⟨Request.clean keepConn, []⟩ [] (q.bytes :: chunks)
      = ⟨Request.clean keepConn, q.records⟩ ::
        windows ⟨Request.clean (q.flags == Codec.kFcgiKeepConn), []⟩ [] chunks := by
  have hframes : recordFormat.frames ([] ++ q.bytes) = (q.records, []) :=
    recordFormat.frames_flatMap_encode q.records
  have haccum : (Window.extend ⟨Request.clean keepConn, []⟩ q.records).accum
      = ⟨true, q.flags == Codec.kFcgiKeepConn, q.body, [], q.params⟩ := by
    rw [Window.accum_extend]
    exact q.handle_records keepConn
  rw [windows, hframes, if_pos (congrArg Accum.gotRequest haccum), Window.next, haccum]
  rfl

/-- A request that does not ask to keep the connection. -/
def closingRequest : Request := Cocgi.requestWithFlags 0

/-- A request that arrives behind it is executed, and its response is dropped. -/
theorem not_connected_behind_closing :
    ¬ ∀ inv ∈ (TcpConnection.run printRequest .established
        [.readable (.bytes closingRequest.bytes) (.accept 65535),
          .readable (.bytes Cocgi.sampleRequest.bytes) (.accept 65535)]).1,
      inv.state = .connected := by
  have hne : closingRequest.bytes ≠ [] ∧ Cocgi.sampleRequest.bytes ≠ [] := by decide
  have hreceived : TcpConnection.received
      [.readable (.bytes closingRequest.bytes) (.accept 65535),
        .readable (.bytes Cocgi.sampleRequest.bytes) (.accept 65535)]
          = [closingRequest.bytes, Cocgi.sampleRequest.bytes] := by
    simp only [TcpConnection.received, if_neg hne.1, if_neg hne.2]
  rw [TcpConnection.run_connected_iff printRequest TcpConnection.established_holds,
    show TcpConnection.established.state = .connected from rfl,
    TcpConnection.connected_iff_keptUntilLast, hreceived]
  intro hkept
  have hwindows : windows .new [] [closingRequest.bytes, Cocgi.sampleRequest.bytes]
      = [⟨Request.clean false, closingRequest.records⟩,
          ⟨Request.clean false, Cocgi.sampleRequest.records⟩] := by
    rw [Window.new, windows_of_whole, windows_of_whole]
    rfl
  rw [hwindows] at hkept
  have hkeep := hkept [] _ _ rfl (by simp) (by
    intro v hv
    rw [List.nil_append, List.mem_singleton] at hv
    subst hv
    exact Cgicc.not_malformed_of_not_isMultipart (by decide) _)
  exact absurd ((keptAfter_iff _).mp hkeep) (by decide)

end Mucgi

end FastCgi
