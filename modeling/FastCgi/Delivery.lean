import Mathlib.Data.Set.List
import FastCgi.Connection

/-! # What the peer of a `mucgi` connection receives

A response of `mucgi` goes to the socket at once as far as the socket takes it, and the rest to the
output buffer, from which `handleWrite` feeds the socket whenever it can take more. `Traffic` notes,
for each event of a run, the response that the connection accepted and the bytes that the socket
took. `output_delivered` says that nothing is lost, repeated or reordered on the way: the bytes that
were taken, followed by those in the output buffer, are the accepted responses one after the other;
and the write side is not shut down before all of them are taken. -/

namespace FastCgi

namespace Mucgi

open Cocgi (ReadOutcome receiveFd receiveFd_ok)

namespace TcpConnection

variable (backend : Backend) (conn : TcpConnection)

/-! ## Responses and bytes -/

/-- The response that the request callback passes to `send` when bytes arrive. -/
def response (data : Bytes) : Option Bytes := do
  let codec ← (receiveFd conn.codec data).toOption
  let c ← (parseRequest codec).toOption
  if c.gotRequest then
    let response ← (onRequest backend c.params c.stdin).toOption
    return response.contents
  else none

/-- What an event does to the output: the responses that the connection accepts, none or one, and
the bytes that the socket takes. -/
structure Traffic where
  accepted : List Bytes
  taken : Bytes
  deriving DecidableEq, Repr

/-- The traffic when a response is sent: it is dropped outside `kConnected`, and if the connection
turns out to be broken. -/
def sendTraffic (data : Bytes) (write : WriteOutcome) : Traffic :=
  if conn.state = .connected then
    let wrote := conn.writeDirectly data.length write
    ⟨if wrote.2 then [] else [data], data.take wrote.1⟩
  else ⟨[], []⟩

/-- The traffic of an event. -/
def traffic : Event → Traffic
  | .readable (.bytes data) write =>
    if conn.reading ∧ 0 < data.length then
      match conn.response backend data with
      | some response => conn.sendTraffic response write
      | none => ⟨[], []⟩
    else ⟨[], []⟩
  | .readable (.error _) _ => ⟨[], []⟩
  | .writable (.accept k) =>
    ⟨[], if conn.writing then conn.outputBuffer.contents.take (k + 1) else []⟩
  | .writable (.error _) => ⟨[], []⟩
  | .hangUp => ⟨[], []⟩

/-- The traffic of a run, up to the exception that ends the process. -/
def runTraffic : TcpConnection → List Event → Traffic
  | _, [] => ⟨[], []⟩
  | conn, event :: events =>
    let now := conn.traffic backend event
    match (conn.handleEvent backend event).outcome with
    | .error _ => now
    | .ok conn =>
      let later := runTraffic conn events
      ⟨now.accepted ++ later.accepted, now.taken ++ later.taken⟩

/-! ## The output queue -/

/-- The state of the output queue: while the connection is up, the channel asks for writing iff
bytes are queued; when the write side is shut down, none are, and no more will be. -/
structure Queue (conn : TcpConnection) : Prop where
  writing : conn.state ≠ .disconnected → (conn.writing = true ↔ conn.outputBuffer.contents ≠ [])
  closed : conn.state = .disconnected → conn.writing = false
  shut : conn.writeShut = true → conn.outputBuffer.contents = [] ∧ conn.state ≠ .connected

theorem queue_established : Queue established where
  writing _ := by simp [established]
  closed h := by cases h
  shut h := by cases h

variable {conn} {conn' : TcpConnection}

/-- The traffic of one step balances: what was queued and what is accepted is what is taken and what
is queued then. -/
def Balances (conn conn' : TcpConnection) (t : Traffic) : Prop :=
  conn.outputBuffer.contents ++ t.accepted.flatten = t.taken ++ conn'.outputBuffer.contents

theorem Balances.refl (h : conn'.outputBuffer = conn.outputBuffer) :
    Balances conn conn' ⟨[], []⟩ := by
  simp [Balances, h]

/-- A direct `write` that finds the connection broken takes nothing. -/
theorem writeDirectly_of_broken {len : Nat} {write : WriteOutcome}
    (h : (conn.writeDirectly len write).2 = true) : (conn.writeDirectly len write).1 = 0 := by
  unfold writeDirectly at h ⊢
  split at h
  · rename_i hidle
    rw [if_pos hidle]
    cases write with
    | accept k => cases h
    | error e => rfl
  · cases h

/-- What is queued stays in front of what is sent. -/
theorem Queue.sendInLoop (hq : Queue conn) (hstate : conn.state = .connected) (data : Bytes)
    (write : WriteOutcome) :
    ∃ conn', conn.sendInLoop data write = .ok conn' ∧ Queue conn' ∧ SameSide conn conn' ∧
      conn'.writeShut = conn.writeShut ∧ Balances conn conn' (conn.sendTraffic data write) := by
  have hne : conn.state ≠ .disconnected := by
    rw [hstate]
    decide
  have hopen : conn.writeShut ≠ true := fun h => (hq.shut h).2 hstate
  -- nothing is queued, or the socket is not tried
  have hfront : conn.outputBuffer.contents = [] ∨
      conn.writeDirectly data.length write = (0, false) := by
    by_cases hwriting : conn.writing = true
    · exact .inr (by simp [writeDirectly, hwriting])
    · exact .inl (by simpa using mt (hq.writing hne).mpr hwriting)
  rw [sendTraffic, if_pos hstate, TcpConnection.sendInLoop, if_neg hne]
  dsimp only
  split
  · rename_i hrest
    simp only [Bool.and_eq_true, Bool.not_eq_true', decide_eq_true_eq] at hrest
    -- the socket did not take all, so the rest is queued and the channel asks for writing
    obtain ⟨outputBuffer, happ, hc⟩ :=
      conn.outputBuffer.append_ok (data.drop (conn.writeDirectly data.length write).1)
    rw [happ]
    refine ⟨_, rfl, ⟨fun _ => ?_, fun h => absurd h hne, fun h => absurd h hopen⟩, ⟨rfl, rfl, rfl⟩,
      rfl, ?_⟩
    · simp only [hc, true_iff]
      intro hnil
      have hlen := congrArg List.length hnil
      simp only [List.length_append, List.length_drop, List.length_nil] at hlen
      omega
    · simp only [Balances, hc, hrest.1, Bool.false_eq_true, if_false]
      rcases hfront with hempty | hdirect
      · simp [hempty]
      · simp [hdirect]
  · rename_i hall
    simp only [Bool.and_eq_true, Bool.not_eq_true', decide_eq_true_eq, not_and, not_lt] at hall
    refine ⟨conn, rfl, hq, .refl conn, rfl, ?_⟩
    rcases hfront with hempty | hdirect
    · cases hbroken : (conn.writeDirectly data.length write).2 with
      | true => simp [Balances, hempty, writeDirectly_of_broken hbroken]
      | false => simp [Balances, hempty, List.take_of_length_le (hall hbroken)]
    · rw [hdirect] at hall
      have hnil : data = [] := List.eq_nil_of_length_eq_zero (Nat.le_zero.mp (hall rfl))
      simp [Balances, hnil]

/-- **Sending a response**. -/
theorem Queue.send (hq : Queue conn) (response : Buffer) (write : WriteOutcome) :
    ∃ conn', conn.send response write = .ok conn' ∧ Queue conn' ∧ SameSide conn conn' ∧
      conn'.writeShut = conn.writeShut ∧
      Balances conn conn' (conn.sendTraffic response.contents write) := by
  by_cases hstate : conn.state = .connected
  · have hpeek : response.peekBytes 0 response.readableBytes = .ok response.contents := by
      rw [Buffer.peekBytes_ok (by rw [response.length_contents, Nat.zero_add]), List.drop_zero,
        ← response.length_contents, List.take_length]
    have hsend : conn.send response write = conn.sendInLoop response.contents write := by
      rw [TcpConnection.send, if_pos hstate, hpeek]
      rfl
    rw [hsend]
    exact hq.sendInLoop hstate response.contents write
  · rw [conn.send_of_ne_connected hstate, sendTraffic, if_neg hstate]
    exact ⟨conn, rfl, hq, .refl conn, rfl, .refl rfl⟩

/-- The write side is shut down at once if nothing is queued, else by `handleWrite`. -/
theorem Queue.shutdown (hq : Queue conn) :
    Queue conn.shutdown ∧ conn.shutdown.outputBuffer = conn.outputBuffer := by
  rw [TcpConnection.shutdown]
  split
  · rename_i hstate
    have hne : conn.state ≠ .disconnected := by
      rw [hstate]
      decide
    have hwriting := hq.writing hne
    rw [shutdownInLoop]
    split
    · refine ⟨⟨fun _ => hwriting, fun h => (by cases h), fun h => ?_⟩, rfl⟩
      exact ⟨(hq.shut h).1, fun h => (by cases h)⟩
    · rename_i hidle
      refine ⟨⟨fun _ => hwriting, fun h => (by cases h), fun _ => ⟨?_, fun h => (by cases h)⟩⟩, rfl⟩
      simpa using mt hwriting.mpr hidle
  · exact ⟨hq, rfl⟩

theorem Queue.handleClose (hq : Queue conn) : Queue conn.handleClose where
  writing h := absurd rfl h
  closed _ := rfl
  shut h := ⟨(hq.shut h).1, fun h => by cases h⟩

/-- **Feeding the socket** from the output buffer. -/
theorem Queue.handleWrite (hq : Queue conn) (write : WriteOutcome) :
    ∃ conn', conn.handleWrite write = .ok conn' ∧ Queue conn' ∧
      Balances conn conn' (conn.traffic backend (.writable write)) := by
  unfold TcpConnection.handleWrite
  by_cases hwriting : conn.writing = true
  · have hne : conn.state ≠ .disconnected := fun h => by
      rw [hq.closed h] at hwriting
      cases hwriting
    have hsome := (hq.writing hne).mp hwriting
    -- something is queued, so the write side has not been shut down
    have hopen : conn.writeShut ≠ true := fun h => hsome (hq.shut h).1
    rw [if_pos hwriting]
    cases write with
    | error e => exact ⟨conn, rfl, hq, .refl rfl⟩
    | accept k =>
        have hle : min (k + 1) conn.outputBuffer.readableBytes
            ≤ conn.outputBuffer.contents.length := by
          rw [conn.outputBuffer.length_contents]
          exact min_le_right _ _
        obtain ⟨outputBuffer, hretr, hc⟩ := Buffer.retrieve_ok hle
        have htaken : conn.outputBuffer.contents.take (k + 1) ++ outputBuffer.contents
            = conn.outputBuffer.contents := by
          rw [hc, ← conn.outputBuffer.length_contents, List.take_eq_take_min, List.take_append_drop]
        simp only [hretr, bind, Except.bind]
        split
        · rename_i hempty
          -- all is written: the channel asks no more, and a shutdown that was put off is made
          have hnil : outputBuffer.contents = [] := by
            rw [← outputBuffer.length_contents] at hempty
            exact List.eq_nil_of_length_eq_zero hempty
          have hbalance : Balances conn { conn with outputBuffer, writing := false }
              (conn.traffic backend (.writable (.accept k))) := by
            simp [Balances, traffic, hwriting, htaken]
          refine ⟨_, rfl, ?_, ?_⟩
          · split
            · rename_i hstate
              refine ⟨fun _ => by simp [shutdownInLoop, hnil], fun _ => rfl, fun _ => ?_⟩
              refine ⟨hnil, ?_⟩
              simp [shutdownInLoop, hstate]
            · refine ⟨fun _ => by simp [hnil], fun _ => rfl, fun h => absurd h hopen⟩
          · split
            · exact hbalance
            · exact hbalance
        · rename_i hrest
          have hnil : outputBuffer.contents ≠ [] := by
            rw [← outputBuffer.length_contents] at hrest
            exact fun h => hrest (by rw [h]; rfl)
          refine ⟨_, rfl, ⟨fun _ => by simp [hwriting, hnil], fun h => absurd h hne,
            fun h => absurd h hopen⟩, ?_⟩
          simp [Balances, traffic, hwriting, htaken]
  · rw [if_neg hwriting]
    refine ⟨conn, rfl, hq, ?_⟩
    cases write with
    | error e => exact .refl rfl
    | accept k =>
        rw [traffic, if_neg hwriting]
        exact .refl rfl

/-- The response to the bytes that arrive, when these complete a request. -/
theorem response_eq {data : Bytes} {codec c : Codec} (hrecv : receiveFd conn.codec data = .ok codec)
    (hparse : parseRequest codec = .ok c) : conn.response backend data
      = if c.gotRequest then (onRequest backend c.params c.stdin).toOption.map Buffer.contents
        else none := by
  rw [response, hrecv]
  simp only [Except.toOption, Option.bind_eq_bind, Option.bind_some, hparse]
  split
  · cases onRequest backend c.params c.stdin <;> rfl
  · rfl

/-- The message callback answers the request that is complete, if one is. -/
theorem Queue.onMessage (hq : Queue conn) {codec c : Codec} (hparse : parseRequest codec = .ok c)
    {write : WriteOutcome}
    (h : ({ conn with codec }.onMessage backend write).outcome = .ok conn') :
    Queue conn' ∧ Balances conn conn'
      (match if c.gotRequest then (onRequest backend c.params c.stdin).toOption.map Buffer.contents
        else none with
      | some response => conn.sendTraffic response write
      | none => ⟨[], []⟩) := by
  rw [TcpConnection.onMessage, hparse] at h
  dsimp only at h
  by_cases hgot : c.gotRequest = true
  · rw [if_pos hgot] at h ⊢
    cases hrequest : onRequest backend c.params c.stdin with
    | error f =>
        rw [hrequest] at h
        cases h
    | ok r =>
        have hq' : Queue { conn with codec } := ⟨hq.writing, hq.closed, hq.shut⟩
        obtain ⟨conn₁, hsend, hq₁, -, -, hbalance⟩ := hq'.send r write
        rw [hrequest] at h
        simp only [bind, Except.bind, hsend, pure, Except.pure, Except.ok.injEq] at h
        have hq₂ : Queue { conn₁ with codec := c.clearRequest } :=
          ⟨hq₁.writing, hq₁.closed, hq₁.shut⟩
        subst h
        split
        · exact ⟨hq₂, hbalance⟩
        · refine ⟨hq₂.shutdown.1, ?_⟩
          rw [Balances, hq₂.shutdown.2]
          exact hbalance
  · rw [if_neg hgot] at h ⊢
    cases h
    exact ⟨⟨hq.writing, hq.closed, hq.shut⟩, .refl rfl⟩

/-- **Receiving bytes**, and answering the request they complete. -/
theorem Queue.handleRead (hq : Queue conn) (hreading : conn.reading = true) (read : ReadOutcome)
    (write : WriteOutcome) (h : (conn.handleRead backend read write).outcome = .ok conn') :
    Queue conn' ∧ Balances conn conn' (conn.traffic backend (.readable read write)) := by
  cases read with
  | error e =>
      cases h
      exact ⟨hq, .refl rfl⟩
  | bytes data =>
      rw [traffic]
      by_cases hdata : 0 < data.length
      · -- bytes have come: the traffic is that of the response, if they complete a request
        obtain ⟨codec, hrecv, -⟩ := receiveFd_ok conn.codec data
        obtain ⟨c, hparse, -⟩ := codec.parse_view Mucgi.order
        simp only [TcpConnection.handleRead, if_pos hdata, hrecv] at h
        rw [if_pos ⟨hreading, hdata⟩, response_eq backend hrecv hparse]
        exact hq.onMessage backend hparse h
      · rw [if_neg fun h => hdata h.2]
        simp only [TcpConnection.handleRead, if_neg hdata] at h
        cases h
        exact ⟨hq.handleClose, .refl rfl⟩

/-! ## Runs -/

/-- **Each event keeps the queue in order**. -/
theorem Queue.handleEvent (hq : Queue conn) (event : Event)
    (h : (conn.handleEvent backend event).outcome = .ok conn') :
    Queue conn' ∧ Balances conn conn' (conn.traffic backend event) := by
  cases event with
  | readable read write =>
      rw [TcpConnection.handleEvent] at h
      by_cases hreading : conn.reading = true
      · rw [if_pos hreading] at h
        exact hq.handleRead backend hreading read write h
      · rw [if_neg hreading] at h
        cases h
        refine ⟨hq, ?_⟩
        cases read with
        | error e => exact .refl rfl
        | bytes data =>
            rw [traffic, if_neg fun h => hreading h.1]
            exact .refl rfl
  | writable write =>
      obtain ⟨conn₁, hwrite, hq₁, hbalance⟩ := hq.handleWrite backend write
      rw [TcpConnection.handleEvent, hwrite] at h
      cases h
      exact ⟨hq₁, hbalance⟩
  | hangUp =>
      rw [TcpConnection.handleEvent] at h
      dsimp only at h
      split at h
      · cases h
        exact ⟨hq.handleClose, .refl rfl⟩
      · cases h
        exact ⟨hq, .refl rfl⟩

/-- The exception that ends the process comes before the response is sent. -/
theorem traffic_of_error {event : Event} {f : Fault}
    (h : (conn.handleEvent backend event).outcome = .error f) :
    conn.traffic backend event = ⟨[], []⟩ := by
  cases event with
  | hangUp => rfl
  | writable write =>
      obtain ⟨conn₁, hwrite, -⟩ := conn.handleWrite_ok write
      rw [TcpConnection.handleEvent, hwrite] at h
      cases h
  | readable read write =>
      cases read with
      | error e => rfl
      | bytes data =>
          rw [traffic]
          split
          · rename_i hread
            obtain ⟨codec, hrecv, -⟩ := receiveFd_ok conn.codec data
            obtain ⟨c, (hparse : parseRequest codec = .ok c), -⟩ := codec.parse_view Mucgi.order
            rw [response_eq backend hrecv hparse]
            rw [TcpConnection.handleEvent, if_pos hread.1] at h
            simp only [TcpConnection.handleRead, if_pos hread.2, hrecv, TcpConnection.onMessage,
              hparse] at h
            split at h
            · cases hrequest : onRequest backend c.params c.stdin with
              | error f =>
                  split
                  · rename_i hsome
                    simp [Except.toOption] at hsome
                  · rfl
              | ok r =>
                  -- sending raises nothing, so the exception came before there was a response
                  obtain ⟨conn₁, hsend, -⟩ := send_ok { conn with codec } r write
                  simp only [hrequest, bind, Except.bind, hsend] at h
                  cases h
            · cases h
          · rfl

/-- **Whole runs** keep the queue in order. -/
theorem Queue.run (hq : Queue conn) (events : List Event) :
    ∃ queued, conn.outputBuffer.contents ++ (conn.runTraffic backend events).accepted.flatten
        = (conn.runTraffic backend events).taken ++ queued ∧
      ∀ conn', (conn.run backend events).2 = .ok conn' →
        Queue conn' ∧ conn'.outputBuffer.contents = queued := by
  induction events generalizing conn with
  | nil =>
      refine ⟨conn.outputBuffer.contents, by simp [runTraffic], fun conn' h => ?_⟩
      cases h
      exact ⟨hq, rfl⟩
  | cons event events ih =>
      rw [TcpConnection.run, runTraffic]
      dsimp only
      cases houtcome : (conn.handleEvent backend event).outcome with
      | error f =>
          -- the process ends here, with what is queued
          refine ⟨conn.outputBuffer.contents, ?_, fun conn' h => (by cases h)⟩
          simp [traffic_of_error backend houtcome]
      | ok conn₁ =>
          obtain ⟨hq₁, hbalance₁⟩ := hq.handleEvent backend event houtcome
          obtain ⟨queued, hbalance, hend⟩ := ih hq₁
          refine ⟨queued, ?_, hend⟩
          unfold Balances at hbalance₁
          simp only
          rw [List.flatten_append, ← List.append_assoc, hbalance₁, List.append_assoc, hbalance,
            List.append_assoc]

/-- A response is the answer to an output of the backend. -/
theorem exists_answer_of_response {data r : Bytes} (h : conn.response backend data = some r) :
    ∃ qmap header, r = answer (backend qmap header) := by
  obtain ⟨codec, hrecv, -⟩ := receiveFd_ok conn.codec data
  obtain ⟨c, hparse, -⟩ := codec.parse_view Mucgi.order
  rw [response_eq backend hrecv hparse] at h
  split at h
  · by_cases hbad : MalformedBody c.params c.stdin.contents
    · rw [onRequest, backendInput, parseInput_error hbad] at h
      cases h
    · obtain ⟨qmap, header, response, -, hrun, hc⟩ := completesNormally backend hbad
      rw [hrun] at h
      cases h
      exact ⟨qmap, header, hc⟩
  · cases h

theorem exists_answer_of_accepted {event : Event} {r : Bytes}
    (h : r ∈ (conn.traffic backend event).accepted) :
    ∃ qmap header, r = answer (backend qmap header) := by
  cases event with
  | hangUp => cases h
  | writable write => cases write <;> cases h
  | readable read write =>
      cases read with
      | error e => cases h
      | bytes data =>
          rw [traffic] at h
          split at h
          · split at h
            · rename_i response hresponse
              rw [sendTraffic] at h
              split at h
              · dsimp only at h
                split at h
                · cases h
                · obtain rfl := List.mem_singleton.mp h
                  exact exists_answer_of_response backend hresponse
              · cases h
            · cases h
          · cases h

theorem exists_answer_of_runTraffic {events : List Event} {r : Bytes}
    (h : r ∈ (conn.runTraffic backend events).accepted) :
    ∃ qmap header, r = answer (backend qmap header) := by
  induction events generalizing conn with
  | nil => cases h
  | cons event events ih =>
      rw [runTraffic] at h
      dsimp only at h
      split at h
      · exact exists_answer_of_accepted backend h
      · rcases List.mem_append.mp h with h | h
        · exact exists_answer_of_accepted backend h
        · exact ih h

end TcpConnection

open TcpConnection

/-- **Nothing is lost on the way out**: in every run of a connection, the bytes that the socket has
taken are the front of the accepted responses, one after the other; what is missing is in the output
buffer, and as long as the connection is up the channel asks for writing until it is drained. The
write side is shut down only then, and the peer has received the records of all accepted responses,
complete and in order. -/
theorem output_delivered (backend : Backend) (events : List Event) :
    ∃ (outs : List Bytes) (queued : Bytes),
      (established.runTraffic backend events).accepted = outs.map answer ∧
      (∀ out ∈ outs, ∃ qmap header, out = backend qmap header) ∧
      outs.flatMap answer = (established.runTraffic backend events).taken ++ queued ∧
      (queued = [] → recordFormat.frames (established.runTraffic backend events).taken
        = (outs.flatMap answerRecords, [])) ∧
      ∀ conn, (established.run backend events).2 = .ok conn →
        conn.outputBuffer.contents = queued ∧
        (conn.state ≠ .disconnected → (conn.writing = true ↔ queued ≠ [])) ∧
        (conn.writeShut = true → queued = []) := by
  obtain ⟨queued, hbalance, hend⟩ := queue_established.run backend events
  obtain ⟨outs, hmap, houts⟩ : ∃ outs : List Bytes,
      (established.runTraffic backend events).accepted = outs.map answer ∧
      ∀ out ∈ outs, ∃ qmap header, out = backend qmap header := by
    have hrange : (established.runTraffic backend events).accepted
        ∈ Set.range (List.map fun q : _ × _ => answer (backend q.1 q.2)) := by
      rw [Set.range_list_map]
      intro r hr
      obtain ⟨qmap, header, rfl⟩ := exists_answer_of_runTraffic backend hr
      exact ⟨(qmap, header), rfl⟩
    obtain ⟨inputs, hinputs⟩ := hrange
    refine ⟨inputs.map fun q => backend q.1 q.2, ?_, fun out hout => ?_⟩
    · rw [← hinputs, List.map_map]
      rfl
    · obtain ⟨q, -, rfl⟩ := List.mem_map.mp hout
      exact ⟨q.1, q.2, rfl⟩
  have hflat : outs.flatMap answer = (established.runTraffic backend events).taken ++ queued := by
    rw [hmap, show established.outputBuffer.contents = [] from Buffer.contents_new] at hbalance
    rw [← hbalance, List.nil_append]
    rfl
  refine ⟨outs, queued, hmap, houts, hflat, fun hnil => ?_, fun conn hrun => ?_⟩
  · have htaken : (established.runTraffic backend events).taken
        = (outs.flatMap answerRecords).flatMap Record.encode := by
      rw [hnil, List.append_nil] at hflat
      rw [← hflat, List.flatMap_assoc]
      rfl
    rw [htaken]
    exact recordFormat.frames_flatMap_encode _
  · obtain ⟨hq, hqueued⟩ := hend conn hrun
    rw [← hqueued]
    exact ⟨rfl, hq.writing, fun h => (hq.shut h).1⟩

end Mucgi

end FastCgi
