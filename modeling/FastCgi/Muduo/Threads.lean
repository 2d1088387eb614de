import FastCgi.Muduo.Lifecycle

/-! # The threads of the server

Each operation of the server takes a connection from one stage to the next and leaves the others
alone. From this follows what holds in every run of the threads, however they are interleaved: no
assertion fails and no destroyed connection is used (`server_never_aborts`); each connection is
reported to the callback when it is up and when it is down, once each (`callbacks_up_down`); its
events are handled as if it were alone (`connection_isolated`); and nothing of a closed connection
is left behind (`settled`). -/

namespace FastCgi

open Cocgi (ReadOutcome receiveFd)
open Mucgi (StateE Event)

/-! ## Connections -/

namespace Mucgi.TcpConnection

variable {backend : Backend} {conn conn' : TcpConnection}

/-- One more event. -/
theorem run_concat (event : Event) (events : List Event)
    (h : (run backend conn events).2 = .ok conn') :
    (run backend conn (events ++ [event])).2 = (conn'.handleEvent backend event).outcome := by
  induction events generalizing conn with
  | nil =>
      obtain rfl : conn = conn' := by simpa [run] using h
      rw [List.nil_append, run]
      cases (conn.handleEvent backend event).outcome <;> rfl
  | cons first events ih =>
      rw [List.cons_append]
      rw [run] at h ⊢
      cases hfirst : (conn.handleEvent backend first).outcome with
      | error f => simp [hfirst] at h
      | ok conn₁ =>
          simp only [hfirst] at h ⊢
          exact ih h

/-- A state in which the connection is established. -/
def Up (state : StateE) : Prop := state = .connected ∨ state = .disconnecting

theorem shutdown_up (conn : TcpConnection) (h : Up conn.state) : Up conn.shutdown.state ∧
    conn.shutdown.reading = conn.reading := by
  unfold shutdown
  split
  · have hside := shutdownInLoop_sameSide { conn with state := .disconnecting }
    rw [hside.state, hside.reading]
    exact ⟨.inr rfl, rfl⟩
  · exact ⟨h, rfl⟩

/-- The message callback may shut the connection down, but leaves it reading. -/
theorem onMessage_up (conn : TcpConnection) {write : WriteOutcome} (h : Up conn.state)
    (hturn : (conn.onMessage backend write).outcome = .ok conn') :
    Up conn'.state ∧ conn'.reading = conn.reading := by
  unfold onMessage at hturn
  cases hparse : parseRequest conn.codec with
  | error f => simp [hparse] at hturn
  | ok codec =>
      rw [hparse] at hturn
      by_cases hgot : codec.gotRequest = true
      · simp only [hgot, if_true] at hturn
        cases hresponse : onRequest backend codec.params codec.stdin with
        | error f => simp [hresponse, bind, Except.bind] at hturn
        | ok response =>
            obtain ⟨sent, hsend, hside⟩ := conn.send_ok response write
            simp only [hresponse, hsend, bind, Except.bind] at hturn
            have hup : Up sent.state := hside.state ▸ h
            by_cases hkeep : codec.keepConn = true
            · obtain rfl : { sent with codec := codec.clearRequest } = conn' := by
                simpa [hkeep, pure, Except.pure] using hturn
              exact ⟨hup, hside.reading⟩
            · obtain rfl : { sent with codec := codec.clearRequest }.shutdown = conn' := by
                simpa [hkeep, pure, Except.pure] using hturn
              obtain ⟨hup', hreading⟩ := shutdown_up { sent with codec := codec.clearRequest } hup
              exact ⟨hup', hreading.trans hside.reading⟩
      · obtain rfl : { conn with codec } = conn' := by simpa [hgot] using hturn
        exact ⟨h, rfl⟩

/-- So does the handling of what was read, unless it is the end of the input. -/
theorem handleRead_up {read : ReadOutcome} {write : WriteOutcome} (h : Up conn.state)
    (hread : read ≠ .bytes []) (hturn : (conn.handleRead backend read write).outcome = .ok conn') :
    Up conn'.state ∧ conn'.reading = conn.reading := by
  unfold handleRead at hturn
  cases read with
  | error e =>
      obtain rfl : conn = conn' := by simpa using hturn
      exact ⟨h, rfl⟩
  | bytes data =>
      have hdata : 0 < data.length := List.length_pos_of_ne_nil fun hnil => hread (by rw [hnil])
      simp only [hdata, if_true] at hturn
      cases hreceive : receiveFd conn.codec data with
      | error f => simp [hreceive] at hturn
      | ok codec =>
          simp only [hreceive] at hturn
          exact onMessage_up { conn with codec } h hturn

end Mucgi.TcpConnection

namespace Muduo

namespace TcpServer

variable {ι : Type} {cfg : Config ι} {backend : Backend} {g : Ghost ι} {s : TcpServer ι} {ℓ : ι}
  {c : Nat} {x : Connection ι}

/-! ## Changes of one connection -/

theorem find_ok (hx : s.conns c = some x) : s.find c = .ok x := by
  unfold find
  rw [hx]

@[simp] theorem set_set (x x' : Option (Connection ι)) : (s.set c x).set c x' = s.set c x' := by
  simp [set]

@[simp] theorem conns_set_self (x : Option (Connection ι)) : (s.set c x).conns c = x := by
  simp [set]

theorem note_eq (hx : s.conns c = some x) (event : Event) :
    s.note c event = s.set c (some { x with events := x.events ++ [event] }) := by
  unfold note
  rw [hx]
  rfl

variable [DecidableEq ι]

/-- A connection changes together with the poller of its loop. -/
def put (s : TcpServer ι) (ℓ : ι) (c : Nat) (x : Connection ι) (p : EPollPoller Nat) :
    TcpServer ι :=
  (s.set c (some x)).setPoller ℓ p

theorem updateChannel_ok {p : EPollPoller Nat} {channel : Channel} (hx : s.conns c = some x)
    (hloop : x.loop = ℓ)
    (hupdate : (s.loops ℓ).poller.updateChannel c { x.channel with addedToLoop := true } =
      .ok (p, channel)) :
    s.updateChannel ℓ c = .ok (s.put ℓ c { x with channel } p) := by
  unfold updateChannel
  rw [find_ok hx]
  simp only [bind, Except.bind]
  rw [assert_ok hloop, hupdate]
  rfl

/-- A member function that changes the events of the channel. -/
theorem become_of_ne {p : EPollPoller Nat} {channel : Channel} {self : Mucgi.TcpConnection}
    (hx : s.conns c = some x) (hloop : x.loop = ℓ)
    (hevents : x.channel.events ≠ ⟨self.reading, self.writing⟩)
    (hupdate : (s.loops ℓ).poller.updateChannel c
      { x.channel with events := ⟨self.reading, self.writing⟩, addedToLoop := true } =
        .ok (p, channel)) :
    s.become ℓ c self = .ok (s.put ℓ c { x with self, channel } p) := by
  unfold become
  rw [find_ok hx]
  simp only [bind, Except.bind, if_neg hevents]
  let x' : Connection ι :=
    { x with self, channel := { x.channel with events := ⟨self.reading, self.writing⟩ } }
  have hupdated := updateChannel_ok (s := s.set c (some x')) (x := x') (conns_set_self _) hloop
    hupdate
  unfold put at hupdated ⊢
  rwa [set_set] at hupdated

/-- A member function that does not. -/
theorem become_of_eq {self : Mucgi.TcpConnection} (hx : s.conns c = some x)
    (hevents : x.channel.events = ⟨self.reading, self.writing⟩) :
    s.become ℓ c self = .ok (s.set c (some { x with self })) := by
  unfold become
  rw [find_ok hx]
  simp only [bind, Except.bind, ← hevents]
  rfl

theorem put_set (x x' : Connection ι) (p : EPollPoller Nat) :
    (s.set c (some x)).put ℓ c x' p = s.put ℓ c x' p := by
  unfold put
  rw [set_set]

@[simp] theorem conns_put_self (x : Connection ι) (p : EPollPoller Nat) :
    (s.put ℓ c x p).conns c = some x := conns_set_self _

/-! ## What the operations leave -/

/-- A connection that is established: its channel is added to the poller. -/
def establish (s : TcpServer ι) (c : Nat) (x : Connection ι) : TcpServer ι :=
  (s.put x.loop c
    { x with self := .established, channel := ⟨x.channel.fd, ⟨true, false⟩, kAdded, true⟩ }
    (((s.loops x.loop).poller.keep x.channel.fd (some c)).register x.channel.fd
      (some (⟨true, false⟩, c)))).connectionCallback c true

/-- `connectEstablished`, with a descriptor that the poller does not have. -/
theorem connectEstablished_ok (hx : s.conns c = some x) (hself : x.self = connecting)
    (hevents : x.channel.events = .none) (hindex : x.channel.index = kNew)
    (hchannels : (s.loops x.loop).poller.channels x.channel.fd = none)
    (hregistered : (s.loops x.loop).poller.registered x.channel.fd = none) :
    s.connectEstablished x.loop c = .ok (s.establish c x) := by
  have hstate : x.self.state = .connecting := by
    rw [hself]
    rfl
  have hestablished :
      ({ x.self with state := .connected, reading := true } : Mucgi.TcpConnection) =
        .established := by
    rw [hself]
    rfl
  have hne : x.channel.events ≠ ⟨true, false⟩ := by
    rw [hevents]
    decide
  have hbecome : s.become x.loop c .established = .ok (s.put x.loop c
      { x with self := .established, channel := ⟨x.channel.fd, ⟨true, false⟩, kAdded, true⟩ }
      (((s.loops x.loop).poller.keep x.channel.fd (some c)).register x.channel.fd
        (some (⟨true, false⟩, c)))) :=
    become_of_ne hx rfl hne (EPollPoller.updateChannel_new hindex hchannels hregistered)
  unfold TcpServer.connectEstablished
  rw [bind_of_ok (find_ok hx), bind_of_ok (assert_ok rfl), bind_of_ok (assert_ok hstate),
    hestablished, bind_of_ok hbecome]
  rfl

/-- A connection that is closed: the kernel forgets it. -/
def close (s : TcpServer ι) (c : Nat) (x : Connection ι) : TcpServer ι :=
  (s.put x.loop c
    { x with self := x.self.handleClose, channel := ⟨x.channel.fd, .none, kDeleted, true⟩ }
    ((s.loops x.loop).poller.register x.channel.fd none)).connectionCallback c false

/-- `handleClose`, with a channel that is registered. -/
theorem handleClose_eq (hx : s.conns c = some x)
    (hstate : x.self.state = .connected ∨ x.self.state = .disconnecting)
    (hevents : x.channel.events ≠ .none) (hindex : x.channel.index = kAdded)
    (hchannels : (s.loops x.loop).poller.channels x.channel.fd = some c) :
    s.handleClose x.loop c cfg = (s.close c x).removeConnection x.loop c cfg := by
  have hbecome : s.become x.loop c x.self.handleClose = .ok (s.put x.loop c
      { x with self := x.self.handleClose, channel := ⟨x.channel.fd, .none, kDeleted, true⟩ }
      ((s.loops x.loop).poller.register x.channel.fd none)) :=
    become_of_ne hx rfl hevents (EPollPoller.updateChannel_del hindex hchannels rfl)
  unfold TcpServer.handleClose
  rw [bind_of_ok (find_ok hx), bind_of_ok (assert_ok rfl), bind_of_ok (assert_ok hstate),
    bind_of_ok hbecome]
  rfl

/-- A connection that is taken off the list. -/
def unlist (s : TcpServer ι) (c : Nat) (cfg : Config ι) : TcpServer ι :=
  { s with connections := Function.update s.connections (cfg.connName c) none }

/-- `removeConnectionInLoop`, in the loop of the server. -/
theorem removeConnectionInLoop_ok (hx : s.conns c = some x)
    (hlisted : s.connections (cfg.connName c) = some c) :
    s.removeConnectionInLoop cfg.loop c cfg =
      .ok ((s.unlist c cfg).queueInLoop x.loop ⟨.connectDestroyed, c⟩) := by
  have hsome : s.connections (cfg.connName c) ≠ none := by
    rw [hlisted]
    exact Option.some_ne_none _
  unfold TcpServer.removeConnectionInLoop
  rw [bind_of_ok (assert_ok rfl), bind_of_ok (find_ok hx), bind_of_ok (assert_ok hsome)]
  rfl

/-- A connection that is taken away from its poller. -/
def detach (s : TcpServer ι) (c : Nat) (x : Connection ι) : TcpServer ι :=
  s.put x.loop c { x with channel := { x.channel with index := kNew, addedToLoop := false } }
    ((s.loops x.loop).poller.keep x.channel.fd none)

/-- `connectDestroyed`, after the connection has been closed. -/
theorem connectDestroyed_ok (hx : s.conns c = some x) (hstate : x.self.state = .disconnected)
    (hevents : x.channel.isNoneEvent = true) (hindex : x.channel.index = kDeleted)
    (hchannels : (s.loops x.loop).poller.channels x.channel.fd = some c)
    (hremovable : Removable c (s.loops x.loop)) :
    s.connectDestroyed x.loop c = .ok (s.detach c x) := by
  let channel : Channel := { x.channel with addedToLoop := false }
  have hremove : (s.loops x.loop).poller.removeChannel c channel =
      .ok ((s.loops x.loop).poller.keep x.channel.fd none, { channel with index := kNew }) :=
    EPollPoller.removeChannel_deleted hindex hchannels hevents
  have hne : x.self.state ≠ .connected := by
    rw [hstate]
    decide
  unfold TcpServer.connectDestroyed removeChannel
  rw [bind_of_ok (find_ok hx), bind_of_ok (assert_ok rfl), if_neg hne, bind_of_ok (find_ok hx),
    bind_of_ok (assert_ok hevents), bind_of_ok (assert_ok rfl), bind_of_ok (assert_ok hremovable),
    bind_of_ok hremove]
  rfl

/-- What a change leaves alone. -/
theorem view_put_of_ne {p : EPollPoller Nat} {c' : Nat} (h : c' ≠ c)
    (hknown : p.knows c' = (s.loops ℓ).poller.knows c')
    (hregistered : p.watches c' = (s.loops ℓ).poller.watches c') :
    (s.put ℓ c x p).view g c' = s.view g c' := by
  unfold put
  rw [view_setPoller_of_eq (s := s.set c (some x)) hknown hregistered, view_set_of_ne h]

theorem view_put_self (p : EPollPoller Nat) :
    (s.put ℓ c x p).view g c = { s.view g c with
      conn := some x
      known := Function.update (s.view g c).known ℓ (p.knows c)
      registered := Function.update (s.view g c).registered ℓ (p.watches c) } := by
  unfold put
  rw [view_setPoller, view_set_self]

/-- A poller that does not change what it knows, or has registered. -/
theorem known_update_self : Function.update (s.view g c).known ℓ ((s.loops ℓ).poller.knows c) =
    (s.view g c).known :=
  Function.update_eq_self _ _

theorem registered_update_self :
    Function.update (s.view g c).registered ℓ ((s.loops ℓ).poller.watches c) =
      (s.view g c).registered :=
  Function.update_eq_self _ _

/-! ## Functors -/

/-- A thread with a functor in hand: the connection is in the stage that waits for it, and there is
no other functor for it. -/
theorem Inv.inHand {h : Option (ι × List (Nat × Revents))} {task : Task}
    (hi : Inv cfg backend ⟨some (ℓ, ⟨task, c⟩), h⟩ s) :
    ∃ x stage, Alive cfg backend c x stage (s.view ⟨some (ℓ, ⟨task, c⟩), h⟩ c) ∧
      stage.task = some task ∧ ℓ = cfg.loopOf x task ∧
      s.view ⟨none, h⟩ c =
        { s.view ⟨some (ℓ, ⟨task, c⟩), h⟩ c with functors := fun _ _ => 0 } := by
  have hpos : (s.view ⟨some (ℓ, ⟨task, c⟩), h⟩ c).functors ℓ task ≠ 0 := by simp [view]
  rcases hi.good c with ⟨habsent, -⟩ | ⟨x, stage, halive⟩ | ⟨habsent, -⟩
  · exact absurd (habsent.functors ℓ task) hpos
  · have hif : stage.task = some task ∧ ℓ = cfg.loopOf x task := by
      by_contra hif
      exact hpos ((halive.functors ℓ task).trans (if_neg hif))
    refine ⟨x, stage, halive, hif.1, hif.2, ?_⟩
    unfold view
    congr 1
    funext ℓ' task'
    -- the one functor that there is for the connection is the one in hand
    have hcount :
        ((s.phase ⟨none, h⟩ ℓ').functors ++ (s.loops ℓ').pendingFunctors).count ⟨task', c⟩ +
        (if some (ℓ, (⟨task, c⟩ : Functor)) = some (ℓ', ⟨task', c⟩) then 1 else 0) =
        if stage.task = some task' ∧ ℓ' = cfg.loopOf x task' then 1 else 0 :=
      halive.functors ℓ' task'
    simp only [reduceCtorEq, if_false, Nat.add_zero]
    by_cases heq : ℓ = ℓ' ∧ task = task'
    · obtain ⟨rfl, rfl⟩ := heq
      rw [if_pos rfl, if_pos hif] at hcount
      omega
    · rw [if_neg (by simpa using heq), if_neg] at hcount
      · simpa using hcount
      · rintro ⟨htask, rfl⟩
        obtain rfl : task = task' := Option.some.inj (hif.1.symm.trans htask)
        exact heq ⟨hif.2, rfl⟩
  · exact absurd (habsent.functors ℓ task) hpos

/-- The functor in hand does not matter to the other connections. -/
theorem view_inHand_of_ne {h : Option (ι × List (Nat × Revents))} {task : Task} {c' : Nat}
    (hc : c' ≠ c) : s.view ⟨none, h⟩ c' = s.view ⟨some (ℓ, ⟨task, c⟩), h⟩ c' := by
  have hf : ∀ ℓ' task', some (ℓ, (⟨task, c⟩ : Functor)) ≠ some (ℓ', ⟨task', c'⟩) := by
    intro ℓ' task' heq
    simp only [Option.some.injEq, Prod.mk.injEq, Functor.mk.injEq] at heq
    exact hc heq.2.2.symm
  simp [view, phase, hf]

/-- A descriptor that no poller knows yet. -/
theorem Inv.unused {stage : Stage} (hi : Inv cfg backend g s)
    (ha : Alive cfg backend c x stage (s.view g c)) (hstage : stage.known = false) :
    (s.loops ℓ).poller.channels x.channel.fd = none ∧
      (s.loops ℓ).poller.registered x.channel.fd = none := by
  have hup : stage ≠ .up := by
    rintro rfl
    cases hstage
  have hknown : (s.loops ℓ).poller.knows c x.channel.fd = false := by
    have h := ha.known ℓ x.channel.fd
    rwa [hstage, Bool.false_and, Bool.false_and] at h
  have hwatches : (s.loops ℓ).poller.watches c x.channel.fd = none :=
    (ha.registered ℓ x.channel.fd).trans (if_neg fun h => hup h.1)
  constructor
  · by_contra hne
    obtain ⟨c', hc'⟩ := Option.ne_none_iff_exists'.mp hne
    by_cases hc : c' = c
    · simp [EPollPoller.knows, hc', hc] at hknown
    · have h := (hi.elsewhere ha.conn hc ℓ).1
      simp [EPollPoller.knows, hc'] at h
  · by_contra hne
    obtain ⟨⟨events, c'⟩, hc'⟩ := Option.ne_none_iff_exists'.mp hne
    by_cases hc : c' = c
    · simp [EPollPoller.watches, hc', hc] at hwatches
    · have h := (hi.elsewhere ha.conn hc ℓ).2
      simp [EPollPoller.watches, hc'] at h

/-- `connectEstablished` takes a connection up. -/
theorem Inv.connectEstablished {h : Option (ι × List (Nat × Revents))}
    (hi : Inv cfg backend ⟨some (ℓ, ⟨.connectEstablished, c⟩), h⟩ s) :
    Safe (s.connectEstablished ℓ c) (Inv cfg backend ⟨none, h⟩) := by
  obtain ⟨x, stage, ha, htask, hℓ, hview⟩ := hi.inHand
  obtain rfl : stage = .connecting := by
    cases stage <;> first | rfl | cases htask
  have hloop : x.loop = ℓ := hℓ.symm
  subst hloop
  -- nothing has happened to it yet, and no other connection has its descriptor in this poller
  obtain ⟨hself, hhistory⟩ := ha.fits.start rfl
  have hevents : x.channel.events = .none := by
    rw [ha.fits.events, hself]
    rfl
  obtain ⟨hchannels, hregistered⟩ := hi.unused (ℓ := x.loop) ha rfl
  let x' : Connection ι :=
    { x with self := .established, channel := ⟨x.channel.fd, ⟨true, false⟩, kAdded, true⟩ }
  rw [connectEstablished_ok ha.conn hself hevents ha.fits.index hchannels hregistered]
  unfold establish
  -- only this connection changes: it goes from the stage `connecting` to the stage `up`
  refine hi.of_touched ha.conn (fun c' hc => ?_) (.inr (.inl ⟨x', .up, ?_⟩)) ?_ rfl rfl
  · rw [view_connectionCallback_of_ne hc, view_put_of_ne hc, view_inHand_of_ne hc]
    · exact EPollPoller.knows_keep _ _ (by simpa using Ne.symm hc) (hi.elsewhere ha.conn hc _).1
    · exact EPollPoller.watches_register _ _ (Ne.symm hc) (hi.elsewhere ha.conn hc _).2 _
  · rw [view_connectionCallback_self, view_put_self, hview]
    exact {
      fits := {
        state := .inl rfl
        events := rfl
        index := rfl
        added := rfl
        reading := rfl
        writing := fun h => absurd rfl h
        start := fun h => by cases h
        history := fun _ => by rw [show x'.events = [] from hhistory]; rfl
        loop := ha.fits.loop }
      conn := rfl
      created := ha.created
      listed := ha.listed
      functors := fun ℓ task => by simp [Stage.task]
      known := fun ℓ fd => by
        rw [EPollPoller.knows_register, EPollPoller.knows_keep_self]
        exact ha.known_update true ℓ fd
      registered := fun ℓ fd => by
        rw [EPollPoller.watches_register_self, EPollPoller.watches_keep]
        exact (ha.registered_update (some ⟨true, false⟩) ℓ fd).trans (by simp [x'])
      active := fun ℓ hne => absurd (ha.active ℓ hne).1 (by decide)
      callbacks := by rw [ha.callbacks]; rfl }
  · intro x'' hx''
    obtain rfl : x' = x'' := by simpa [put, setPoller, setLoop, connectionCallback] using hx''
    rfl

/-- A functor is taken in hand for a connection. -/
theorem view_inHand_self {h : Option (ι × List (Nat × Revents))} {task : Task} :
    s.view ⟨some (ℓ, ⟨task, c⟩), h⟩ c = { s.view ⟨none, h⟩ c with
      functors := fun ℓ' task' => (s.view ⟨none, h⟩ c).functors ℓ' task' +
        if ℓ = ℓ' ∧ task = task' then 1 else 0 } := by
  simp [view, phase]

/-- A functor in hand is queued. -/
theorem Inv.queueInLoop {h : Option (ι × List (Nat × Revents))} {f : Functor}
    (hi : Inv cfg backend ⟨some (ℓ, f), h⟩ s) : Inv cfg backend ⟨none, h⟩ (s.queueInLoop ℓ f) :=
  hi.congr (fun _ => view_queueInLoop (g := ⟨none, h⟩) f) rfl rfl

/-- `removeConnectionInLoop` takes a connection off the list. -/
theorem Inv.removeConnectionInLoop {h : Option (ι × List (Nat × Revents))}
    (hi : Inv cfg backend ⟨some (ℓ, ⟨.removeConnectionInLoop, c⟩), h⟩ s) :
    Safe (s.removeConnectionInLoop ℓ c cfg)
      (fun s' => Inv cfg backend ⟨none, h⟩ s' ∧ s'.conns = s.conns) := by
  obtain ⟨x, stage, ha, htask, hℓ, hview⟩ := hi.inHand
  obtain rfl : stage = .closed := by
    cases stage <;> first | rfl | cases htask
  -- a closed connection is on the list until this functor runs, so one is erased
  have hlisted : s.connections (cfg.connName c) = some c := by
    have h := ha.listed (cfg.connName c)
    simpa [view, Stage.listed] using h
  have hloop : ℓ = cfg.loop := hℓ
  subst hloop
  rw [removeConnectionInLoop_ok ha.conn hlisted]
  let s' := s.unlist c cfg
  -- its name is off the list, which is all that any connection sees of the change
  have hs' : ∀ c', s'.view ⟨none, h⟩ c' = { s.view ⟨none, h⟩ c' with
      listed := Function.update (s.view ⟨none, h⟩ c').listed (cfg.connName c) false } := by
    intro c'
    have hname : ∀ name, (s'.connections name == some c') =
        Function.update (s.view ⟨none, h⟩ c').listed (cfg.connName c) false name := by
      intro name
      by_cases hn : name = cfg.connName c
      · simp [s', unlist, hn]
      · simp [s', unlist, hn, view]
    unfold view
    congr 1
    funext name
    exact hname name
  refine ⟨Inv.queueInLoop (hi.of_touched (x := x) ha.conn (fun c' hc => ?_)
    (.inr (.inl ⟨x, .removed, ?_⟩)) (fun x' hx' => ?_) rfl rfl), rfl⟩
  · rw [← view_inHand_of_ne hc, ← view_inHand_of_ne hc]
    refine (hs' c').trans ?_
    -- the name was listed for `c`, so for no other connection
    have hother : (s.view ⟨none, h⟩ c').listed (cfg.connName c) = false := by
      simp [view, hlisted, Ne.symm hc]
    rw [Function.update_eq_self_iff.mpr hother.symm]
  · rw [view_inHand_self]
    rw [show s'.view ⟨none, h⟩ c = _ from hs' c, hview]
    exact {
      fits := { ha.fits with
        writing := fun _ => ha.fits.writing (by decide)
        start := fun h => by cases h
        history := fun _ => ha.fits.history (by decide) }
      conn := ha.conn
      created := ha.created
      listed := fun name => by
        have h := ha.listed name
        by_cases hn : name = cfg.connName c
        · simp [hn, Stage.listed]
        · rw [beq_false_of_ne hn, Bool.and_false] at h
          simpa [hn, Stage.listed] using h
      functors := fun ℓ' task' => by
        cases task' <;> simp [Stage.task, Config.loopOf, eq_comm]
      known := ha.known
      registered := fun ℓ' fd => (ha.registered ℓ' fd).trans (by simp)
      active := fun ℓ' hne => absurd (ha.active ℓ' hne).1 (by decide)
      callbacks := ha.callbacks }
  · obtain rfl : x = x' := Option.some.inj (ha.conn.symm.trans hx')
    rfl

/-- `removeConnection` sees to it, in whichever thread. -/
theorem Inv.removeConnection {h : Option (ι × List (Nat × Revents))}
    (hi : Inv cfg backend ⟨some (cfg.loop, ⟨.removeConnectionInLoop, c⟩), h⟩ s) :
    Safe (s.removeConnection ℓ c cfg)
      (fun s' => Inv cfg backend ⟨none, h⟩ s' ∧ s'.conns = s.conns) := by
  unfold TcpServer.removeConnection
  split
  · rename_i hℓ
    subst hℓ
    exact hi.removeConnectionInLoop
  · exact ⟨hi.queueInLoop, rfl⟩

/-- The poller has the channel of a connection that it knows. -/
theorem channels_of_alive {stage : Stage} (ha : Alive cfg backend c x stage (s.view g c))
    (hstage : stage.known = true) :
    (s.loops x.loop).poller.channels x.channel.fd = some c := by
  have h := ha.known x.loop x.channel.fd
  rw [hstage, beq_self_eq_true, beq_self_eq_true] at h
  exact EPollPoller.channels_of_knows h

/-- The kernel has the channel of a connection that is up. -/
theorem registered_of_alive (ha : Alive cfg backend c x .up (s.view g c)) :
    (s.loops x.loop).poller.registered x.channel.fd = some (x.channel.events, c) := by
  have h := ha.registered x.loop x.channel.fd
  rw [if_pos ⟨rfl, rfl, rfl⟩] at h
  exact EPollPoller.registered_of_watches h

/-- `connectDestroyed` takes a connection away from its poller. -/
theorem Inv.connectDestroyed {h : Option (ι × List (Nat × Revents))}
    (hi : Inv cfg backend ⟨some (ℓ, ⟨.connectDestroyed, c⟩), h⟩ s)
    (hphase : Removable c (s.loops ℓ)) :
    Safe (s.connectDestroyed ℓ c) (Inv cfg backend ⟨none, h⟩) := by
  obtain ⟨x, stage, ha, htask, hℓ, hview⟩ := hi.inHand
  obtain rfl : stage = .removed := by
    cases stage <;> first | rfl | cases htask
  have hloop : x.loop = ℓ := hℓ.symm
  subst hloop
  have hdisconnected : x.self.state = .disconnected := ha.fits.state
  -- it was closed with all events disabled, and nothing has enabled them again
  have hnone : x.channel.isNoneEvent = true := by
    rw [Channel.isNoneEvent, ha.fits.events, ha.fits.reading, ha.fits.writing (by decide)]
    rfl
  let x' : Connection ι :=
    { x with channel := { x.channel with index := kNew, addedToLoop := false } }
  rw [connectDestroyed_ok ha.conn hdisconnected hnone ha.fits.index (channels_of_alive ha (by rfl))
    hphase]
  unfold detach
  refine hi.of_touched ha.conn (fun c' hc => ?_) (.inr (.inl ⟨x', .gone, ?_⟩)) ?_ rfl rfl
  · rw [view_put_of_ne hc, view_inHand_of_ne hc]
    · exact EPollPoller.knows_keep _ _ (by simp) (hi.elsewhere ha.conn hc _).1
    · rw [EPollPoller.watches_keep]
  · rw [view_put_self, hview]
    exact {
      fits := { ha.fits with
        index := rfl
        added := rfl
        writing := fun _ => ha.fits.writing (by decide)
        start := fun h => by cases h
        history := fun _ => ha.fits.history (by decide) }
      conn := rfl
      created := ha.created
      listed := ha.listed
      functors := fun ℓ' task' => by simp [Stage.task]
      known := fun ℓ fd => by
        rw [EPollPoller.knows_keep_none]
        exact ha.known_update false ℓ fd
      registered := fun ℓ fd => by
        rw [EPollPoller.watches_keep]
        exact (congrFun (congrFun registered_update_self ℓ) fd).trans
          ((ha.registered ℓ fd).trans (by simp))
      active := fun ℓ' hne => absurd (ha.active ℓ' hne).1 (by decide)
      callbacks := ha.callbacks }
  · intro x'' hx''
    obtain rfl : x' = x'' := by simpa [put, setPoller, setLoop] using hx''
    rfl

/-! ## Events -/

/-- What handling an event leaves: the connection is still there, in the same loop. -/
structure Handled (cfg : Config ι) (backend : Backend) (h : Option (ι × List (Nat × Revents)))
    (ℓ : ι) (c : Nat) (s : TcpServer ι) : Prop where
  inv : Inv cfg backend ⟨none, h⟩ s
  conn : ∃ x, s.conns c = some x ∧ x.loop = ℓ ∧ x.self.state ≠ .connecting

/-- `handleClose`, on an event that closes the connection. -/
theorem Inv.handleClose {h : Option (ι × List (Nat × Revents))} {event : Event}
    (hi : Inv cfg backend ⟨none, h⟩ s) (ha : Alive cfg backend c x .up (s.view ⟨none, h⟩ c))
    (hidle : ∀ ℓ, (s.view ⟨none, h⟩ c).active ℓ = [])
    (hturn : (x.self.handleEvent backend event).outcome = .ok x.self.handleClose) :
    Safe ((s.note c event).handleClose x.loop c cfg) (Handled cfg backend h x.loop c) := by
  let x₁ : Connection ι := { x with events := x.events ++ [event] }
  let x' : Connection ι :=
    { x₁ with self := x.self.handleClose, channel := ⟨x.channel.fd, .none, kDeleted, true⟩ }
  have hconn₁ : (s.set c (some x₁)).conns c = some x₁ := conns_set_self _
  have hchannels := channels_of_alive ha rfl
  -- it reads while it is up, so its channel was in the kernel's set
  have hevents : x.channel.events ≠ .none := by
    rw [ha.fits.events, ha.fits.reading]
    simp [Events.none]
  have hclose : (s.set c (some x₁)).close c x₁ =
      (s.put x.loop c x' ((s.loops x.loop).poller.register x.channel.fd none)).connectionCallback c
        false := by
    unfold close
    rw [put_set]
    rfl
  rw [note_eq ha.conn,
    handleClose_eq (x := x₁) hconn₁ ha.fits.state hevents ha.fits.index hchannels, hclose]
  -- up to the close callback: the connection is closed, and its removal is in hand
  have hclosed : Inv cfg backend ⟨some (cfg.loop, ⟨.removeConnectionInLoop, c⟩), h⟩
      ((s.put x.loop c x' ((s.loops x.loop).poller.register x.channel.fd none)).connectionCallback c
        false) := by
    refine hi.of_touched ha.conn (fun c' hc => ?_) (.inr (.inl ⟨x', .closed, ?_⟩)) ?_ rfl rfl
    · rw [← view_inHand_of_ne hc, view_connectionCallback_of_ne hc, view_put_of_ne hc]
      · rw [EPollPoller.knows_register]
      · exact EPollPoller.watches_register_none_of_ne _ _ (hi.elsewhere ha.conn hc _).2
    · rw [view_inHand_self, view_connectionCallback_self, view_put_self]
      exact {
        fits := {
          state := rfl
          events := rfl
          index := rfl
          added := rfl
          reading := rfl
          writing := fun _ => rfl
          start := fun h => by cases h
          history := fun _ => (Mucgi.TcpConnection.run_concat event x.events
            (ha.fits.history (by decide))).trans hturn
          loop := ha.fits.loop }
        conn := rfl
        created := ha.created
        listed := ha.listed
        functors := fun ℓ' task' => by
          have hnone := ha.functors ℓ' task'
          simp only [hnone]
          cases task' <;> simp [Stage.task, Config.loopOf, eq_comm]
        known := fun ℓ fd => by
          rw [EPollPoller.knows_register, known_update_self]
          exact ha.known ℓ fd
        registered := fun ℓ fd => by
          rw [EPollPoller.watches_register_none]
          exact (ha.registered_update none ℓ fd).trans (by simp)
        active := fun ℓ hne => absurd (hidle ℓ) hne
        callbacks := by
          simp only [ha.callbacks]
          rfl }
    · intro x'' hx''
      obtain rfl : x' = x'' := by simpa [put, setPoller, setLoop, connectionCallback] using hx''
      rfl
  refine hclosed.removeConnection.mono fun s' hs' => ⟨hs'.1, x', ?_, rfl, fun h => by cases h⟩
  rw [hs'.2]
  exact conns_set_self _

/-- A member function that leaves a connection up. -/
theorem Inv.become_up {h : Option (ι × List (Nat × Revents))} {event : Event}
    {self : Mucgi.TcpConnection} (hi : Inv cfg backend ⟨none, h⟩ s)
    (ha : Alive cfg backend c x .up (s.view ⟨none, h⟩ c))
    (hturn : (x.self.handleEvent backend event).outcome = .ok self)
    (hup : Mucgi.TcpConnection.Up self.state) (hreading : self.reading = true) :
    Safe ((s.note c event).become x.loop c self) (Handled cfg backend h x.loop c) := by
  let x₁ : Connection ι := { x with events := x.events ++ [event] }
  let x' : Connection ι := { x₁ with
    self
    channel := { x.channel with events := ⟨self.reading, self.writing⟩, addedToLoop := true } }
  have hfits : Fits cfg backend c x' .up := {
    state := hup
    events := rfl
    index := ha.fits.index
    added := rfl
    reading := hreading
    writing := fun hne => absurd rfl hne
    start := fun h => by cases h
    history := fun _ => (Mucgi.TcpConnection.run_concat event x.events
      (ha.fits.history (by decide))).trans hturn
    loop := ha.fits.loop }
  have hstate : x'.self.state ≠ .connecting := by
    rcases hup with hup | hup <;> simp [x', hup]
  have hconn₁ : (s.set c (some x₁)).conns c = some x₁ := conns_set_self _
  rw [note_eq ha.conn]
  -- the poller is told only when the events of the channel change
  by_cases hevents : x.channel.events = ⟨self.reading, self.writing⟩
  · have hchannel : x'.channel = x.channel := by
      have hadded : x.channel.addedToLoop = true := ha.fits.added
      simp only [x', ← hevents, ← hadded]
    have hx' : { x₁ with self } = x' := by
      simp only [x'] at hchannel ⊢
      rw [hchannel]
    have hbecome : (s.set c (some x₁)).become x.loop c self = .ok (s.set c (some x')) := by
      rw [become_of_eq hconn₁ hevents, set_set, hx']
    rw [hbecome]
    refine ⟨hi.of_touched ha.conn (fun c' hc => view_set_of_ne hc _)
      (.inr (.inl ⟨x', .up, ?_⟩)) (fun x'' hx'' => ?_) rfl rfl, x', conns_set_self _, rfl, hstate⟩
    · rw [view_set_self]
      exact { ha with
        fits := hfits
        conn := rfl
        registered := fun ℓ fd => by
          rw [hchannel]
          exact ha.registered ℓ fd }
    · obtain rfl : x' = x'' := Option.some.inj ((conns_set_self _).symm.trans hx'')
      rfl
  · -- the events change: the poller finds the channel registered and modifies it
    have hchannels := channels_of_alive ha rfl
    have hregistered : (s.loops x.loop).poller.registered x.channel.fd ≠ none := by
      rw [registered_of_alive ha]
      exact Option.some_ne_none _
    have hsome : Channel.isNoneEvent x'.channel = false := by
      simp [x', Channel.isNoneEvent, Events.none, hreading]
    have hbecome : (s.set c (some x₁)).become x.loop c self =
        .ok (s.put x.loop c x' ((s.loops x.loop).poller.register x.channel.fd
          (some (x'.channel.events, c)))) := by
      rw [← put_set x₁]
      exact become_of_ne hconn₁ rfl hevents
        (EPollPoller.updateChannel_mod ha.fits.index hchannels hregistered hsome)
    rw [hbecome]
    refine ⟨hi.of_touched ha.conn (fun c' hc => ?_) (.inr (.inl ⟨x', .up, ?_⟩))
      (fun x'' hx'' => ?_) rfl rfl, x', conns_set_self _, rfl, hstate⟩
    · rw [view_put_of_ne hc]
      · rw [EPollPoller.knows_register]
      · exact EPollPoller.watches_register _ _ (Ne.symm hc) (hi.elsewhere ha.conn hc _).2 _
    · rw [view_put_self]
      exact { ha with
        fits := hfits
        conn := rfl
        known := fun ℓ fd => by
          rw [EPollPoller.knows_register, known_update_self]
          exact ha.known ℓ fd
        registered := fun ℓ fd => by
          rw [EPollPoller.watches_register_self]
          exact (ha.registered_update (some x'.channel.events) ℓ fd).trans (by simp [x', x₁]) }
    · obtain rfl : x' = x'' := by simpa [put, setPoller, setLoop] using hx''
      rfl

/-- `handleRead`, on a connection that is up. -/
theorem Inv.handleRead {h : Option (ι × List (Nat × Revents))}
    (hi : Inv cfg backend ⟨none, h⟩ s) (ha : Alive cfg backend c x .up (s.view ⟨none, h⟩ c))
    (hidle : ∀ ℓ, (s.view ⟨none, h⟩ c).active ℓ = []) (read : ReadOutcome) (write : WriteOutcome) :
    Safe (s.handleRead x.loop c cfg backend read write) (Handled cfg backend h x.loop c) := by
  have hreading : x.self.reading = true := ha.fits.reading
  have hturn : x.self.handleEvent backend (.readable read write) =
      x.self.handleRead backend read write := by
    rw [Mucgi.TcpConnection.handleEvent, if_pos hreading]
  unfold TcpServer.handleRead
  refine .ok_bind (find_ok ha.conn) (.assert_bind rfl ?_)
  -- what was read leaves the connection up, unless it is the end of the input
  have hmore (hread : read ≠ .bytes []) : Safe
      ((s.note c (.readable read write)).follow x.loop c
        (x.self.handleRead backend read write).outcome) (Handled cfg backend h x.loop c) := by
    unfold follow
    cases houtcome : (x.self.handleRead backend read write).outcome with
    | error f => trivial
    | ok self =>
        obtain ⟨hup, hsame⟩ := Mucgi.TcpConnection.handleRead_up ha.fits.state hread houtcome
        exact hi.become_up ha (hturn ▸ houtcome) hup (hsame.trans hreading)
  cases read with
  | error e => exact hmore (by simp)
  | bytes data =>
      cases data with
      | cons b data => exact hmore (by simp)
      | nil => exact hi.handleClose ha hidle (by rw [hturn]; rfl)

/-- `handleWrite`, on a connection that is up or closed. -/
theorem Handled.handleWrite {h : Option (ι × List (Nat × Revents))}
    (hs : Handled cfg backend h ℓ c s) (write : WriteOutcome) :
    Safe (s.handleWrite ℓ c write) (Handled cfg backend h ℓ c) := by
  obtain ⟨x, hx, rfl, hstate⟩ := hs.conn
  obtain ⟨stage, ha⟩ := hs.inv.alive hx
  have hturn : (x.self.handleEvent backend (.writable write)).outcome = x.self.handleWrite write :=
    rfl
  unfold TcpServer.handleWrite
  refine .ok_bind (find_ok hx) (.assert_bind rfl ?_)
  by_cases hup : stage = .up
  · subst hup
    obtain ⟨self, hwrite, hside⟩ := x.self.handleWrite_ok write
    rw [hwrite]
    exact hs.inv.become_up ha (hturn.trans hwrite) (hside.state ▸ ha.fits.state)
      (hside.reading.trans ha.fits.reading)
  · -- the channel has been disabled, and there is nothing to write
    have hwrite : x.self.handleWrite write = .ok x.self := by
      simp [Mucgi.TcpConnection.handleWrite, ha.fits.writing hup, pure, Except.pure]
    have hconnecting : stage ≠ .connecting := by
      rintro rfl
      exact hstate ha.fits.state
    let x₁ : Connection ι := { x with events := x.events ++ [.writable write] }
    rw [hwrite, note_eq hx]
    have hbecome : (s.set c (some x₁)).become x.loop c x.self = .ok (s.set c (some x₁)) := by
      rw [become_of_eq (x := x₁) (conns_set_self _) ha.fits.events, set_set]
    show Safe ((s.set c (some x₁)).become x.loop c x.self) _
    rw [hbecome]
    refine ⟨hs.inv.of_touched hx (fun c' hc => view_set_of_ne hc _) (.inr (.inl ⟨x₁, stage, ?_⟩))
      (fun x'' hx'' => ?_) rfl rfl, x₁, conns_set_self _, rfl, hstate⟩
    · rw [view_set_self]
      exact { ha with
        fits := { ha.fits with
          start := fun hstage => absurd hstage hconnecting
          history := fun _ => (Mucgi.TcpConnection.run_concat _ x.events
            (ha.fits.history hconnecting)).trans (hturn.trans hwrite) }
        conn := rfl }
    · obtain rfl : x₁ = x'' := Option.some.inj ((conns_set_self _).symm.trans hx'')
      rfl

/-- `handleEvent`: what is reported may close the connection, but not twice. -/
theorem Inv.handleEvent {h : Option (ι × List (Nat × Revents))}
    (hi : Inv cfg backend ⟨none, h⟩ s) (ha : Alive cfg backend c x .up (s.view ⟨none, h⟩ c))
    (hidle : ∀ ℓ, (s.view ⟨none, h⟩ c).active ℓ = []) (revents : Revents)
    (hrevents : revents.pollhup = true → revents.pollin = false → revents.pollpri = false)
    (read : ReadOutcome) (write write' : WriteOutcome) :
    Safe (s.handleEvent x.loop c cfg backend revents read write write')
      (Handled cfg backend h x.loop c) := by
  have hreading : x.self.reading = true := ha.fits.reading
  have hstate : x.self.state ≠ .connecting := by
    rcases ha.fits.state with hstate | hstate <;> rw [hstate] <;> decide
  have hwrite : ∀ s', Handled cfg backend h x.loop c s' →
      Safe (if revents.pollout then s'.handleWrite x.loop c write' else pure s')
        (Handled cfg backend h x.loop c) := by
    intro s' hs'
    split
    · exact hs'.handleWrite write'
    · exact hs'
  unfold TcpServer.handleEvent
  by_cases hhup : revents.pollhup = true ∧ revents.pollin = false
  · have hpri := hrevents hhup.1 hhup.2
    have hclose : (x.self.handleEvent backend .hangUp).outcome = .ok x.self.handleClose := by
      rw [Mucgi.TcpConnection.handleEvent, if_pos hreading]
    simp only [hhup, hpri, Bool.not_false, Bool.and_self, if_true, Bool.or_self, Bool.false_eq_true,
      if_false, pure_bind]
    refine (hi.handleClose ha hidle hclose).bind fun s' hs' => ?_
    exact hwrite s' hs'
  · have hno : (revents.pollhup && !revents.pollin) = false := by
      cases hin : revents.pollin <;> simp_all
    simp only [hno, Bool.false_eq_true, if_false, pure_bind]
    split
    · exact (hi.handleRead ha hidle read write).bind hwrite
    · exact hwrite s ⟨hi, x, ha.conn, rfl, hstate⟩

/-! ## Steps -/

/-- A thread handles the next of its active channels. -/
theorem Inv.handle {revents : Revents} {activeChannels : List (Nat × Revents)}
    (hi : Inv cfg backend .none s)
    (hphase : (s.loops ℓ).phase = .handling ((c, revents) :: activeChannels)) (read : ReadOutcome)
    (write write' : WriteOutcome) :
    Safe (s.handle ℓ c cfg backend activeChannels revents read write write')
      (Inv cfg backend .none) := by
  have hfunctors : (s.loops ℓ).phase.functors = [] := by rw [hphase]; rfl
  have hview : ∀ c', s.view ⟨none, some (ℓ, activeChannels)⟩ c' = { s.view .none c' with
      active := Function.update (s.view .none c').active ℓ
        ((activeChannels.filter fun active => active.1 == c').map Prod.snd) } :=
    fun _ => view_handling hfunctors
  have hactive : ∀ c', (s.view .none c').active ℓ =
      (((c, revents) :: activeChannels).filter fun active => active.1 == c').map Prod.snd := by
    intro c'
    simp [view, phase, Ghost.none, hphase, Phase.activeChannels]
  -- the channel was reported, so its connection is up, and it was reported once
  have hself : (s.view .none c).active ℓ =
      revents :: (activeChannels.filter fun active => active.1 == c).map Prod.snd := by
    rw [hactive c]
    simp
  have hne : (s.view .none c).active ℓ ≠ [] := by
    rw [hself]
    exact List.cons_ne_nil _ _
  obtain ⟨x, ha⟩ : ∃ x, Alive cfg backend c x .up (s.view .none c) := by
    rcases hi.good c with ⟨h, -⟩ | ⟨x, stage, h⟩ | ⟨h, -⟩
    · exact absurd (h.active ℓ) hne
    · obtain ⟨rfl, -⟩ := h.active ℓ hne
      exact ⟨x, h⟩
    · exact absurd (h.active ℓ) hne
  obtain ⟨-, hloop, hlength, hrevents⟩ := ha.active ℓ hne
  have hrest : (activeChannels.filter fun active => active.1 == c).map Prod.snd = [] := by
    rw [hself, List.length_cons] at hlength
    exact List.eq_nil_of_length_eq_zero (by omega)
  have hidle : ∀ ℓ', (s.view ⟨none, some (ℓ, activeChannels)⟩ c).active ℓ' = [] := by
    intro ℓ'
    rw [hview c, hrest]
    by_cases hℓ : ℓ' = ℓ
    · simp [hℓ]
    · by_contra hne'
      have hother : (s.view .none c).active ℓ' ≠ [] := by simpa [hℓ] using hne'
      exact hℓ ((ha.active ℓ' hother).2.1.trans hloop.symm)
  have ha' : Alive cfg backend c x .up (s.view ⟨none, some (ℓ, activeChannels)⟩ c) := by
    rw [hview c]
    exact { ha with
      active := fun ℓ' hne' => by
        have h := hidle ℓ'
        rw [hview c] at h
        exact absurd h hne' }
  -- the channel is taken off the reported ones: that changes what its own connection sees only
  have hi' : Inv cfg backend ⟨none, some (ℓ, activeChannels)⟩ s := by
    refine hi.of_touched ha.conn (fun c' hc => ?_) (.inr (.inl ⟨x, .up, ha'⟩))
      (fun x' hx' => by rw [Option.some.inj (ha.conn.symm.trans hx')]) rfl rfl
    rw [hview c', Function.update_eq_self_iff.mpr]
    rw [hactive c']
    simp [Ne.symm hc]
  subst hloop
  unfold TcpServer.handle
  refine (hi'.handleEvent ha' hidle revents (hrevents revents (by rw [hself]; simp)) read write
    write').bind fun s' hs' => ?_
  exact hs'.inv.congr (fun _ => view_handled activeChannels) rfl rfl

/-- A channel that the kernel reports belongs to a connection that is up. -/
theorem Inv.reported {fd : Nat} {events : Events} (hi : Inv cfg backend g s)
    (h : (s.loops ℓ).poller.registered fd = some (events, c)) :
    ∃ x, Alive cfg backend c x .up (s.view g c) ∧ x.loop = ℓ ∧ x.channel.fd = fd ∧
      x.channel.events = events := by
  have hwatches : (s.view g c).registered ℓ fd = some events := by
    simp [view, EPollPoller.watches, h]
  rcases hi.good c with ⟨ha, -⟩ | ⟨x, stage, ha⟩ | ⟨ha, -⟩
  · rw [ha.registered] at hwatches
    cases hwatches
  · rw [ha.registered] at hwatches
    split at hwatches
    · rename_i hif
      obtain ⟨rfl, rfl, rfl⟩ := hif
      exact ⟨x, ha, rfl, rfl, Option.some.inj hwatches⟩
    · cases hwatches
  · rw [ha.registered] at hwatches
    cases hwatches

/-- A loop none of whose rounds fails runs to its end. -/
theorem forM_ok {α : Type} {l : List α} {k : α → Except Failure Unit} (h : ∀ a ∈ l, k a = .ok ()) :
    l.forM k = .ok () := by
  induction l with
  | nil => rfl
  | cons a l ih =>
      show k a >>= (fun _ => l.forM k) = .ok ()
      rw [h a (List.mem_cons_self ..)]
      exact ih fun b hb => h b (List.mem_cons_of_mem _ hb)

/-- A channel is reported once at most. -/
theorem length_reported_le {activeChannels : List (Nat × Revents)}
    (hnodup : (activeChannels.map Prod.fst).Nodup) (c : Nat) :
    (activeChannels.filter fun active => active.1 == c).length ≤ 1 := by
  have hcount := List.nodup_iff_count.mp hnodup c
  rwa [List.count_eq_countP, List.countP_map, List.countP_eq_length_filter] at hcount

/-- `poll` returns. -/
theorem Inv.poll {activeChannels : List (Nat × Revents)} (hi : Inv cfg backend .none s)
    (hphase : (s.loops ℓ).phase = .polling) (hnodup : (activeChannels.map Prod.fst).Nodup)
    (hactive : ∀ active ∈ activeChannels, ∃ fd events,
      (s.loops ℓ).poller.registered fd = some (events, active.1) ∧ Reports events active.2) :
    Safe (s.poll ℓ activeChannels) (Inv cfg backend .none) := by
  have hfunctors : (s.loops ℓ).phase.functors = [] := by rw [hphase]; rfl
  unfold TcpServer.poll
  refine .ok_bind (forM_ok fun active hmem => ?_) ?_
  · -- `fillActiveChannels` finds each channel that the kernel reports in the poller's map
    obtain ⟨fd, events, hregistered, -⟩ := hactive active hmem
    obtain ⟨x, ha, rfl, -, -⟩ := hi.reported hregistered
    rw [find_ok ha.conn]
    exact assert_ok (channels_of_alive ha rfl)
  · -- what was reported is all that changes, so it is enough to look at it for each connection
    suffices hi' : Inv cfg backend ⟨none, some (ℓ, activeChannels)⟩ s from
      hi'.congr (fun _ => (view_handled activeChannels).trans (view_setActiveChannels _)) rfl rfl
    refine { hi with good := fun c => ?_ }
    have hidle : (s.view .none c).active ℓ = [] := by
      simp [view, phase, Ghost.none, hphase, Phase.activeChannels]
    rw [view_handling hfunctors]
    by_cases hnone : (activeChannels.filter fun active => active.1 == c).map Prod.snd = []
    · rw [hnone, Function.update_eq_self_iff.mpr hidle.symm]
      exact hi.good c
    · have hsome := mt List.map_eq_nil_iff.mpr hnone
      obtain ⟨⟨c', revents⟩, hfilter⟩ := List.exists_mem_of_ne_nil _ hsome
      obtain ⟨hmem, hc⟩ := List.mem_filter.mp hfilter
      obtain rfl : c' = c := by simpa using hc
      obtain ⟨fd, events, hregistered, -⟩ := hactive _ hmem
      obtain ⟨x, ha, rfl, -, -⟩ := hi.reported hregistered
      refine .inr (.inl ⟨x, .up, { ha with active := fun ℓ' hne => ?_ }⟩)
      by_cases hℓ : ℓ' = x.loop
      · subst hℓ
        refine ⟨rfl, rfl, ?_, fun revents' hrevents' => ?_⟩
        · -- reported, and once at most, so exactly once
          have hle := length_reported_le hnodup c'
          have hpos := List.length_pos_of_ne_nil hsome
          simp only [Function.update_self, List.length_map]
          omega
        · simp only [Function.update_self, List.mem_map, List.mem_filter] at hrevents'
          obtain ⟨active, ⟨hmem', -⟩, rfl⟩ := hrevents'
          obtain ⟨fd', events', -, hreports⟩ := hactive active hmem'
          exact hreports.2.2
      · exact absurd (by simpa [hℓ] using hne) (by
          intro hne'
          exact hℓ (ha.active ℓ' hne').2.1)

/-- A functor is called. -/
theorem Inv.call {f : Functor} {functors : List Functor} (hi : Inv cfg backend .none s)
    (hphase : (s.loops ℓ).phase = .calling (f :: functors)) :
    Safe ((s.setPhase ℓ (.calling functors)).call ℓ cfg f) (Inv cfg backend .none) := by
  obtain ⟨task, c⟩ := f
  have hi' : Inv cfg backend ⟨some (ℓ, ⟨task, c⟩), none⟩ (s.setPhase ℓ (.calling functors)) :=
    hi.congr (fun _ => view_take hphase) rfl rfl
  cases task with
  | connectEstablished => exact hi'.connectEstablished
  | removeConnectionInLoop => exact hi'.removeConnectionInLoop.mono fun s' hs' => hs'.1
  | connectDestroyed =>
      refine hi'.connectDestroyed ?_
      simp [setPhase, Removable]

/-- The loop of the next connection. -/
theorem Inv.getNextLoop (hi : Inv cfg backend g s) :
    ∃ next, s.getNextLoop cfg = .ok (cfg.assigned s.nextConnId, next) ∧
      (cfg.loops ≠ [] → next = s.nextConnId % cfg.loops.length) := by
  unfold TcpServer.getNextLoop Config.assigned
  by_cases hloops : cfg.loops = []
  · exact ⟨s.next, by simp [hloops, pure, Except.pure], fun hne => absurd hloops hne⟩
  · have hpos : 0 < cfg.loops.length := List.length_pos_of_ne_nil hloops
    have hnext := hi.next hloops
    have hlt : s.next < cfg.loops.length := hnext ▸ Nat.mod_lt _ hpos
    have hround : s.nextConnId % cfg.loops.length = (s.next + 1) % cfg.loops.length := by
      rw [hnext, Nat.mod_add_mod, Nat.sub_add_cancel hi.counter.1]
    refine ⟨if s.next + 1 ≥ cfg.loops.length then 0 else s.next + 1, ?_, fun _ => ?_⟩
    · rw [if_neg hloops, List.getElem?_eq_getElem hlt, ← hnext, List.getD_eq_getElem _ _ hlt]
      rfl
    · rw [hround]
      split
      · rw [show s.next + 1 = cfg.loops.length by omega, Nat.mod_self]
      · rw [Nat.mod_eq_of_lt (by omega)]

/-- A connection that is accepted, under the next number. -/
def enroll (s : TcpServer ι) (cfg : Config ι) (next : Nat) (x : Connection ι) : TcpServer ι :=
  { s with
    next
    nextConnId := s.nextConnId + 1
    connections := Function.update s.connections (cfg.connName s.nextConnId) (some s.nextConnId)
    conns := Function.update s.conns s.nextConnId (some x) }

theorem newConnection_eq {next sockfd : Nat} (hloop : s.getNextLoop cfg = .ok (ℓ, next)) :
    s.newConnection cfg sockfd =
      let s' := s.enroll cfg next ⟨ℓ, .new sockfd, connecting, []⟩
      if ℓ = cfg.loop then s'.connectEstablished cfg.loop s.nextConnId
      else .ok (s'.queueInLoop ℓ ⟨.connectEstablished, s.nextConnId⟩) := by
  unfold TcpServer.newConnection
  rw [bind_of_ok hloop]
  rfl

/-- There is nothing yet of the next connection. -/
theorem Inv.next_absent (hi : Inv cfg backend .none s) :
    Absent (s.view .none s.nextConnId) ∧ (s.view .none s.nextConnId).callbacks = [] := by
  have hcreated : ¬ (s.view .none s.nextConnId).created := fun h => absurd h.2 (lt_irrefl _)
  rcases hi.good s.nextConnId with h | ⟨x, stage, h⟩ | h
  · exact ⟨h.1, h.2.2⟩
  · exact absurd h.created hcreated
  · exact absurd h.2.1 hcreated

/-- Its name is new: numbers below `2 ^ 31` are written in full. -/
theorem Inv.connName_unlisted (hi : Inv cfg backend .none s) (c : Nat) :
    s.connections (cfg.connName s.nextConnId) ≠ some c := by
  intro hc
  have hcounter := hi.counter
  have hlisted : (s.view .none c).listed (cfg.connName s.nextConnId) = true := by
    simp [view, hc]
  rcases hi.good c with ⟨h, -⟩ | ⟨x, stage, h⟩ | ⟨h, -⟩
  · rw [h.listed] at hlisted
    cases hlisted
  · rw [h.listed, Bool.and_eq_true, beq_iff_eq] at hlisted
    have hlt := h.created.2
    exact absurd (connName_injective cfg hcounter.2 (by omega) hlisted.2) (by omega)
  · rw [h.listed] at hlisted
    cases hlisted

/-- The other connections do not notice. -/
theorem Inv.view_enroll_of_ne {next : Nat} (hi : Inv cfg backend .none s)
    (hc : c ≠ s.nextConnId) : (s.enroll cfg next x).view .none c = s.view .none c := by
  let s' := s.enroll cfg next x
  have hlisted : ∀ name, (s'.connections name == some c) = (s.connections name == some c) := by
    intro name
    by_cases hn : name = cfg.connName s.nextConnId
    · subst hn
      simp [s', enroll, Ne.symm hc, hi.connName_unlisted c]
    · simp [s', enroll, hn]
  have hcreated : (0 < c ∧ c < s'.nextConnId) = (0 < c ∧ c < s.nextConnId) := by
    simp only [s', enroll]
    exact propext (by omega)
  show s'.view .none c = s.view .none c
  unfold view
  simp only [hlisted, hcreated]
  congr 1
  exact Function.update_of_ne hc _ _

/-- The connection is to be established, which is in hand. -/
theorem Inv.alive_enroll {next sockfd : Nat} (hi : Inv cfg backend .none s)
    (hx : x = ⟨cfg.assigned s.nextConnId, .new sockfd, connecting, []⟩) :
    Alive cfg backend s.nextConnId x .connecting ((s.enroll cfg next x).view
      ⟨some (x.loop, ⟨.connectEstablished, s.nextConnId⟩), none⟩ s.nextConnId) := by
  obtain ⟨habsent, hcallbacks⟩ := hi.next_absent
  let s' := s.enroll cfg next x
  have hname : ∀ name, (s'.connections name == some s.nextConnId) =
      (name == cfg.connName s.nextConnId) := by
    intro name
    by_cases hn : name = cfg.connName s.nextConnId
    · simp [s', enroll, hn]
    · have hnone := habsent.listed name
      simp only [view] at hnone
      simp [s', enroll, hn, hnone]
  rw [view_inHand_self]
  subst hx
  exact {
    fits := ⟨rfl, rfl, rfl, rfl, rfl, fun _ => rfl, fun _ => ⟨rfl, rfl⟩,
      fun hne => absurd rfl hne, rfl⟩
    conn := Function.update_self ..
    created := ⟨hi.counter.1, Nat.lt_succ_self _⟩
    listed := fun name => hname name
    functors := fun ℓ task => by
      have hnone : (s'.view ⟨none, none⟩ s.nextConnId).functors ℓ task = 0 :=
        habsent.functors ℓ task
      simp only [s'] at hnone
      simp only [hnone]
      cases task <;> simp [Stage.task, Config.loopOf, eq_comm]
    known := fun ℓ fd => habsent.known ℓ fd
    registered := fun ℓ fd => (habsent.registered ℓ fd).trans (by simp)
    active := fun ℓ hne => absurd (habsent.active ℓ) hne
    callbacks := hcallbacks }

/-- No two connections have one descriptor, as that of the new one was not open. -/
theorem Inv.fds_enroll {next : Nat} (hi : Inv cfg backend .none s)
    (hopen : ∀ c y, s.conns c = some y → y.channel.fd ≠ x.channel.fd) {c c' : Nat}
    {y y' : Connection ι} (hy : (s.enroll cfg next x).conns c = some y)
    (hy' : (s.enroll cfg next x).conns c' = some y') (heq : y.channel.fd = y'.channel.fd) :
    c = c' := by
  by_cases hc : c = s.nextConnId <;> by_cases hc' : c' = s.nextConnId
  · rw [hc, hc']
  · subst hc
    obtain rfl : x = y := by simpa [enroll] using hy
    exact absurd heq.symm (hopen c' y' (by simpa [enroll, hc'] using hy'))
  · subst hc'
    obtain rfl : x = y' := by simpa [enroll] using hy'
    exact absurd heq (hopen c y (by simpa [enroll, hc] using hy))
  · exact hi.fds c c' y y' (by simpa [enroll, hc] using hy) (by simpa [enroll, hc'] using hy') heq

/-- A connection is accepted. -/
theorem Inv.newConnection {sockfd : Nat} (hi : Inv cfg backend .none s)
    (hopen : ∀ c x, s.conns c = some x → x.channel.fd ≠ sockfd)
    (hint : s.nextConnId + 1 < 2 ^ 31) :
    Safe (s.newConnection cfg sockfd) (Inv cfg backend .none) := by
  obtain ⟨next, hloop, hnext⟩ := hi.getNextLoop
  let x : Connection ι := ⟨cfg.assigned s.nextConnId, .new sockfd, connecting, []⟩
  have hi' : Inv cfg backend ⟨some (x.loop, ⟨.connectEstablished, s.nextConnId⟩), none⟩
      (s.enroll cfg next x) := {
    good := fun c => by
      by_cases hc : c = s.nextConnId
      · subst hc
        exact .inr (.inl ⟨x, .connecting, hi.alive_enroll rfl⟩)
      · rw [← view_inHand_of_ne hc]
        have hview : (s.enroll cfg next x).view ⟨none, none⟩ c = s.view .none c :=
          hi.view_enroll_of_ne hc
        rw [hview]
        exact hi.good c
    fds := fun c c' y y' hy hy' heq => hi.fds_enroll hopen hy hy' heq
    counter := ⟨Nat.succ_pos _, hint⟩
    next := fun hne => by
      show next = (s.nextConnId + 1 - 1) % cfg.loops.length
      rw [hnext hne, Nat.add_sub_cancel] }
  rw [newConnection_eq hloop]
  split
  · rename_i hsame
    have hsame : x.loop = cfg.loop := hsame
    rw [hsame] at hi'
    exact hi'.connectEstablished
  · exact hi'.queueInLoop

/-- The destructors find a connection that is gone as they assert. -/
theorem Inv.destroy_ok (hi : Inv cfg backend g s) (ha : Alive cfg backend c x .gone (s.view g c)) :
    s.destroy c = .ok (s.set c none) := by
  have hunknown : (s.loops x.loop).poller.channels x.channel.fd ≠ some c := by
    rw [(hi.unused (ℓ := x.loop) ha rfl).1]
    simp
  have hdisconnected : x.self.state = .disconnected := ha.fits.state
  have hadded : x.channel.addedToLoop = false := ha.fits.added
  unfold TcpServer.destroy
  rw [find_ok ha.conn]
  simp only [bind, Except.bind]
  rw [assert_ok hdisconnected, assert_ok hadded, assert_ok hunknown]
  rfl

/-- Where no functor is on its way for it, a connection is up or gone. -/
theorem Inv.up_or_gone {stage : Stage} (ha : Alive cfg backend c x stage (s.view .none c))
    (hfunctors : ∀ ℓ, ∀ f ∈ s.todo ℓ, f.conn ≠ c) : stage = .up ∨ stage = .gone := by
  have hbound : ∀ ℓ task, (s.view .none c).functors ℓ task = 0 := by
    intro ℓ task
    have hcount : (s.todo ℓ).count ⟨task, c⟩ = 0 :=
      List.count_eq_zero.mpr fun hmem => hfunctors ℓ _ hmem rfl
    simpa [view, phase, Ghost.none, todo] using hcount
  have htask : ∀ task, stage.task ≠ some task := by
    intro task h
    have hone := ha.functors (cfg.loopOf x task) task
    rw [if_pos ⟨h, rfl⟩, hbound] at hone
    cases hone
  cases stage with
  | up => exact .inl rfl
  | gone => exact .inr rfl
  | connecting | closed | removed => exact absurd rfl (htask _)

/-- The last reference to a connection is dropped: it is gone. -/
theorem Inv.destroy (hi : Inv cfg backend .none s) (hconn : s.conns c ≠ none)
    (hlisted : ∀ name, s.connections name ≠ some c)
    (hfunctors : ∀ ℓ, ∀ f ∈ s.todo ℓ, f.conn ≠ c) :
    Safe (s.destroy c) (Inv cfg backend .none) := by
  obtain ⟨x, hx⟩ := Option.ne_none_iff_exists'.mp hconn
  obtain ⟨stage, ha⟩ := hi.alive hx
  obtain rfl : stage = .gone := by
    rcases Inv.up_or_gone ha hfunctors with rfl | rfl
    · -- it is not listed
      have hlist : (s.view .none c).listed (cfg.connName c) = true := by
        simp [ha.listed, Stage.listed]
      simp [view, hlisted] at hlist
    · rfl
  rw [hi.destroy_ok ha]
  refine hi.of_touched hx (fun c' hc => view_set_of_ne hc _) (.inr (.inr ⟨?_, ?_⟩))
    (fun x' hx' => ?_) rfl rfl
  · rw [view_set_self]
    exact {
      conn := rfl
      listed := fun name => (ha.listed name).trans rfl
      functors := fun ℓ task => (ha.functors ℓ task).trans (by simp [Stage.task])
      known := fun ℓ fd => (ha.known ℓ fd).trans rfl
      registered := fun ℓ fd => (ha.registered ℓ fd).trans (by simp)
      active := fun ℓ => by
        by_contra hne
        exact absurd (ha.active ℓ hne).1 (by decide) }
  · rw [view_set_self]
    exact ⟨ha.created, ha.callbacks⟩
  · cases (conns_set_self _).symm.trans hx'

/-- **Each step keeps the invariant**, and fails no assertion. -/
theorem Inv.step {r : Except Failure (TcpServer ι)} (hi : Inv cfg backend .none s)
    (hstep : Step cfg backend s r) : Safe r (Inv cfg backend .none) := by
  cases hstep with
  | poll hphase hnodup hactive => exact hi.poll hphase hnodup hactive
  | handle hphase read write write' => exact hi.handle hphase read write write'
  | accept hphase hopen hint => exact hi.newConnection hopen hint
  | doPendingFunctors hphase =>
      exact .ok (hi.congr (fun _ => view_doPendingFunctors hphase) rfl rfl)
  | call hphase => exact hi.call hphase
  | loop hphase => exact .ok (hi.congr (fun _ => view_loop hphase) rfl rfl)
  | destroy hconn hlisted hfunctors => exact hi.destroy hconn hlisted hfunctors

/-- **So does each run**. -/
theorem Reachable.inv (hs : Reachable cfg backend s) : Inv cfg backend .none s := by
  induction hs with
  | started => exact inv_started
  | step _ hstep ih => exact (ih.step hstep).of_ok rfl

/-! ## Results -/

/-- A server with one loop beside its own. -/
def twoLoops : Config Bool := ⟨false, [true], [], [], by decide⟩

/-- A connection of the other loop, before it is established. -/
def waiting (fd : Nat) : Connection Bool := ⟨true, .new fd, connecting, []⟩

/-- Two connections are accepted, and the other loop takes their functors over. -/
def accepted : TcpServer Bool :=
  let s := (started.setActiveChannels false []).setPhase false (.handling [])
  let s := (s.enroll twoLoops 0 (waiting 7)).queueInLoop true ⟨.connectEstablished, 1⟩
  let s := (s.enroll twoLoops 0 (waiting 8)).queueInLoop true ⟨.connectEstablished, 2⟩
  ((s.setActiveChannels true []).setPhase true (.handling [])).doPendingFunctors true

/-- What is reported for a socket that can be read. -/
def canRead : Revents := ⟨false, true, false, false, false, false⟩

/-- Both are established, and can be read. -/
def reported : TcpServer Bool :=
  let s := (accepted.setPhase true (.calling [⟨.connectEstablished, 2⟩])).establish 1 (waiting 7)
  let s := ((s.setPhase true (.calling [])).establish 2 (waiting 8)).setPhase true .polling
  (s.setActiveChannels true [1, 2]).setPhase true (.handling [(1, canRead), (2, canRead)])

/-- The first one reads the end of its input. -/
def ended : Connection Bool :=
  ⟨true, ⟨7, ⟨true, false⟩, kAdded, true⟩, .established, [.readable (.bytes []) (.accept 0)]⟩

/-- It is closed. -/
def closed : Connection Bool :=
  { ended with self := ended.self.handleClose, channel := ⟨7, .none, kDeleted, true⟩ }

/-- The loop of the server has taken it off the list. -/
def unlisted : TcpServer Bool :=
  let s := ((reported.set 1 (some ended)).close 1 ended).queueInLoop false
    ⟨.removeConnectionInLoop, 1⟩
  let s := (s.setPhase true (.handling [(2, canRead)])).doPendingFunctors false
  ((s.setPhase false (.calling [])).unlist 1 twoLoops).queueInLoop true ⟨.connectDestroyed, 1⟩

/-- The other one reads a byte. -/
def heard (codec : Codec) : Connection Bool :=
  ⟨true, ⟨8, ⟨true, false⟩, kAdded, true⟩, { Mucgi.TcpConnection.established with codec },
    [.readable (.bytes [1]) (.accept 0)]⟩

/-- The first one is taken away from the poller. -/
def left (codec : Codec) : TcpServer Bool :=
  let s := ((unlisted.set 2 (some (heard codec))).setPhase true (.handling [])).doPendingFunctors
    true
  (s.setPhase true (.calling [])).detach 1 closed

/-- The first one then. -/
def gone : Connection Bool := { closed with channel := .new 7 }

theorem newConnection_twoLoops {s : TcpServer Bool} {sockfd : Nat} (hnext : s.next = 0) :
    s.newConnection twoLoops sockfd = .ok ((s.enroll twoLoops 0 (waiting sockfd)).queueInLoop true
      ⟨.connectEstablished, s.nextConnId⟩) := by
  have hloop : s.getNextLoop twoLoops = .ok (true, 0) := by
    unfold getNextLoop
    rw [hnext]
    rfl
  exact newConnection_eq hloop

theorem accepted_reachable : Reachable twoLoops printRequest accepted := by
  let s₁ := ((started (ι := Bool)).setActiveChannels false []).setPhase false (.handling [])
  let s₂ := (s₁.enroll twoLoops 0 (waiting 7)).queueInLoop true ⟨.connectEstablished, 1⟩
  let s₃ := (s₂.enroll twoLoops 0 (waiting 8)).queueInLoop true ⟨.connectEstablished, 2⟩
  let s₄ := (s₃.setActiveChannels true []).setPhase true (.handling [])
  have hpoll : Step twoLoops printRequest started (started.poll false []) :=
    .poll rfl List.nodup_nil (by simp)
  have hfirst : Step twoLoops printRequest s₁ (.ok s₂) := by
    have haccepted : s₁.newConnection twoLoops 7 = .ok s₂ := newConnection_twoLoops rfl
    exact haccepted ▸ .accept rfl (fun c x hx => by cases hx) (by decide)
  have hsecond : Step twoLoops printRequest s₂ (.ok s₃) := by
    have haccepted : s₂.newConnection twoLoops 8 = .ok s₃ := newConnection_twoLoops rfl
    have hopen : ∀ c x, s₂.conns c = some x → x.channel.fd ≠ 8 := by
      intro c x hx
      obtain ⟨-, rfl⟩ : c = 1 ∧ waiting 7 = x := by
        have hx : Function.update (fun _ => none) 1 (some (waiting 7)) c = some x := hx
        by_cases hc : c = 1
        · simpa [hc] using hx
        · simp [hc] at hx
      decide
    exact haccepted ▸ .accept rfl hopen (by decide)
  have hpoll' : Step twoLoops printRequest s₃ (s₃.poll true []) :=
    .poll rfl List.nodup_nil (by simp)
  have hpending : Step twoLoops printRequest s₄ (.ok accepted) := .doPendingFunctors rfl
  have hs₁ : Reachable twoLoops printRequest s₁ := .step .started hpoll
  have hs₄ : Reachable twoLoops printRequest s₄ := .step (.step (.step hs₁ hfirst) hsecond) hpoll'
  exact .step hs₄ hpending

theorem reported_reachable : Reachable twoLoops printRequest reported := by
  let t₁ := accepted.setPhase true (.calling [⟨.connectEstablished, 2⟩])
  let s₁ := t₁.establish 1 (waiting 7)
  let t₂ := s₁.setPhase true (.calling [])
  let s₂ := t₂.establish 2 (waiting 8)
  let s₃ := s₂.setPhase true .polling
  have hfirst : Step twoLoops printRequest accepted (.ok s₁) := by
    have hcall : t₁.call true twoLoops ⟨.connectEstablished, 1⟩ = .ok s₁ :=
      connectEstablished_ok (x := waiting 7) rfl rfl rfl rfl rfl rfl
    exact hcall ▸ .call rfl
  have hsecond : Step twoLoops printRequest s₁ (.ok s₂) := by
    have hcall : t₂.call true twoLoops ⟨.connectEstablished, 2⟩ = .ok s₂ :=
      connectEstablished_ok (x := waiting 8) rfl rfl rfl rfl rfl rfl
    exact hcall ▸ .call rfl
  have hloop : Step twoLoops printRequest s₂ (.ok s₃) := .loop rfl
  have hpoll : Step twoLoops printRequest s₃ (s₃.poll true [(1, canRead), (2, canRead)]) := by
    have hreports : Reports ⟨true, false⟩ canRead := ⟨fun _ => rfl, by decide, by decide⟩
    refine .poll rfl (by decide) fun active hmem => ?_
    rcases List.mem_cons.mp hmem with rfl | hmem
    · exact ⟨7, ⟨true, false⟩, rfl, hreports⟩
    · obtain rfl := List.mem_singleton.mp hmem
      exact ⟨8, ⟨true, false⟩, rfl, hreports⟩
  exact .step (.step (.step (.step accepted_reachable hfirst) hsecond) hloop) hpoll

/-- The step in which the first one is closed. -/
theorem close_step : Step twoLoops printRequest reported (reported.handle true 1 twoLoops
    printRequest [(2, canRead)] canRead (.bytes []) (.accept 0) (.accept 0)) := .handle rfl _ _ _

theorem unlisted_reachable : Reachable twoLoops printRequest unlisted := by
  let s₁ := reported.set 1 (some ended)
  let s₂ := (s₁.close 1 ended).queueInLoop false ⟨.removeConnectionInLoop, 1⟩
  let s₃ := s₂.setPhase true (.handling [(2, canRead)])
  let s₄ := s₃.doPendingFunctors false
  let t := s₄.setPhase false (.calling [])
  have hclosed : Step twoLoops printRequest reported (.ok s₃) := by
    have hclose : s₁.handleClose true 1 twoLoops = .ok s₂ :=
      handleClose_eq (x := ended) rfl (.inl rfl) (by decide) rfl rfl
    have hhandle : reported.handle true 1 twoLoops printRequest [(2, canRead)] canRead (.bytes [])
        (.accept 0) (.accept 0) = .ok s₃ := by
      show (s₁.handleClose true 1 twoLoops >>= fun s =>
        .ok (s.setPhase true (.handling [(2, canRead)]))) = _
      rw [bind_of_ok hclose]
    exact hhandle ▸ close_step
  have hpending : Step twoLoops printRequest s₃ (.ok s₄) := .doPendingFunctors rfl
  have hremoved : Step twoLoops printRequest s₄ (.ok unlisted) := by
    have hcall : t.removeConnectionInLoop twoLoops.loop 1 twoLoops = .ok unlisted :=
      removeConnectionInLoop_ok (x := closed) rfl rfl
    exact hcall ▸ .call (f := ⟨.removeConnectionInLoop, 1⟩) rfl
  exact .step (.step (.step reported_reachable hclosed) hpending) hremoved

/-- What was read leaves the connection with the events that it waited for. -/
theorem handle_bytes {backend : Backend} {self : Mucgi.TcpConnection} {data : Bytes}
    {write write' : WriteOutcome} {active : List (Nat × Revents)} (hx : s.conns c = some x)
    (hdata : data ≠ [])
    (hread : (x.self.handleRead backend (.bytes data) write).outcome = .ok self)
    (hevents : x.channel.events = ⟨self.reading, self.writing⟩) :
    s.handle x.loop c cfg backend active canRead (.bytes data) write write' =
      .ok ((s.set c (some { x with
        self
        events := x.events ++ [.readable (.bytes data) write] })).setPhase x.loop
          (.handling active)) := by
  obtain ⟨b, rest, rfl⟩ := List.exists_cons_of_ne_nil hdata
  let y : Connection ι := { x with events := x.events ++ [.readable (.bytes (b :: rest)) write] }
  have hbecome : (s.set c (some y)).become x.loop c self =
      .ok (s.set c (some { y with self })) := by
    rw [become_of_eq (x := y) (conns_set_self _) hevents, set_set]
  have hhandled : s.handleRead x.loop c cfg backend (.bytes (b :: rest)) write =
      .ok (s.set c (some { y with self })) := by
    unfold TcpServer.handleRead
    rw [bind_of_ok (find_ok hx), bind_of_ok (assert_ok rfl), note_eq hx]
    simp only [hread, follow]
    exact hbecome
  have hevent : s.handleEvent x.loop c cfg backend canRead (.bytes (b :: rest)) write write' =
      .ok (s.set c (some { y with self })) := by
    unfold TcpServer.handleEvent
    simp only [canRead, Bool.or_false, Bool.false_eq_true, if_false, if_true,
      pure_bind]
    rw [bind_of_ok hhandled]
    rfl
  unfold TcpServer.handle
  rw [bind_of_ok hevent]
  rfl

/-- The other one has read no more than a part of a record. -/
theorem heard_ok : ∃ codec, (Mucgi.TcpConnection.established.handleRead printRequest (.bytes [1])
    (.accept 0)).outcome = .ok (heard codec).self := by
  obtain ⟨c, c', hrecv, hparse, hview⟩ := Mucgi.TcpConnection.established_holds.receive [1]
  have hgot : ¬ c'.gotRequest = true := by
    rw [show c'.gotRequest = c'.accum.gotRequest from rfl,
      show c'.accum = _ from congrArg Prod.fst hview]
    decide
  refine ⟨c', ?_⟩
  simp only [Mucgi.TcpConnection.handleRead, hrecv, Mucgi.TcpConnection.onMessage, hparse,
    if_neg hgot]
  rfl

theorem left_reachable : ∃ codec, Reachable twoLoops printRequest (left codec) := by
  obtain ⟨codec, hread⟩ := heard_ok
  let s₁ := (unlisted.set 2 (some (heard codec))).setPhase true (.handling [])
  let s₂ := s₁.doPendingFunctors true
  let t := s₂.setPhase true (.calling [])
  have hheard : Step twoLoops printRequest unlisted (.ok s₁) := by
    have hhandle : unlisted.handle true 2 twoLoops printRequest [] canRead (.bytes [1]) (.accept 0)
        (.accept 0) = .ok s₁ :=
      handle_bytes (x := { heard codec with self := .established, events := [] }) rfl (by decide)
        hread rfl
    exact hhandle ▸ .handle rfl _ _ _
  have hpending : Step twoLoops printRequest s₁ (.ok s₂) := .doPendingFunctors rfl
  have hdetached : Step twoLoops printRequest s₂ (.ok (left codec)) := by
    have hcall : t.call true twoLoops ⟨.connectDestroyed, 1⟩ = .ok (left codec) :=
      connectDestroyed_ok (x := closed) rfl rfl rfl rfl rfl trivial
    exact hcall ▸ .call rfl
  exact ⟨codec, .step (.step (.step unlisted_reachable hheard) hpending) hdetached⟩

theorem todo_left (codec : Codec) (ℓ : Bool) : (left codec).todo ℓ = [] := by
  cases ℓ <;> rfl

/-- It is not listed any more. -/
theorem unlisted_left (codec : Codec) (name : List Char) :
    (left codec).connections name ≠ some 1 := by
  have hlisted : (left codec).connections = Function.update (Function.update (Function.update
      (fun _ => none) (twoLoops.connName 1) (some 1)) (twoLoops.connName 2) (some 2))
      (twoLoops.connName 1) none := rfl
  rw [hlisted]
  by_cases h₁ : name = twoLoops.connName 1
  · simp [h₁]
  · by_cases h₂ : name = twoLoops.connName 2
    · rw [Function.update_of_ne h₁, h₂, Function.update_self]
      decide
    · simp [h₁, h₂]

/-- **The server never aborts**: whatever the threads do, and in which order, no assertion fails, no
connection is used after its destruction, and `epoll_ctl` refuses no addition and no modification. A
descriptor that is closed by one thread and accepted by another makes no difference. -/
theorem server_never_aborts {r : Except Failure (TcpServer ι)} (hs : Reachable cfg backend s)
    (hstep : Step cfg backend s r) : r ≠ .error .abort :=
  (hs.inv.step hstep).ne_abort

/-- The connection is closed, and destroyed in the end. -/
theorem server_never_aborts_left : ∃ codec,
    reported.handle true 1 twoLoops printRequest [(2, canRead)] canRead (.bytes []) (.accept 0)
      (.accept 0) ≠ .error .abort ∧
    (left codec).destroy 1 ≠ .error .abort := by
  obtain ⟨codec, hleft⟩ := left_reachable
  have hdestroy : Step twoLoops printRequest (left codec) ((left codec).destroy 1) :=
    .destroy (Option.some_ne_none _) (unlisted_left codec) fun ℓ f hf => by
      rw [todo_left codec ℓ] at hf
      cases hf
  exact ⟨codec, server_never_aborts reported_reachable close_step,
    server_never_aborts hleft hdestroy⟩

/-- What the connection callback has been told about a connection. -/
def told (s : TcpServer ι) (c : Nat) : List Bool :=
  (s.callbacks.filter fun callback => callback.1 == c).map Prod.snd

/-- What it is to have been told by then. -/
def due : Option StateE → List Bool
  | some .connecting => []
  | some .connected | some .disconnecting => [true]
  | some .disconnected | none => [true, false]

/-- **A connection comes up once and goes down once**: the connection callback is called when it is
established, and when it is closed, and never again; and before it is destroyed both have
happened. -/
theorem callbacks_up_down (hs : Reachable cfg backend s) (c : Nat) :
    s.told c = if 0 < c ∧ c < s.nextConnId then due ((s.conns c).map fun x => x.self.state)
      else [] := by
  have htold : s.told c = (s.view .none c).callbacks := rfl
  have hcreated : (s.view .none c).created = (0 < c ∧ c < s.nextConnId) := rfl
  rcases hs.inv.good c with ⟨-, hnot, hnil⟩ | ⟨x, stage, ha⟩ | ⟨h, hyes, hboth⟩
  · rw [htold, hnil, if_neg (hcreated ▸ hnot)]
  · have hx : s.conns c = some x := ha.conn
    have hstate := ha.fits.state
    rw [htold, ha.callbacks, if_pos (hcreated ▸ ha.created), hx, Option.map_some]
    cases stage with
    | up =>
        rcases hstate with hstate | hstate <;> rw [hstate] <;> rfl
    | connecting | closed | removed | gone =>
        rw [show x.self.state = _ from hstate]
        rfl
  · have hnone : s.conns c = none := h.conn
    rw [htold, hboth, if_pos (hcreated ▸ hyes), hnone]
    rfl

theorem callbacks_up_down_left : ∃ codec,
    (left codec).conns 1 = some gone ∧
    (left codec).told 1 =
      if 0 < 1 ∧ 1 < (left codec).nextConnId then
        due (((left codec).conns 1).map fun x => x.self.state)
      else [] := by
  obtain ⟨codec, hleft⟩ := left_reachable
  exact ⟨codec, rfl, callbacks_up_down hleft 1⟩

/-- **Each connection is as if it were alone**: it is what the events of its own channel make of a
new connection, in the loop whose turn it was. -/
theorem connection_isolated (hs : Reachable cfg backend s) (hx : s.conns c = some x)
    (hstate : x.self.state ≠ .connecting) :
    (Mucgi.TcpConnection.run backend .established x.events).2 = .ok x.self ∧
      x.loop = cfg.assigned c := by
  obtain ⟨stage, ha⟩ := hs.inv.alive hx
  refine ⟨ha.fits.history ?_, ha.fits.loop⟩
  rintro rfl
  exact hstate ha.fits.state

/-- Two connections that have handled an event each. -/
theorem connection_isolated_left : ∃ codec,
    ((Mucgi.TcpConnection.run printRequest .established gone.events).2 = .ok gone.self ∧
      gone.loop = twoLoops.assigned 1) ∧
    (Mucgi.TcpConnection.run printRequest .established (heard codec).events).2 =
        .ok (heard codec).self ∧
      (heard codec).loop = twoLoops.assigned 2 := by
  obtain ⟨codec, hleft⟩ := left_reachable
  have hgone : (left codec).conns 1 = some gone := rfl
  have hheard : (left codec).conns 2 = some (heard codec) := rfl
  have hconnected : (heard codec).self.state = .connected := rfl
  exact ⟨codec, connection_isolated hleft hgone (by decide),
    connection_isolated hleft hheard (by rw [hconnected]; decide)⟩

/-- **The kernel has what the connections wait for**: a descriptor is registered in a loop iff it is
that of a connection of this loop that is up, and for the events that this waits for. -/
theorem registered_iff (hs : Reachable cfg backend s) (fd : Nat) (events : Events) :
    (s.loops ℓ).poller.registered fd = some (events, c) ↔
      ∃ x, s.conns c = some x ∧ x.loop = ℓ ∧ x.channel.fd = fd ∧
        (x.self.state = .connected ∨ x.self.state = .disconnecting) ∧
        events = ⟨true, x.self.writing⟩ := by
  constructor
  · intro h
    obtain ⟨x, ha, hloop, hfd, hevents⟩ := hs.inv.reported h
    have hreading : x.self.reading = true := ha.fits.reading
    refine ⟨x, ha.conn, hloop, hfd, ha.fits.state, ?_⟩
    rw [← hevents, ha.fits.events, hreading]
  · rintro ⟨x, hx, rfl, rfl, hup, rfl⟩
    obtain ⟨stage, ha⟩ := hs.inv.alive hx
    obtain rfl : stage = .up := by
      have hstate := ha.fits.state
      cases stage with
      | up => rfl
      | connecting | closed | removed | gone =>
          rcases hup with hup | hup <;> rw [hup] at hstate <;> cases hstate
    have hreading : x.self.reading = true := ha.fits.reading
    rw [registered_of_alive ha, ha.fits.events, hreading]

theorem registered_iff_left : ∃ codec,
    ((left codec).loops true).poller.registered 8 = some (⟨true, false⟩, 2) ∧
    (((left codec).loops true).poller.registered 8 = some (⟨true, false⟩, 2) ↔
      ∃ x, (left codec).conns 2 = some x ∧ x.loop = true ∧ x.channel.fd = 8 ∧
        (x.self.state = .connected ∨ x.self.state = .disconnecting) ∧
        ⟨true, false⟩ = Events.mk true x.self.writing) := by
  obtain ⟨codec, hleft⟩ := left_reachable
  exact ⟨codec, rfl, registered_iff hleft 8 ⟨true, false⟩⟩

/-- **Nothing is left behind**: when no functors are on their way, the connections that are up are
listed under their names, no others are, and these can be destroyed. -/
theorem settled (hs : Reachable cfg backend s) (hidle : ∀ ℓ, s.todo ℓ = []) :
    (∀ name, s.connections name = some c ↔ ∃ x, s.conns c = some x ∧ name = cfg.connName c ∧
      (x.self.state = .connected ∨ x.self.state = .disconnecting)) ∧
    (∀ x, s.conns c = some x → x.self.state ≠ .connected → x.self.state ≠ .disconnecting →
      ∃ s', Step cfg backend s (.ok s') ∧ s'.conns c = none) := by
  have hi := hs.inv
  have hfunctors : ∀ ℓ, ∀ f ∈ s.todo ℓ, f.conn ≠ c := by
    intro ℓ f hmem
    rw [hidle ℓ] at hmem
    cases hmem
  have hlisted : ∀ name, s.connections name = some c ↔ (s.view .none c).listed name = true := by
    simp [view]
  refine ⟨fun name => ?_, fun x hx hconnected hdisconnecting => ?_⟩
  · rw [hlisted]
    -- a connection for which no functor is on its way is up or has been taken from its poller
    rcases hi.good c with ⟨h, -⟩ | ⟨x, stage, ha⟩ | ⟨h, -⟩
    · have hnone : s.conns c = none := h.conn
      simp [h.listed, hnone]
    · have hx : s.conns c = some x := ha.conn
      rw [ha.listed, hx]
      rcases Inv.up_or_gone ha hfunctors with rfl | rfl
      · have hup : x.self.state = .connected ∨ x.self.state = .disconnecting := ha.fits.state
        simp [Stage.listed, hup]
      · have hdown : x.self.state = .disconnected := ha.fits.state
        simp [Stage.listed, hdown]
    · have hnone : s.conns c = none := h.conn
      simp [h.listed, hnone]
  · obtain ⟨stage, ha⟩ := hi.alive hx
    rcases Inv.up_or_gone ha hfunctors with rfl | rfl
    · rcases ha.fits.state with hup | hup
      · exact absurd hup hconnected
      · exact absurd hup hdisconnecting
    · -- it is off the list and no functor holds it, so its last owner lets go of it
      have hnot : ∀ name, s.connections name ≠ some c := by
        intro name
        rw [Ne, hlisted, ha.listed]
        simp [Stage.listed]
      have hdestroy : Step cfg backend s (s.destroy c) :=
        .destroy (by simp [hx]) hnot hfunctors
      rw [hi.destroy_ok ha] at hdestroy
      exact ⟨_, hdestroy, conns_set_self _⟩

/-- The one that is closed can be destroyed. -/
theorem settled_left : ∃ codec,
    (left codec).conns 1 = some gone ∧
    (∀ name, (left codec).connections name = some 1 ↔ ∃ x, (left codec).conns 1 = some x ∧
      name = twoLoops.connName 1 ∧
      (x.self.state = .connected ∨ x.self.state = .disconnecting)) ∧
    (∀ x, (left codec).conns 1 = some x → x.self.state ≠ .connected →
      x.self.state ≠ .disconnecting →
      ∃ s', Step twoLoops printRequest (left codec) (.ok s') ∧ s'.conns 1 = none) := by
  obtain ⟨codec, hleft⟩ := left_reachable
  exact ⟨codec, rfl, settled hleft (todo_left codec)⟩

end TcpServer

end Muduo

end FastCgi
