import Mathlib.Logic.Relation
import FastCgi.Muduo.Poller

/-! # The server of `mucgi` and its threads

The `TcpServer` of `mucgi` accepts connections in its own loop and gives each of them to one of the
loops of its thread pool, or keeps it if there are none. A connection then lives in two threads: its
events are handled in the loop that it was given to, and `connections_`, which keeps it alive,
belongs to the loop of the server. So opening and closing a connection is a dialogue of functors:
`connectEstablished` is sent to the loop of the connection, and when that closes the connection,
`removeConnectionInLoop` goes back, and in turn `connectDestroyed`. The descriptor is closed with
the last reference, in whichever thread that is dropped, and may then be accepted again.

`Step` interleaves the threads of all loops. A thread takes a step for each channel that it handles
and for each functor that it calls; these share nothing but the queues of functors, and each puts at
most one functor into the queue of another thread. -/

namespace FastCgi

namespace Muduo

open Cocgi (ReadOutcome)
open Mucgi (StateE Event)

/-- What a server is made with; `ι` are the loops. -/
structure Config (ι : Type) where
  /-- `loop_`. -/
  loop : ι
  /-- `loops_` of `threadPool_`. -/
  loops : List ι
  name : List Char
  ipPort : List Char
  /-- An address has 45 characters at most, and a port 5. -/
  length_ipPort : ipPort.length ≤ 51

/-- The functors that are sent between loops. -/
inductive Task
  | connectEstablished
  | removeConnectionInLoop
  | connectDestroyed
  deriving DecidableEq, Repr

/-- A task bound to a connection. -/
structure Functor where
  task : Task
  conn : Nat
  deriving DecidableEq, Repr

/-- `revents_`, without `POLLRDHUP`: it is reported only where it is asked for. -/
structure Revents where
  pollhup : Bool
  pollin : Bool
  pollpri : Bool
  pollerr : Bool
  pollnval : Bool
  pollout : Bool
  deriving DecidableEq, Repr

/-- Where the thread of a loop is. -/
inductive Phase
  /-- In `poller_->poll`. -/
  | polling
  /-- In the loop over the active channels, of which these are left. -/
  | handling (activeChannels : List (Nat × Revents))
  /-- In the loop over the functors, of which these are left. -/
  | calling (functors : List Functor)

/-- The active channels that are left. -/
def Phase.activeChannels : Phase → List (Nat × Revents)
  | .handling activeChannels => activeChannels
  | _ => []

/-- The functors that are left. -/
def Phase.functors : Phase → List Functor
  | .calling functors => functors
  | _ => []

/-- An `EventLoop`. -/
structure Loop where
  phase : Phase
  pendingFunctors : List Functor
  poller : EPollPoller Nat
  /-- `activeChannels_`: those that `poll` has returned last, also when they have been handled. -/
  activeChannels : List Nat

/-- A `TcpConnection` with its loop and its channel, and the events that it has handled. -/
structure Connection (ι : Type) where
  loop : ι
  channel : Channel
  self : Mucgi.TcpConnection
  events : List Event

/-- A `TcpServer` with the connections and loops of the process. A connection is known by the number
that is in its name. -/
structure TcpServer (ι : Type) where
  /-- `next_` of `threadPool_`. -/
  next : Nat
  nextConnId : Nat
  /-- `connections_`. -/
  connections : List Char → Option Nat
  /-- The connections that are not destroyed. -/
  conns : Nat → Option (Connection ι)
  loops : ι → Loop
  /-- The calls of `connectionCallback_`, with what `connected()` says in each. -/
  callbacks : List (Nat × Bool)

variable {ι : Type} [DecidableEq ι]

/-- A new connection, in `kConnecting`. -/
def connecting : Mucgi.TcpConnection :=
  { Mucgi.TcpConnection.established with state := .connecting, reading := false }

namespace Config

variable (cfg : Config ι)

/-- The name of a connection, with the text that `snprintf` leaves in 64 characters. -/
def connName (nextConnId : Nat) : List Char :=
  cfg.name ++ ('-' :: (cfg.ipPort ++ '#' :: Nat.toDigits 10 nextConnId)).take 63

end Config

namespace TcpServer

/-- A server that has been started, before the first connection. -/
def started : TcpServer ι where
  next := 0
  nextConnId := 1
  connections _ := none
  conns _ := none
  loops _ := ⟨.polling, [], .new, []⟩
  callbacks := []

variable (s : TcpServer ι) (ℓ : ι) (c : Nat)

/-- The use of a connection, which must not be destroyed. -/
def find : Except Failure (Connection ι) :=
  match s.conns c with
  | some x => .ok x
  | none => .error .abort

def set (x : Option (Connection ι)) : TcpServer ι :=
  { s with conns := Function.update s.conns c x }

def setLoop (l : Loop) : TcpServer ι := { s with loops := Function.update s.loops ℓ l }

def setPhase (phase : Phase) : TcpServer ι := s.setLoop ℓ { s.loops ℓ with phase }

def setPoller (poller : EPollPoller Nat) : TcpServer ι :=
  s.setLoop ℓ { s.loops ℓ with poller }

def setActiveChannels (activeChannels : List Nat) : TcpServer ι :=
  s.setLoop ℓ { s.loops ℓ with activeChannels }

/-- `queueInLoop`. -/
def queueInLoop (f : Functor) : TcpServer ι :=
  s.setLoop ℓ { s.loops ℓ with pendingFunctors := (s.loops ℓ).pendingFunctors ++ [f] }

/-- `connectionCallback_`. -/
def connectionCallback (connected : Bool) : TcpServer ι :=
  { s with callbacks := s.callbacks ++ [(c, connected)] }

/-! ## Channels -/

/-- `Channel::update`, in the thread of `ℓ`. -/
def updateChannel : Except Failure (TcpServer ι) := do
  let x ← s.find c
  assert (x.loop = ℓ)
  let (poller, channel) ←
    (s.loops ℓ).poller.updateChannel c { x.channel with addedToLoop := true }
  return (s.set c (some { x with channel })).setPoller ℓ poller

/-- What a member function of a connection leaves: it has called `update` if it has changed the
events of the channel. -/
def become (self : Mucgi.TcpConnection) : Except Failure (TcpServer ι) := do
  let x ← s.find c
  let events := ⟨self.reading, self.writing⟩
  let s := s.set c (some { x with self, channel := { x.channel with events } })
  if x.channel.events = events then return s else s.updateChannel ℓ c

/-- The same for a member function that may throw. -/
def follow (outcome : Except Fault Mucgi.TcpConnection) : Except Failure (TcpServer ι) :=
  match outcome with
  | .ok self => s.become ℓ c self
  | .error f => throw (.exception f)

/-- `EventLoop::removeChannel` asserts this: while the active channels are handled, none of them is
removed but the one that is being handled. -/
def Removable (l : Loop) : Prop :=
  match l.phase with
  | .handling left => left.head?.map Prod.fst = some c ∨ c ∉ l.activeChannels
  | _ => True

instance (l : Loop) : Decidable (Removable c l) := by
  unfold Removable
  cases l.phase <;> infer_instance

/-- `Channel::remove`. -/
def removeChannel : Except Failure (TcpServer ι) := do
  let x ← s.find c
  assert (x.channel.isNoneEvent = true)
  assert (x.loop = ℓ)
  assert (Removable c (s.loops ℓ))
  let (poller, channel) ←
    (s.loops ℓ).poller.removeChannel c { x.channel with addedToLoop := false }
  return (s.set c (some { x with channel })).setPoller ℓ poller

/-! ## Opening and closing -/

variable (cfg : Config ι) (backend : Backend)

/-- `connectEstablished`. -/
def connectEstablished : Except Failure (TcpServer ι) := do
  let x ← s.find c
  assert (x.loop = ℓ)
  assert (x.self.state = .connecting)
  let s ← s.become ℓ c { x.self with state := .connected, reading := true }
  return s.connectionCallback c true

/-- `connectDestroyed`. -/
def connectDestroyed : Except Failure (TcpServer ι) := do
  let x ← s.find c
  assert (x.loop = ℓ)
  if x.self.state = .connected then
    let s ← s.become ℓ c x.self.handleClose
    (s.connectionCallback c false).removeChannel ℓ c
  else s.removeChannel ℓ c

/-- `removeConnectionInLoop`. -/
def removeConnectionInLoop : Except Failure (TcpServer ι) := do
  assert (ℓ = cfg.loop)
  let x ← s.find c
  assert (s.connections (cfg.connName c) ≠ none)
  let s := { s with connections := Function.update s.connections (cfg.connName c) none }
  return s.queueInLoop x.loop ⟨.connectDestroyed, c⟩

/-- `removeConnection`. -/
def removeConnection : Except Failure (TcpServer ι) :=
  if ℓ = cfg.loop then s.removeConnectionInLoop ℓ c cfg
  else return s.queueInLoop cfg.loop ⟨.removeConnectionInLoop, c⟩

/-- `handleClose`. -/
def handleClose : Except Failure (TcpServer ι) := do
  let x ← s.find c
  assert (x.loop = ℓ)
  assert (x.self.state = .connected ∨ x.self.state = .disconnecting)
  let s ← s.become ℓ c x.self.handleClose
  (s.connectionCallback c false).removeConnection ℓ c cfg

/-- `getNextLoop`: the loop, and what `next_` is then. -/
def getNextLoop : Except Failure (ι × Nat) :=
  if cfg.loops = [] then return (cfg.loop, s.next)
  else
    match cfg.loops[s.next]? with
    | none => throw .abort
    | some loop => return (loop, if s.next + 1 ≥ cfg.loops.length then 0 else s.next + 1)

/-- `newConnection`, in the thread of the server. -/
def newConnection (sockfd : Nat) : Except Failure (TcpServer ι) := do
  let (loop, next) ← s.getNextLoop cfg
  let c := s.nextConnId
  let s := { s with
    next
    nextConnId := c + 1
    connections := Function.update s.connections (cfg.connName c) (some c)
    conns := Function.update s.conns c (some ⟨loop, .new sockfd, connecting, []⟩) }
  if loop = cfg.loop then s.connectEstablished cfg.loop c
  else return s.queueInLoop loop ⟨.connectEstablished, c⟩

/-- The destructor of a connection, with that of its channel. -/
def destroy : Except Failure (TcpServer ι) := do
  let x ← s.find c
  assert (x.self.state = .disconnected)
  assert (x.channel.addedToLoop = false)
  assert ((s.loops x.loop).poller.channels x.channel.fd ≠ some c)
  return s.set c none

/-! ## Events -/

/-- A connection handles an event. -/
def note (event : Event) : TcpServer ι :=
  s.set c ((s.conns c).map fun x => { x with events := x.events ++ [event] })

/-- `handleRead`: at the end of the input the connection is closed. -/
def handleRead (read : ReadOutcome) (write : WriteOutcome) : Except Failure (TcpServer ι) := do
  let x ← s.find c
  assert (x.loop = ℓ)
  let s := s.note c (.readable read write)
  match read with
  | .bytes [] => s.handleClose ℓ c cfg
  | read => s.follow ℓ c (x.self.handleRead backend read write).outcome

/-- `handleWrite`. -/
def handleWrite (write : WriteOutcome) : Except Failure (TcpServer ι) := do
  let x ← s.find c
  assert (x.loop = ℓ)
  (s.note c (.writable write)).follow ℓ c (x.self.handleWrite write)

/-- `handleEvent`, for a connection that is not destroyed; errors are logged. -/
def handleEvent (revents : Revents) (read : ReadOutcome) (write write' : WriteOutcome) :
    Except Failure (TcpServer ι) := do
  let s ←
    if revents.pollhup && !revents.pollin then (s.note c .hangUp).handleClose ℓ c cfg else pure s
  let s ←
    if revents.pollin || revents.pollpri then s.handleRead ℓ c cfg backend read write else pure s
  if revents.pollout then s.handleWrite ℓ c write' else pure s

/-! ## Loops -/

/-- `poll` with `fillActiveChannels`. -/
def poll (activeChannels : List (Nat × Revents)) : Except Failure (TcpServer ι) := do
  activeChannels.forM fun active => do
    let x ← s.find active.1
    assert ((s.loops ℓ).poller.channels x.channel.fd = some active.1)
  return (s.setActiveChannels ℓ (activeChannels.map Prod.fst)).setPhase ℓ
    (.handling activeChannels)

/-- The body of the loop over the active channels. -/
def handle (activeChannels : List (Nat × Revents)) (revents : Revents) (read : ReadOutcome)
    (write write' : WriteOutcome) : Except Failure (TcpServer ι) := do
  let s ← s.handleEvent ℓ c cfg backend revents read write write'
  return s.setPhase ℓ (.handling activeChannels)

/-- The swap of `doPendingFunctors`. -/
def doPendingFunctors : TcpServer ι :=
  s.setLoop ℓ { s.loops ℓ with
    phase := .calling (s.loops ℓ).pendingFunctors, pendingFunctors := [] }

/-- The call of a functor. -/
def call (f : Functor) : Except Failure (TcpServer ι) :=
  match f.task with
  | .connectEstablished => s.connectEstablished ℓ f.conn
  | .removeConnectionInLoop => s.removeConnectionInLoop ℓ f.conn cfg
  | .connectDestroyed => s.connectDestroyed ℓ f.conn

/-- The functors that a loop has taken over or queued. -/
def todo : List Functor := (s.loops ℓ).phase.functors ++ (s.loops ℓ).pendingFunctors

/-- What the kernel may report for a channel that is registered for `events`. A socket that is hung
up can be read, unless it was never connected. -/
def Reports (events : Events) (revents : Revents) : Prop :=
  ((revents.pollin = true ∨ revents.pollpri = true) → events.reading = true) ∧
  (revents.pollout = true → events.writing = true) ∧
  (revents.pollhup = true → revents.pollin = false → revents.pollpri = false)

/-- The **steps** of the threads of a server, with what becomes of it. -/
inductive Step :
    TcpServer ι → Except Failure (TcpServer ι) → Prop
  /-- `poll` returns, with events of channels that are registered. -/
  | poll {s : TcpServer ι} {ℓ : ι} {activeChannels : List (Nat × Revents)}
      (hphase : (s.loops ℓ).phase = .polling) (hnodup : (activeChannels.map Prod.fst).Nodup)
      (hactive : ∀ active ∈ activeChannels, ∃ fd events,
        (s.loops ℓ).poller.registered fd = some (events, active.1) ∧ Reports events active.2) :
      Step s (s.poll ℓ activeChannels)
  /-- The next of the active channels is handled. -/
  | handle {s : TcpServer ι} {ℓ : ι} {c : Nat} {revents : Revents}
      {activeChannels : List (Nat × Revents)}
      (hphase : (s.loops ℓ).phase = .handling ((c, revents) :: activeChannels))
      (read : ReadOutcome) (write write' : WriteOutcome) :
      Step s (s.handle ℓ c cfg backend activeChannels revents read write write')
  /-- The channel of the acceptor is handled among them. `accept` gives a descriptor that is not
  open. -/
  | accept {s : TcpServer ι} {sockfd : Nat} {activeChannels : List (Nat × Revents)}
      (hphase : (s.loops cfg.loop).phase = .handling activeChannels)
      (hopen : ∀ c x, s.conns c = some x → x.channel.fd ≠ sockfd)
      (hint : s.nextConnId + 1 < 2 ^ 31) :
      Step s (s.newConnection cfg sockfd)
  /-- `doPendingFunctors` takes the functors over. -/
  | doPendingFunctors {s : TcpServer ι} {ℓ : ι} (hphase : (s.loops ℓ).phase = .handling []) :
      Step s (.ok (s.doPendingFunctors ℓ))
  /-- It calls the next of them. -/
  | call {s : TcpServer ι} {ℓ : ι} {f : Functor} {functors : List Functor}
      (hphase : (s.loops ℓ).phase = .calling (f :: functors)) :
      Step s ((s.setPhase ℓ (.calling functors)).call ℓ cfg f)
  /-- It returns. -/
  | loop {s : TcpServer ι} {ℓ : ι} (hphase : (s.loops ℓ).phase = .calling []) :
      Step s (.ok (s.setPhase ℓ .polling))
  /-- The last reference to a connection is dropped. -/
  | destroy {s : TcpServer ι} {c : Nat} (hconn : s.conns c ≠ none)
      (hlisted : ∀ name, s.connections name ≠ some c)
      (hfunctors : ∀ ℓ, ∀ f ∈ s.todo ℓ, f.conn ≠ c) : Step s (s.destroy c)

/-- The states of a server. -/
inductive Reachable : TcpServer ι → Prop
  | started : Reachable .started
  | step {s s' : TcpServer ι} (hs : Reachable s) (hstep : Step cfg backend s (.ok s')) :
      Reachable s'

end TcpServer

end Muduo

end FastCgi
