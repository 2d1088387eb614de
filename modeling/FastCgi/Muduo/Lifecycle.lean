import FastCgi.Muduo.Server

/-! # The life of a connection

`View` is what a state of the server says about one connection, and `Stage` how far the connection
is. In each stage exactly one thing keeps it going: it waits for a functor that is bound to it and
on its way, or for an event of its channel. `Alive` says so, and what `connections_`, the pollers
and the callbacks have seen of it by then. -/

namespace FastCgi

namespace Muduo

open Mucgi (StateE Event)

variable {ι : Type}

/-! ## Names -/

/-- The text behind the name of the server is not cut off. -/
theorem length_connName_le (cfg : Config ι) {c : Nat} (h : c < 2 ^ 31) :
    ('-' :: (cfg.ipPort ++ '#' :: Nat.toDigits 10 c)).length ≤ 63 := by
  have hdigits : (Nat.toDigits 10 c).length ≤ 10 :=
    (Nat.length_toDigits_le_iff (by decide) (by decide)).mpr (by omega)
  have hipPort := cfg.length_ipPort
  simp only [List.length_cons, List.length_append]
  omega

/-- The names of connections are different. -/
theorem connName_injective (cfg : Config ι) {c c' : Nat} (hc : c < 2 ^ 31) (hc' : c' < 2 ^ 31)
    (h : cfg.connName c = cfg.connName c') : c = c' := by
  unfold Config.connName at h
  rw [List.take_of_length_le (length_connName_le cfg hc),
    List.take_of_length_le (length_connName_le cfg hc')] at h
  have hdigits : Nat.toDigits 10 c = Nat.toDigits 10 c' := by simpa using h
  rw [← Nat.ofDigitChars_ten_toDigits (n := c), hdigits, Nat.ofDigitChars_ten_toDigits]

/-! ## Views -/

variable [DecidableEq ι]

/-- What is to be read into a state in the middle of a step: a functor that a thread has in hand,
and the channels that it has left while it handles one. -/
structure Ghost (ι : Type) where
  inHand : Option (ι × Functor)
  handling : Option (ι × List (Nat × Revents))

/-- Between steps. -/
def Ghost.none : Ghost ι := ⟨.none, .none⟩

/-- What a state says about one connection. -/
@[ext]
structure View (ι : Type) where
  conn : Option (Connection ι)
  /-- Its number has been used. -/
  created : Prop
  /-- The names under which it is listed. -/
  listed : List Char → Bool
  /-- How many functors of a loop are bound to it. -/
  functors : ι → Task → Nat
  /-- Where the pollers know it. -/
  known : ι → Nat → Bool
  /-- Where it is registered. -/
  registered : ι → Nat → Option Events
  /-- What it is still to be told. -/
  active : ι → List Revents
  callbacks : List Bool

namespace TcpServer

variable (s : TcpServer ι) (g : Ghost ι) (c : Nat)

/-- The phase of a loop, in the middle of a step. -/
def phase (ℓ : ι) : Phase :=
  match g.handling with
  | some (ℓ', activeChannels) =>
    if ℓ = ℓ' then .handling activeChannels else (s.loops ℓ).phase
  | none => (s.loops ℓ).phase

/-- The view of a connection. -/
def view : View ι where
  conn := s.conns c
  created := 0 < c ∧ c < s.nextConnId
  listed name := s.connections name == some c
  functors ℓ task :=
    ((s.phase g ℓ).functors ++ (s.loops ℓ).pendingFunctors).count ⟨task, c⟩ +
      if g.inHand = some (ℓ, ⟨task, c⟩) then 1 else 0
  known ℓ := (s.loops ℓ).poller.knows c
  registered ℓ := (s.loops ℓ).poller.watches c
  active ℓ := ((s.phase g ℓ).activeChannels.filter fun active => active.1 == c).map Prod.snd
  callbacks := (s.callbacks.filter fun callback => callback.1 == c).map Prod.snd

variable {s g c} {c' : Nat} {ℓ : ι}

theorem view_set_self (x : Option (Connection ι)) :
    (s.set c x).view g c = { s.view g c with conn := x } := by
  simp [view, set, phase]

theorem view_set_of_ne (h : c' ≠ c) (x : Option (Connection ι)) :
    (s.set c x).view g c' = s.view g c' := by
  simp [view, set, phase, h]

theorem view_connectionCallback_self (connected : Bool) :
    (s.connectionCallback c connected).view g c =
      { s.view g c with callbacks := (s.view g c).callbacks ++ [connected] } := by
  simp [view, connectionCallback, phase]

theorem view_connectionCallback_of_ne (h : c' ≠ c) (connected : Bool) :
    (s.connectionCallback c connected).view g c' = s.view g c' := by
  simp [view, connectionCallback, phase, Ne.symm h]

@[simp] theorem loops_setLoop_self (l : Loop) : (s.setLoop ℓ l).loops ℓ = l := by
  simp [setLoop]

theorem loops_setLoop_of_ne {ℓ' : ι} (h : ℓ' ≠ ℓ) (l : Loop) :
    (s.setLoop ℓ l).loops ℓ' = s.loops ℓ' := by
  simp [setLoop, h]

/-- What one loop is set to does not matter to a view as far as it agrees with what the loop was. -/
theorem setLoop_agrees {α : Type} {l : Loop} (k : Loop → α) (h : k l = k (s.loops ℓ)) (ℓ' : ι) :
    k ((s.setLoop ℓ l).loops ℓ') = k (s.loops ℓ') := by
  by_cases hℓ : ℓ' = ℓ
  · subst hℓ
    rw [loops_setLoop_self, h]
  · rw [loops_setLoop_of_ne hℓ]

theorem phase_setPoller (p : EPollPoller Nat) (ℓ' : ι) :
    (s.setPoller ℓ p).phase g ℓ' = s.phase g ℓ' := by
  have h : ((s.setPoller ℓ p).loops ℓ').phase = (s.loops ℓ').phase :=
    setLoop_agrees Loop.phase (by rfl) ℓ'
  unfold phase
  rw [h]

/-- A view after a poller has changed. -/
theorem view_setPoller (p : EPollPoller Nat) :
    (s.setPoller ℓ p).view g c = { s.view g c with
      known := Function.update (s.view g c).known ℓ (p.knows c)
      registered := Function.update (s.view g c).registered ℓ (p.watches c) } := by
  have hpending : ∀ ℓ', ((s.setPoller ℓ p).loops ℓ').pendingFunctors =
      (s.loops ℓ').pendingFunctors := setLoop_agrees Loop.pendingFunctors rfl
  unfold view
  simp only [phase_setPoller, hpending]
  congr 1
  · funext ℓ'
    by_cases hℓ : ℓ' = ℓ
    · subst hℓ
      simp [setPoller]
    · simp [setPoller, loops_setLoop_of_ne, hℓ]
  · funext ℓ'
    by_cases hℓ : ℓ' = ℓ
    · subst hℓ
      simp [setPoller]
    · simp [setPoller, loops_setLoop_of_ne, hℓ]

/-- A poller that says the same about a connection. -/
theorem view_setPoller_of_eq {p : EPollPoller Nat}
    (hknown : p.knows c = (s.loops ℓ).poller.knows c)
    (hregistered : p.watches c = (s.loops ℓ).poller.watches c) :
    (s.setPoller ℓ p).view g c = s.view g c := by
  rw [view_setPoller, hknown, hregistered]
  ext <;> simp [view]

/-- The functors of a loop that are bound to a connection, with the one in hand. -/
def bound (s : TcpServer ι) (g : Ghost ι) (ℓ : ι) (f : Functor) : Nat :=
  ((s.phase g ℓ).functors ++ (s.loops ℓ).pendingFunctors).count f +
    if g.inHand = some (ℓ, f) then 1 else 0

/-- A thread may pass functors on: only where they are bound and what is active matters. -/
theorem view_setLoop {g' : Ghost ι} {l : Loop} (hpoller : l.poller = (s.loops ℓ).poller)
    (hbound : ∀ ℓ' f, (s.setLoop ℓ l).bound g' ℓ' f = s.bound g ℓ' f)
    (hactive : ∀ ℓ', ((s.setLoop ℓ l).phase g' ℓ').activeChannels =
      (s.phase g ℓ').activeChannels) :
    (s.setLoop ℓ l).view g' c = s.view g c := by
  have hpollers : ∀ ℓ', ((s.setLoop ℓ l).loops ℓ').poller = (s.loops ℓ').poller :=
    setLoop_agrees Loop.poller hpoller
  unfold view
  simp only [hpollers, hactive]
  congr 1
  funext ℓ' task
  exact hbound ℓ' ⟨task, c⟩

/-- What `poll` has returned does not matter, but what is left of it. -/
theorem view_setActiveChannels (activeChannels : List Nat) :
    (s.setActiveChannels ℓ activeChannels).view g c = s.view g c := by
  have hphase : ∀ ℓ', (s.setActiveChannels ℓ activeChannels).phase g ℓ' = s.phase g ℓ' := by
    intro ℓ'
    have h : ((s.setActiveChannels ℓ activeChannels).loops ℓ').phase = (s.loops ℓ').phase :=
      setLoop_agrees Loop.phase (by rfl) ℓ'
    unfold phase
    rw [h]
  have hpending : ∀ ℓ', ((s.setActiveChannels ℓ activeChannels).loops ℓ').pendingFunctors =
      (s.loops ℓ').pendingFunctors := setLoop_agrees Loop.pendingFunctors rfl
  refine view_setLoop rfl (fun ℓ' f => ?_) (fun ℓ' => congrArg _ (hphase ℓ'))
  unfold bound
  rw [show (s.setLoop ℓ _).phase g ℓ' = _ from hphase ℓ',
    show ((s.setLoop ℓ _).loops ℓ').pendingFunctors = _ from hpending ℓ']

/-- A functor in hand is queued. -/
theorem view_queueInLoop (f : Functor) :
    (s.queueInLoop ℓ f).view { g with inHand := none } c =
      s.view { g with inHand := some (ℓ, f) } c := by
  have hphase : ∀ ℓ', (s.queueInLoop ℓ f).phase { g with inHand := none } ℓ' =
      s.phase { g with inHand := some (ℓ, f) } ℓ' := by
    intro ℓ'
    have h : ((s.queueInLoop ℓ f).loops ℓ').phase = (s.loops ℓ').phase :=
      setLoop_agrees Loop.phase (by rfl) ℓ'
    unfold phase
    rw [h]
  refine view_setLoop rfl (fun ℓ' f' => ?_) (fun ℓ' => congrArg _ (hphase ℓ'))
  unfold bound
  rw [show (s.setLoop ℓ _).phase _ ℓ' = _ from hphase ℓ']
  by_cases hℓ : ℓ' = ℓ
  · subst hℓ
    by_cases hf : f = f'
    · simp [hf]
      omega
    · simp [hf]
  · simp [loops_setLoop_of_ne hℓ, Ne.symm hℓ]

/-- A thread takes the next functor in hand. -/
theorem view_take {f : Functor} {functors : List Functor}
    (h : (s.loops ℓ).phase = .calling (f :: functors)) :
    (s.setPhase ℓ (.calling functors)).view ⟨some (ℓ, f), none⟩ c = s.view .none c := by
  refine view_setLoop rfl (fun ℓ' f' => ?_) (fun ℓ' => ?_)
  · by_cases hℓ : ℓ' = ℓ
    · subst hℓ
      by_cases hf : f = f'
      · simp [bound, phase, Ghost.none, Phase.functors, h, hf]
      · simp [bound, phase, Ghost.none, Phase.functors, h, hf]
    · simp [bound, phase, Ghost.none, loops_setLoop_of_ne hℓ, Ne.symm hℓ]
  · by_cases hℓ : ℓ' = ℓ
    · subst hℓ
      simp [phase, Ghost.none, Phase.activeChannels, h]
    · simp [phase, Ghost.none, loops_setLoop_of_ne hℓ]

/-- A thread takes the functors over that were queued for it. -/
theorem view_doPendingFunctors (h : (s.loops ℓ).phase = .handling []) :
    (s.doPendingFunctors ℓ).view .none c = s.view .none c := by
  refine view_setLoop rfl (fun ℓ' f' => ?_) (fun ℓ' => ?_)
  · by_cases hℓ : ℓ' = ℓ
    · subst hℓ
      simp [bound, phase, Ghost.none, Phase.functors, h]
    · simp [bound, phase, Ghost.none, loops_setLoop_of_ne hℓ]
  · by_cases hℓ : ℓ' = ℓ
    · subst hℓ
      simp [phase, Ghost.none, Phase.activeChannels, h]
    · simp [phase, Ghost.none, loops_setLoop_of_ne hℓ]

/-- A thread goes back to polling. -/
theorem view_loop (h : (s.loops ℓ).phase = .calling []) :
    (s.setPhase ℓ .polling).view .none c = s.view .none c := by
  refine view_setLoop rfl (fun ℓ' f' => ?_) (fun ℓ' => ?_)
  · by_cases hℓ : ℓ' = ℓ
    · subst hℓ
      simp [bound, phase, Ghost.none, Phase.functors, h]
    · simp [bound, phase, Ghost.none, loops_setLoop_of_ne hℓ]
  · by_cases hℓ : ℓ' = ℓ
    · subst hℓ
      simp [phase, Ghost.none, Phase.activeChannels, h]
    · simp [phase, Ghost.none, loops_setLoop_of_ne hℓ]

/-- A thread has handled a channel. -/
theorem view_handled (activeChannels : List (Nat × Revents)) :
    (s.setPhase ℓ (.handling activeChannels)).view .none c =
      s.view ⟨none, some (ℓ, activeChannels)⟩ c := by
  refine view_setLoop rfl (fun ℓ' f' => ?_) (fun ℓ' => ?_)
  · by_cases hℓ : ℓ' = ℓ
    · subst hℓ
      simp [bound, phase, Ghost.none]
    · simp [bound, phase, Ghost.none, loops_setLoop_of_ne hℓ, hℓ]
  · by_cases hℓ : ℓ' = ℓ
    · subst hℓ
      simp [phase, Ghost.none]
    · simp [phase, Ghost.none, loops_setLoop_of_ne hℓ, hℓ]

/-- A thread that has no functors left is given channels to handle, or leaves one of them aside. -/
theorem view_handling {activeChannels : List (Nat × Revents)}
    (h : (s.loops ℓ).phase.functors = []) :
    s.view ⟨none, some (ℓ, activeChannels)⟩ c = { s.view .none c with
      active := Function.update (s.view .none c).active ℓ
        ((activeChannels.filter fun active => active.1 == c).map Prod.snd) } := by
  unfold view
  congr 1
  · funext ℓ' task
    by_cases hℓ : ℓ' = ℓ
    · subst hℓ
      have hnone : (s.phase .none ℓ').functors = [] := h
      simp only [hnone]
      simp [phase, Ghost.none, Phase.functors]
    · simp [phase, Ghost.none, hℓ]
  · funext ℓ'
    by_cases hℓ : ℓ' = ℓ
    · subst hℓ
      simp [phase, Phase.activeChannels]
    · simp [phase, Ghost.none, hℓ]

end TcpServer

/-! ## Stages -/

/-- How far a connection is. -/
inductive Stage
  /-- `connectEstablished` is on its way. -/
  | connecting
  /-- The connection is established. -/
  | up
  /-- It is closed, and `removeConnectionInLoop` is on its way. -/
  | closed
  /-- It is no longer listed, and `connectDestroyed` is on its way. -/
  | removed
  /-- The last reference is about to be dropped. -/
  | gone
  deriving DecidableEq, Repr

namespace Stage

/-- It is listed in `connections_`. -/
def listed : Stage → Bool
  | connecting | up | closed => true
  | removed | gone => false

/-- The poller of its loop knows it. -/
def known : Stage → Bool
  | up | closed | removed => true
  | connecting | gone => false

/-- The index of its channel. -/
def index : Stage → Int
  | connecting | gone => kNew
  | up => kAdded
  | closed | removed => kDeleted

/-- The functor that is on its way. -/
def task : Stage → Option Task
  | connecting => some .connectEstablished
  | closed => some .removeConnectionInLoop
  | removed => some .connectDestroyed
  | up | gone => none

/-- What the connection callback was told. -/
def callbacks : Stage → List Bool
  | connecting => []
  | up => [true]
  | closed | removed | gone => [true, false]

/-- The values that `state_` may have. -/
def Admits : Stage → StateE → Prop
  | connecting, state => state = .connecting
  | up, state => state = .connected ∨ state = .disconnecting
  | _, state => state = .disconnected

end Stage

/-- The loop in which a functor is to be called. -/
def Config.loopOf (cfg : Config ι) (x : Connection ι) : Task → ι
  | .removeConnectionInLoop => cfg.loop
  | _ => x.loop

/-- The loop that a connection is given to: the loops of the pool take turns. -/
def Config.assigned (cfg : Config ι) (c : Nat) : ι :=
  cfg.loops.getD ((c - 1) % cfg.loops.length) cfg.loop

section Invariant

variable (cfg : Config ι) (backend : Backend) (c : Nat)

/-- The connection itself agrees with its stage. -/
structure Fits (x : Connection ι) (stage : Stage) : Prop where
  state : stage.Admits x.self.state
  events : x.channel.events = ⟨x.self.reading, x.self.writing⟩
  index : x.channel.index = stage.index
  added : x.channel.addedToLoop = stage.known
  reading : x.self.reading = decide (stage = .up)
  writing : stage ≠ .up → x.self.writing = false
  start : stage = .connecting → x.self = connecting ∧ x.events = []
  history : stage ≠ .connecting →
    (Mucgi.TcpConnection.run backend .established x.events).2 = .ok x.self
  loop : x.loop = cfg.assigned c

/-- What the server sees of a connection in a stage. -/
structure Alive (x : Connection ι) (stage : Stage) (v : View ι) : Prop where
  fits : Fits cfg backend c x stage
  conn : v.conn = some x
  created : v.created
  listed : ∀ name, v.listed name = (stage.listed && name == cfg.connName c)
  functors : ∀ ℓ task, v.functors ℓ task =
    if stage.task = some task ∧ ℓ = cfg.loopOf x task then 1 else 0
  known : ∀ ℓ fd, v.known ℓ fd = (stage.known && ℓ == x.loop && fd == x.channel.fd)
  registered : ∀ ℓ fd, v.registered ℓ fd =
    if stage = .up ∧ ℓ = x.loop ∧ fd = x.channel.fd then some x.channel.events else none
  active : ∀ ℓ, v.active ℓ ≠ [] → stage = .up ∧ ℓ = x.loop ∧ (v.active ℓ).length = 1 ∧
    ∀ revents ∈ v.active ℓ,
      revents.pollhup = true → revents.pollin = false → revents.pollpri = false
  callbacks : v.callbacks = stage.callbacks

/-- There is nothing of a connection. -/
structure Absent (v : View ι) : Prop where
  conn : v.conn = none
  listed : ∀ name, v.listed name = false
  functors : ∀ ℓ task, v.functors ℓ task = 0
  known : ∀ ℓ fd, v.known ℓ fd = false
  registered : ∀ ℓ fd, v.registered ℓ fd = none
  active : ∀ ℓ, v.active ℓ = []

/-- The connection is not there yet, or is in a stage, or has been destroyed. -/
def Good (v : View ι) : Prop :=
  (Absent v ∧ ¬ v.created ∧ v.callbacks = []) ∨
  (∃ x stage, Alive cfg backend c x stage v) ∨
  (Absent v ∧ v.created ∧ v.callbacks = [true, false])

end Invariant

/-- A table that has at most one entry, and is changed there. -/
theorem update_only {α : Type} {k : ι → Nat → α} {ℓ₀ : ι} {fd₀ : Nat} {none : α}
    (h : ∀ ℓ fd, ¬ (ℓ = ℓ₀ ∧ fd = fd₀) → k ℓ fd = none) (entry : α) (ℓ : ι) (fd : Nat) :
    Function.update k ℓ₀ (Function.update (k ℓ₀) fd₀ entry) ℓ fd =
      if ℓ = ℓ₀ ∧ fd = fd₀ then entry else none := by
  by_cases hℓ : ℓ = ℓ₀
  · subst hℓ
    by_cases hfd : fd = fd₀
    · simp [hfd]
    · simpa [hfd] using h ℓ fd (by simp [hfd])
  · simpa [hℓ] using h ℓ fd (by simp [hℓ])

section

variable {cfg : Config ι} {backend : Backend} {c : Nat} {x : Connection ι} {stage : Stage}
  {v : View ι}

theorem Alive.known_update (ha : Alive cfg backend c x stage v) (known : Bool) (ℓ : ι) (fd : Nat) :
    Function.update v.known x.loop (Function.update (v.known x.loop) x.channel.fd known) ℓ fd =
      (known && ℓ == x.loop && fd == x.channel.fd) := by
  have honly : ∀ ℓ fd, ¬ (ℓ = x.loop ∧ fd = x.channel.fd) → v.known ℓ fd = false := by
    intro ℓ fd h
    rw [ha.known]
    by_cases hℓ : ℓ = x.loop
    · simp [show fd ≠ x.channel.fd from fun hfd => h ⟨hℓ, hfd⟩]
    · simp [hℓ]
  rw [update_only honly]
  by_cases hℓ : ℓ = x.loop <;> by_cases hfd : fd = x.channel.fd <;> simp [hℓ, hfd]

theorem Alive.registered_update (ha : Alive cfg backend c x stage v) (events : Option Events)
    (ℓ : ι) (fd : Nat) :
    Function.update v.registered x.loop
        (Function.update (v.registered x.loop) x.channel.fd events) ℓ fd =
      if ℓ = x.loop ∧ fd = x.channel.fd then events else none := by
  refine update_only (fun ℓ fd h => ?_) events ℓ fd
  rw [ha.registered, if_neg fun h' => h h'.2]

end

namespace TcpServer

/-- The **invariant**: all connections are in a stage, and no two have a descriptor in common. -/
structure Inv (cfg : Config ι) (backend : Backend) (g : Ghost ι) (s : TcpServer ι) : Prop where
  good : ∀ c, Good cfg backend c (s.view g c)
  fds : ∀ c c' x x', s.conns c = some x → s.conns c' = some x' →
    x.channel.fd = x'.channel.fd → c = c'
  counter : 0 < s.nextConnId ∧ s.nextConnId < 2 ^ 31
  next : cfg.loops ≠ [] → s.next = (s.nextConnId - 1) % cfg.loops.length

variable {cfg : Config ι} {backend : Backend} {g : Ghost ι} {s : TcpServer ι} {c : Nat}
  {x : Connection ι}

theorem inv_started : Inv cfg backend .none .started where
  good c := by
    refine .inl ⟨⟨rfl, fun _ => rfl, fun ℓ task => ?_, fun _ _ => rfl, fun _ _ => rfl,
      fun ℓ => rfl⟩, ?_, rfl⟩
    · simp [view, phase, started, Ghost.none, Phase.functors]
    · simp only [view, started]
      omega
  fds c c' x x' hx := by cases hx
  counter := by simp [started]
  next _ := (Nat.zero_mod _).symm

namespace Inv

/-- A connection that is not destroyed is in a stage. -/
theorem alive (hi : Inv cfg backend g s) (hx : s.conns c = some x) :
    ∃ stage, Alive cfg backend c x stage (s.view g c) := by
  rcases hi.good c with ⟨h, -⟩ | ⟨x', stage, h⟩ | ⟨h, -⟩
  · exact absurd (h.conn.symm.trans hx) (by simp)
  · obtain rfl : x' = x := Option.some.inj (h.conn.symm.trans hx)
    exact ⟨stage, h⟩
  · exact absurd (h.conn.symm.trans hx) (by simp)

/-- No other connection has the descriptor of this one, in any loop. -/
theorem elsewhere (hi : Inv cfg backend g s) (hx : s.conns c = some x) {c' : Nat} (hc : c' ≠ c)
    (ℓ : ι) : (s.loops ℓ).poller.knows c' x.channel.fd = false ∧
      (s.loops ℓ).poller.watches c' x.channel.fd = none := by
  have hfree : ∀ v : View ι, v = s.view g c' →
      v.known ℓ x.channel.fd = false ∧ v.registered ℓ x.channel.fd = none := by
    rintro v rfl
    rcases hi.good c' with ⟨h, -⟩ | ⟨x', stage, h⟩ | ⟨h, -⟩
    · exact ⟨h.known _ _, h.registered _ _⟩
    · have hfd : x.channel.fd ≠ x'.channel.fd :=
        fun hfd => hc (hi.fds _ _ _ _ h.conn hx hfd.symm)
      exact ⟨by simp [h.known, hfd], by simp [h.registered, hfd]⟩
    · exact ⟨h.known _ _, h.registered _ _⟩
  exact hfree _ rfl

/-- Only the views and the descriptors matter. -/
theorem congr {s' : TcpServer ι} {g' : Ghost ι} (hi : Inv cfg backend g s)
    (hview : ∀ c, s'.view g' c = s.view g c) (hnext : s'.next = s.next)
    (hnextConnId : s'.nextConnId = s.nextConnId) : Inv cfg backend g' s' where
  good c := by
    rw [hview]
    exact hi.good c
  fds c c' x x' hx hx' := by
    have hconns : ∀ c, s'.conns c = s.conns c := fun c => congrArg View.conn (hview c)
    rw [hconns] at hx hx'
    exact hi.fds c c' x x' hx hx'
  counter := by
    rw [hnextConnId]
    exact hi.counter
  next := by
    rw [hnext, hnextConnId]
    exact hi.next

/-- A step that touches one connection. -/
theorem of_touched {s' : TcpServer ι} {g' : Ghost ι} (hi : Inv cfg backend g s)
    (hx : s.conns c = some x) (hothers : ∀ c', c' ≠ c → s'.view g' c' = s.view g c')
    (hgood : Good cfg backend c (s'.view g' c))
    (hfd : ∀ x', s'.conns c = some x' → x'.channel.fd = x.channel.fd)
    (hnext : s'.next = s.next) (hnextConnId : s'.nextConnId = s.nextConnId) :
    Inv cfg backend g' s' where
  good c' := by
    by_cases hc : c' = c
    · exact hc ▸ hgood
    · rw [hothers c' hc]
      exact hi.good c'
  fds c₁ c₂ x₁ x₂ hx₁ hx₂ heq := by
    -- the connection `c` may have changed, but has kept its descriptor; the others are as before
    have hconns : ∀ c', c' ≠ c → s'.conns c' = s.conns c' :=
      fun c' hc => congrArg View.conn (hothers c' hc)
    by_cases hc₁ : c₁ = c <;> by_cases hc₂ : c₂ = c
    · rw [hc₁, hc₂]
    · subst hc₁
      rw [hconns c₂ hc₂] at hx₂
      exact hi.fds _ _ _ _ hx hx₂ ((hfd x₁ hx₁).symm.trans heq)
    · subst hc₂
      rw [hconns c₁ hc₁] at hx₁
      exact hi.fds _ _ _ _ hx₁ hx (heq.trans (hfd x₂ hx₂))
    · rw [hconns c₁ hc₁] at hx₁
      rw [hconns c₂ hc₂] at hx₂
      exact hi.fds _ _ _ _ hx₁ hx₂ heq
  counter := by
    rw [hnextConnId]
    exact hi.counter
  next := by
    rw [hnext, hnextConnId]
    exact hi.next

end Inv

end TcpServer

end Muduo

end FastCgi
