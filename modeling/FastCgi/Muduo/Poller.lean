import Mathlib.Logic.Function.Basic
import FastCgi.Connection

/-! # The channels and pollers of muduo

A `Channel` is a descriptor with the events that its owner waits for, and the poller of its loop
keeps the channels by descriptor. `EPollPoller` tells the kernel about them by `epoll_ctl`; the
index of a channel says how far: it is not known to the poller, it is registered, or it is known and
not registered.

A failed assertion ends the process, as does an operation that `epoll_ctl` refuses (`LOG_SYSFATAL`),
and the model has `Failure.abort` for both. -/

namespace FastCgi

namespace Muduo

/-- What ends the process: an assertion, or an exception of a callback. -/
inductive Failure
  | abort
  | exception (f : Fault)

/-- `assert`. -/
def assert (p : Prop) [Decidable p] : Except Failure Unit :=
  if p then .ok () else .error .abort

/-- An assertion passes where what it asserts holds. -/
theorem assert_ok {p : Prop} [Decidable p] (h : p) : assert p = .ok () := if_pos h

/-- What is asserted holds where the assertion does not fail. -/
theorem of_assert {p : Prop} [Decidable p] {u : Unit} (h : assert p = .ok u) : p := by
  by_contra hp
  rw [assert, if_neg hp] at h
  cases h

/-- What succeeds is followed by the rest. -/
theorem bind_of_ok {α β : Type} {r : Except Failure α} {a : α} (h : r = .ok a)
    (k : α → Except Failure β) : r >>= k = k a := by
  rw [h]
  rfl

/-- A computation that succeeds is made of two that do. -/
theorem exists_of_bind {α β : Type} {r : Except Failure α} {k : α → Except Failure β} {b : β}
    (h : r >>= k = .ok b) : ∃ a, r = .ok a ∧ k a = .ok b := by
  cases r with
  | ok a => exact ⟨a, rfl, h⟩
  | error f => cases h

/-- `r` is no failed assertion, and what it returns is as `P` says. -/
def Safe {α : Type} (r : Except Failure α) (P : α → Prop) : Prop :=
  match r with
  | .ok a => P a
  | .error .abort => False
  | .error (.exception _) => True

namespace Safe

variable {α β : Type} {r : Except Failure α} {P Q : α → Prop}

/-- A computation that returns is safe for what holds of its result. -/
theorem ok {a : α} (h : P a) : Safe (.ok a) P := h

/-- What is said of the result may be weakened. -/
theorem mono (hr : Safe r P) (h : ∀ a, P a → Q a) : Safe r Q := by
  cases r with
  | ok a => exact h a hr
  | error f =>
      cases f with
      | abort => exact hr
      | exception f => trivial

/-- Safety is composed: the rest is to be safe for each result that the first computation may
have. -/
theorem bind {k : α → Except Failure β} {R : β → Prop} (hr : Safe r P)
    (h : ∀ a, P a → Safe (k a) R) : Safe (r >>= k) R := by
  cases r with
  | ok a => exact h a hr
  | error f =>
      cases f with
      | abort => exact hr.elim
      | exception f => trivial

/-- A first computation whose result is known is left behind. -/
theorem ok_bind {a : α} {k : α → Except Failure β} {R : β → Prop} (hr : r = .ok a)
    (h : Safe (k a) R) : Safe (r >>= k) R := by
  rw [hr]
  exact h

/-- So is an assertion that holds. -/
theorem assert_bind {p : Prop} [Decidable p] {k : Unit → Except Failure β} {R : β → Prop} (hp : p)
    (h : Safe (k ()) R) : Safe (assert p >>= k) R :=
  ok_bind (assert_ok hp) h

/-- What is safe does not end the process by an assertion; an exception of a callback may. -/
theorem ne_abort (hr : Safe r P) : r ≠ .error .abort := by
  rintro rfl
  exact hr

/-- What is said of the result holds of the one that there is. -/
theorem of_ok {a : α} (hr : Safe r P) (h : r = .ok a) : P a := by
  rw [h] at hr
  exact hr

end Safe

/-! ## Channels -/

/-- `events_`: of `kReadEvent` and `kWriteEvent`, those that are set. -/
structure Events where
  reading : Bool
  writing : Bool
  deriving DecidableEq, Repr

/-- `kNoneEvent`. -/
def Events.none : Events := ⟨false, false⟩

/-- The data members of `Channel` that the pollers use. -/
structure Channel where
  fd : Nat
  events : Events
  index : Int
  addedToLoop : Bool
  deriving DecidableEq, Repr

namespace Channel

/-- A new channel. -/
def new (fd : Nat) : Channel := ⟨fd, .none, -1, false⟩

/-- `isNoneEvent`. -/
def isNoneEvent (ch : Channel) : Bool := ch.events == .none

end Channel

/-! ## `EPollPoller` -/

/-- The index of a channel that the poller does not know. -/
def kNew : Int := -1
/-- The index of a channel that is registered. -/
def kAdded : Int := 1
/-- The index of a channel that the poller knows, and that is not registered as it waits for
nothing. -/
def kDeleted : Int := 2

/-- The first argument of `update`. -/
inductive EpollOp
  | add
  | mod
  | del
  deriving DecidableEq, Repr

/-- An `EPollPoller`; `κ` are the addresses of its channels. -/
structure EPollPoller (κ : Type) where
  /-- `channels_`. -/
  channels : Nat → Option κ
  /-- What the kernel has registered for `epollfd_`, by descriptor: the members of `epoll_event`. -/
  registered : Nat → Option (Events × κ)

namespace EPollPoller

variable {κ : Type} [DecidableEq κ]

/-- A poller without channels, as its constructor leaves it. -/
def new : EPollPoller κ := ⟨fun _ => none, fun _ => none⟩

variable (p : EPollPoller κ) (c : κ) (ch : Channel)

/-- `update`: the kernel refuses to add a descriptor twice, and to modify one that it does not have;
a refused deletion is logged only. -/
def update (op : EpollOp) : Except Failure (EPollPoller κ) :=
  match op with
  | .add => do
    assert (p.registered ch.fd = none)
    return { p with registered := Function.update p.registered ch.fd (some (ch.events, c)) }
  | .mod => do
    assert (p.registered ch.fd ≠ none)
    return { p with registered := Function.update p.registered ch.fd (some (ch.events, c)) }
  | .del => return { p with registered := Function.update p.registered ch.fd none }

/-- `updateChannel`. -/
def updateChannel : Except Failure (EPollPoller κ × Channel) :=
  if ch.index = kNew ∨ ch.index = kDeleted then
    if ch.index = kNew then do
      assert (p.channels ch.fd = none)
      let p := { p with channels := Function.update p.channels ch.fd (some c) }
      let ch := { ch with index := kAdded }
      let p ← p.update c ch .add
      return (p, ch)
    else do
      assert (p.channels ch.fd = some c)
      let ch := { ch with index := kAdded }
      let p ← p.update c ch .add
      return (p, ch)
  else do
    assert (p.channels ch.fd = some c)
    assert (ch.index = kAdded)
    if ch.isNoneEvent then
      let p ← p.update c ch .del
      return (p, { ch with index := kDeleted })
    else
      let p ← p.update c ch .mod
      return (p, ch)

/-- `removeChannel`. -/
def removeChannel : Except Failure (EPollPoller κ × Channel) := do
  assert (p.channels ch.fd = some c)
  assert (ch.isNoneEvent = true)
  assert (ch.index = kAdded ∨ ch.index = kDeleted)
  let p' := { p with channels := Function.update p.channels ch.fd none }
  if ch.index = kAdded then
    let p' ← p'.update c ch .del
    return (p', { ch with index := kNew })
  else return (p', { ch with index := kNew })

/-! ### What the poller says about one channel -/

/-- The poller has the channel under a descriptor. -/
def knows (fd : Nat) : Bool := p.channels fd == some c

/-- The events that the kernel has registered for a descriptor of the channel. -/
def watches (fd : Nat) : Option Events :=
  (p.registered fd).bind fun event => if event.2 = c then some event.1 else none

variable {p c ch}

/-- What is known stands in `channels_`. -/
theorem channels_of_knows {fd : Nat} (h : p.knows c fd = true) : p.channels fd = some c := by
  simpa [knows] using h

/-- What is watched is registered, and the kernel reports it for this channel. -/
theorem registered_of_watches {fd : Nat} {events : Events} (h : p.watches c fd = some events) :
    p.registered fd = some (events, c) := by
  obtain ⟨⟨events', c'⟩, hregistered, hif⟩ := Option.bind_eq_some_iff.mp h
  by_cases hc : c' = c
  · subst hc
    obtain rfl : events' = events := by simpa using hif
    exact hregistered
  · rw [if_neg hc] at hif
    cases hif

section Results

variable (p : EPollPoller κ) (fd : Nat)

/-- What the kernel has after `fd` is registered, or no more. -/
def register (event : Option (Events × κ)) : EPollPoller κ :=
  { p with registered := Function.update p.registered fd event }

/-- What the poller knows after `fd` is added, or removed. -/
def keep (channel : Option κ) : EPollPoller κ :=
  { p with channels := Function.update p.channels fd channel }

/-- Registering does not change which channels are known. -/
@[simp] theorem knows_register (event : Option (Events × κ)) :
    (p.register fd event).knows c = p.knows c := rfl

/-- Keeping a channel, or forgetting it, does not change what is registered. -/
@[simp] theorem watches_keep (channel : Option κ) : (p.keep fd channel).watches c = p.watches c :=
  rfl

/-- The channel that is kept is known. -/
@[simp] theorem knows_keep_self :
    (p.keep fd (some c)).knows c = Function.update (p.knows c) fd true := by
  funext fd'
  by_cases h : fd' = fd
  · subst h
    simp [knows, keep]
  · simp [knows, keep, h]

/-- No other channel is known more or less for it, as long as it was not kept under that
descriptor. -/
theorem knows_keep {channel : Option κ} (hc : channel ≠ some c) (h : p.knows c fd = false) :
    (p.keep fd channel).knows c = p.knows c := by
  funext fd'
  by_cases hfd : fd' = fd
  · subst hfd
    rw [h]
    simp [knows, keep, hc]
  · simp [knows, keep, hfd]

/-- A descriptor that is forgotten is not known for any channel. -/
theorem knows_keep_none :
    (p.keep fd none).knows c = Function.update (p.knows c) fd false := by
  funext fd'
  by_cases h : fd' = fd
  · subst h
    simp [knows, keep]
  · simp [knows, keep, h]

/-- The channel that is registered is watched, for its events. -/
theorem watches_register_self (events : Events) :
    (p.register fd (some (events, c))).watches c =
      Function.update (p.watches c) fd (some events) := by
  funext fd'
  by_cases h : fd' = fd
  · subst h
    simp [watches, register]
  · simp [watches, register, h]

/-- A descriptor that is registered no more is watched for no channel. -/
theorem watches_register_none :
    (p.register fd none).watches c = Function.update (p.watches c) fd none := by
  funext fd'
  by_cases h : fd' = fd
  · subst h
    simp [watches, register]
  · simp [watches, register, h]

/-- This is nothing new to a channel that was not watched there. -/
theorem watches_register_none_of_ne (h : p.watches c fd = none) :
    (p.register fd none).watches c = p.watches c := by
  rw [watches_register_none, Function.update_eq_self_iff.mpr h.symm]

/-- Nor is the registration of another channel. -/
theorem watches_register {c' : κ} (hc : c' ≠ c) (h : p.watches c fd = none) (events : Events) :
    (p.register fd (some (events, c'))).watches c = p.watches c := by
  funext fd'
  by_cases hfd : fd' = fd
  · subst hfd
    rw [h]
    simp [watches, register, hc]
  · simp [watches, register, hfd]

end Results

/-- A new channel is added. -/
theorem updateChannel_new (hindex : ch.index = kNew) (hchannels : p.channels ch.fd = none)
    (hregistered : p.registered ch.fd = none) :
    p.updateChannel c ch = .ok
      ((p.keep ch.fd (some c)).register ch.fd (some (ch.events, c)),
        { ch with index := kAdded }) := by
  rw [updateChannel, if_pos (.inl hindex), if_pos hindex, assert_ok hchannels]
  simp only [bind, Except.bind, update]
  rw [assert_ok hregistered]
  rfl

/-- A registered channel changes its events. -/
theorem updateChannel_mod (hindex : ch.index = kAdded) (hchannels : p.channels ch.fd = some c)
    (hregistered : p.registered ch.fd ≠ none) (hevents : ch.isNoneEvent = false) :
    p.updateChannel c ch = .ok (p.register ch.fd (some (ch.events, c)), ch) := by
  have hne : ¬ (ch.index = kNew ∨ ch.index = kDeleted) := by rw [hindex]; decide
  rw [updateChannel, if_neg hne, assert_ok hchannels, assert_ok hindex]
  simp only [bind, Except.bind, hevents, Bool.false_eq_true, if_false, update]
  rw [assert_ok hregistered]
  rfl

/-- A registered channel waits for nothing more: it is kept, and the kernel forgets it. -/
theorem updateChannel_del (hindex : ch.index = kAdded) (hchannels : p.channels ch.fd = some c)
    (hevents : ch.isNoneEvent = true) :
    p.updateChannel c ch = .ok (p.register ch.fd none, { ch with index := kDeleted }) := by
  have hne : ¬ (ch.index = kNew ∨ ch.index = kDeleted) := by rw [hindex]; decide
  rw [updateChannel, if_neg hne, assert_ok hchannels, assert_ok hindex]
  simp only [bind, Except.bind, hevents, if_true, update]
  rfl

/-- A channel that the kernel does not have is forgotten. -/
theorem removeChannel_deleted (hindex : ch.index = kDeleted)
    (hchannels : p.channels ch.fd = some c) (hevents : ch.isNoneEvent = true) :
    p.removeChannel c ch = .ok (p.keep ch.fd none, { ch with index := kNew }) := by
  have hne : ch.index ≠ kAdded := by rw [hindex]; decide
  rw [removeChannel, assert_ok hchannels, assert_ok hevents, assert_ok (.inr hindex)]
  simp only [bind, Except.bind, hne, if_false]
  rfl

end EPollPoller

end Muduo

end FastCgi
