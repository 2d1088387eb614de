import Mathlib.Data.List.Infix
import Mathlib.Logic.Relation

/-! # The event loops of muduo

The thread of an `EventLoop` waits in `poll`, handles the events of its channels, and then calls the
functors that were queued for it. Other threads hand functors to it by `queueInLoop`: they append to
`pendingFunctors_` under the lock, and write to the descriptor `wakeupFd_` if the thread could
otherwise sleep over it.

`Step` interleaves the loop thread with any number of other threads, one access to what they share
at a time. `functors_in_order` says that all functors are called once and in the order in which they
were queued, `iteration_calls_all` that none waits for longer than the iteration that takes it over,
and `no_lost_wakeup` that the thread never sleeps while a functor or `quit` is waiting for it. The
one exception are the functors that it queues itself while it is outside of `loop()`, as in the
callback of an `EventLoopThread`: nothing is written to `wakeupFd_` for these. -/

namespace FastCgi

namespace Muduo

/-- Where the thread of a loop is. -/
inductive LoopPc (φ : Type)
  /-- Before `loop()`. -/
  | idle
  /-- At `while (!quit_)`. -/
  | check
  /-- In `poller_->poll`. -/
  | polling
  /-- In the loop over the active channels; `true` if that of `wakeupFd_` is still to be handled. -/
  | handling (wakeup : Bool)
  /-- In `doPendingFunctors`, before the swap. -/
  | swapping
  /-- In the loop over the functors that were taken over, of which these are left. -/
  | calling (functors : List φ)
  /-- In the same place, in `queueInLoop` behind the lock. -/
  | waking (functors : List φ)
  /-- Behind `loop()`. -/
  | stopped
  deriving DecidableEq, Repr

/-- The thread runs other code than `loop()`. -/
def LoopPc.Outside {φ : Type} : LoopPc φ → Prop
  | .idle | .stopped => True
  | _ => False

/-- The thread is on its way to `pendingFunctors_`, and will take over what is in it. -/
def LoopPc.Collecting {φ : Type} : LoopPc φ → Prop
  | .handling _ | .swapping => True
  | _ => False

/-- An `EventLoop`, with what has happened to its functors. -/
structure EventLoop (φ : Type) where
  quit : Bool
  pendingFunctors : List φ
  /-- The counter of `wakeupFd_`. -/
  wakeupFd : Nat
  pc : LoopPc φ
  /-- How many other threads are in `queueInLoop` or `quit`, before `wakeup`. -/
  wakers : Nat
  /-- The functors that were queued. -/
  queued : List φ
  /-- The functors that were called. -/
  called : List φ
  /-- How many of `pendingFunctors_` the loop thread has queued outside of `loop()`. -/
  early : Nat
  deriving DecidableEq, Repr

namespace EventLoop

variable {φ : Type}

/-- A new loop. -/
def new : EventLoop φ := ⟨false, [], 0, .idle, 0, [], [], 0⟩

variable (l : EventLoop φ)

/-- What `queueInLoop` does under the lock. -/
def push (cb : φ) : EventLoop φ :=
  { l with pendingFunctors := l.pendingFunctors ++ [cb], queued := l.queued ++ [cb] }

@[simp] theorem push_pc (cb : φ) : (l.push cb).pc = l.pc := rfl

@[simp] theorem push_called (cb : φ) : (l.push cb).called = l.called := rfl

/-- `wakeup`. -/
def wakeup : EventLoop φ := { l with wakeupFd := l.wakeupFd + 1 }

@[simp] theorem wakeup_called : l.wakeup.called = l.called := rfl

/-- The functors that were taken over and are not called yet. -/
def current : List φ :=
  match l.pc with
  | .calling functors => functors
  | .waking functors => functors
  | _ => []

end EventLoop

open EventLoop

/-- The **steps** of a loop and of the threads that use it. The handlers and functors that the loop
thread calls may queue functors and call `quit` themselves, and so may the thread before and after
`loop()`. -/
inductive Step {φ : Type} : EventLoop φ → EventLoop φ → Prop
  /-- Another thread queues a functor. -/
  | queueInLoop {l : EventLoop φ} (cb : φ) : Step l { l.push cb with wakers := l.wakers + 1 }
  /-- Another thread calls `quit`. -/
  | quit {l : EventLoop φ} : Step l { l with quit := true, wakers := l.wakers + 1 }
  /-- Another thread calls `wakeup`. -/
  | wakeup {l : EventLoop φ} (h : 0 < l.wakers) : Step l { l.wakeup with wakers := l.wakers - 1 }
  /-- The loop thread queues a functor while it is not in `loop()`: it is its own thread and calls
  no functors, so that there is no `wakeup`. -/
  | ownQueues {l : EventLoop φ} (h : l.pc.Outside) (cb : φ) :
      Step l { l.push cb with early := l.early + 1 }
  /-- It calls `quit` there. -/
  | ownQuits {l : EventLoop φ} (h : l.pc.Outside) : Step l { l with quit := true }
  /-- `loop()`, which may be called again when it has returned. -/
  | loop {l : EventLoop φ} (h : l.pc.Outside) : Step l { l with pc := .check, quit := false }
  /-- `while (!quit_)`. -/
  | check {l : EventLoop φ} (h : l.pc = .check) :
      Step l { l with pc := if l.quit then .stopped else .polling }
  /-- `poll` returns, for any reason; it may report `wakeupFd_` if that can be read. -/
  | poll {l : EventLoop φ} (h : l.pc = .polling) (active : Bool)
      (hactive : active = true → 0 < l.wakeupFd) : Step l { l with pc := .handling active }
  /-- A handler queues a functor: the thread is going to call it in this iteration. -/
  | handlerQueues {l : EventLoop φ} {active : Bool} (h : l.pc = .handling active) (cb : φ) :
      Step l (l.push cb)
  /-- A handler calls `quit`. -/
  | handlerQuits {l : EventLoop φ} {active : Bool} (h : l.pc = .handling active) :
      Step l { l with quit := true }
  /-- `handleRead`. -/
  | handleRead {l : EventLoop φ} (h : l.pc = .handling true) :
      Step l { l with pc := .handling false, wakeupFd := 0 }
  /-- `doPendingFunctors` sets `callingPendingFunctors_`. -/
  | doPendingFunctors {l : EventLoop φ} (h : l.pc = .handling false) :
      Step l { l with pc := .swapping }
  /-- `functors.swap(pendingFunctors_)`. -/
  | swap {l : EventLoop φ} (h : l.pc = .swapping) :
      Step l { l with pc := .calling l.pendingFunctors, pendingFunctors := [], early := 0 }
  /-- A functor queues another: the thread is going to poll before it is called. -/
  | functorQueues {l : EventLoop φ} {cb : φ} {functors : List φ}
      (h : l.pc = .calling (cb :: functors)) (cb' : φ) :
      Step l { l.push cb' with pc := .waking (cb :: functors) }
  /-- It calls `wakeup`. -/
  | functorWakes {l : EventLoop φ} {functors : List φ} (h : l.pc = .waking functors) :
      Step l { l.wakeup with pc := .calling functors }
  /-- A functor calls `quit`. -/
  | functorQuits {l : EventLoop φ} {cb : φ} {functors : List φ}
      (h : l.pc = .calling (cb :: functors)) : Step l { l with quit := true }
  /-- A functor returns. -/
  | call {l : EventLoop φ} {cb : φ} {functors : List φ} (h : l.pc = .calling (cb :: functors)) :
      Step l { l with pc := .calling functors, called := l.called ++ [cb] }
  /-- `doPendingFunctors` returns. -/
  | done {l : EventLoop φ} (h : l.pc = .calling []) : Step l { l with pc := .check }

/-- The states of a loop. -/
def Reachable {φ : Type} (l : EventLoop φ) : Prop := Relation.ReflTransGen Step .new l

namespace EventLoop

variable {φ : Type} {l l' : EventLoop φ}

/-- Outside of `loop()` nothing has been taken over. -/
theorem current_of_outside (h : l.pc.Outside) : l.current = [] := by
  unfold current
  cases hpc : l.pc <;> simp_all [LoopPc.Outside]

/-- Outside of `loop()` the thread is not between `poll` and the swap. -/
theorem not_collecting_of_outside (h : l.pc.Outside) : ¬ l.pc.Collecting := by
  cases hpc : l.pc <;> simp_all [LoopPc.Outside, LoopPc.Collecting]

/-- Outside of `loop()` the thread calls no functor that could have queued another one. -/
theorem not_waking_of_outside (h : l.pc.Outside) (functors : List φ) :
    l.pc ≠ .waking functors := by
  intro hpc
  simp [hpc, LoopPc.Outside] at h

/-- Outside of `loop()` the thread does not poll. -/
theorem not_polling_of_outside (h : l.pc.Outside) : l.pc ≠ .polling := by
  intro hpc
  simp [hpc, LoopPc.Outside] at h

/-! ## Order -/

/-- All functors that were queued have been called, or will be in this order. -/
def InOrder (l : EventLoop φ) : Prop := l.queued = l.called ++ l.current ++ l.pendingFunctors

/-- A functor that is queued comes behind all others. -/
theorem InOrder.push (hi : l.InOrder) (cb : φ) : (l.push cb).InOrder := by
  unfold InOrder at hi ⊢
  show l.queued ++ [cb] = l.called ++ l.current ++ (l.pendingFunctors ++ [cb])
  rw [hi, List.append_assoc]

/-- A step that touches none of the functors. -/
theorem InOrder.congr (hi : l.InOrder) (hqueued : l'.queued = l.queued)
    (hcalled : l'.called = l.called) (hcurrent : l'.current = l.current)
    (hpending : l'.pendingFunctors = l.pendingFunctors) : l'.InOrder := by
  unfold InOrder at hi ⊢
  rw [hqueued, hcalled, hcurrent, hpending, hi]

/-- **Each step keeps the functors in order**. -/
theorem InOrder.step (hi : l.InOrder) (hstep : Step l l') : l'.InOrder := by
  cases hstep with
  | queueInLoop cb => exact (hi.push cb).congr rfl rfl rfl rfl
  | quit => exact hi.congr rfl rfl rfl rfl
  | wakeup h => exact hi.congr rfl rfl rfl rfl
  | ownQueues h cb => exact (hi.push cb).congr rfl rfl rfl rfl
  | ownQuits h => exact hi.congr rfl rfl rfl rfl
  | loop h => exact hi.congr rfl rfl (by rw [current_of_outside h]; rfl) rfl
  | check h =>
      refine hi.congr rfl rfl ?_ rfl
      cases l.quit <;> simp [current, h]
  | poll h active hactive => exact hi.congr rfl rfl (by simp [current, h]) rfl
  | handlerQueues h cb => exact hi.push cb
  | handlerQuits h => exact hi.congr rfl rfl rfl rfl
  | handleRead h => exact hi.congr rfl rfl (by simp [current, h]) rfl
  | doPendingFunctors h => exact hi.congr rfl rfl (by simp [current, h]) rfl
  | swap h => simpa [InOrder, current, h] using hi
  | functorQueues h cb' => exact (hi.push cb').congr rfl rfl (by simp [current, h]) rfl
  | functorWakes h => exact hi.congr rfl rfl (by simp [current, h]) rfl
  | functorQuits h => exact hi.congr rfl rfl rfl rfl
  | call h => simpa [InOrder, current, h] using hi
  | done h => exact hi.congr rfl rfl (by simp [current, h]) rfl

/-! ## Wake-ups -/

/-- The descriptor can be read, or is about to be written by another thread. -/
def Alarmed (l : EventLoop φ) : Prop := 0 < l.wakeupFd ∨ 0 < l.wakers

/-- What keeps the loop thread from sleeping: while it is not on its way to `pendingFunctors_`, and
has not just put something there itself, it is alarmed if something is there that it has not queued
outside of `loop()`; and while it polls, it is alarmed if it is to quit. -/
structure Alert (l : EventLoop φ) : Prop where
  functors : l.early < l.pendingFunctors.length →
    l.pc.Collecting ∨ (∃ functors, l.pc = .waking functors) ∨ l.Alarmed
  quit : l.pc = .polling → l.quit = true → l.Alarmed

/-- An alarm is enough, whatever the thread does. -/
theorem alert_of_alarmed (h : l.Alarmed) : l.Alert := ⟨fun _ => .inr (.inr h), fun _ _ => h⟩

/-- The thread is alarmed where it neither collects nor wakes itself. -/
theorem Alert.alarmed (ha : l.Alert) (hp : l.early < l.pendingFunctors.length)
    (hpc : ¬ l.pc.Collecting) (hwaking : ∀ functors, l.pc ≠ .waking functors) : l.Alarmed := by
  rcases ha.functors hp with hc | ⟨functors, hc⟩ | hc
  · exact absurd hc hpc
  · exact absurd hc (hwaking functors)
  · exact hc

/-- **Each step keeps the loop thread alert**. -/
theorem Alert.step (ha : l.Alert) (hstep : Step l l') : l'.Alert := by
  cases hstep with
  | queueInLoop cb => exact alert_of_alarmed (.inr (Nat.succ_pos _))
  | quit => exact alert_of_alarmed (.inr (Nat.succ_pos _))
  | wakeup h => exact alert_of_alarmed (.inl (Nat.succ_pos _))
  | ownQueues h cb =>
      -- one more is pending, and one more is to be left out
      refine ⟨fun hp => ?_, fun hpc => absurd hpc (not_polling_of_outside h)⟩
      have hp : l.early + 1 < (l.pendingFunctors ++ [cb]).length := hp
      rw [List.length_append, List.length_singleton] at hp
      exact .inr (.inr (ha.alarmed (by omega) (not_collecting_of_outside h)
        (not_waking_of_outside h)))
  | ownQuits h => exact ⟨ha.functors, fun hpc => absurd hpc (not_polling_of_outside h)⟩
  | loop h =>
      exact ⟨fun hp => .inr (.inr (ha.alarmed hp (not_collecting_of_outside h)
        (not_waking_of_outside h))), fun hpc => by cases hpc⟩
  | check h =>
      refine ⟨fun hp => .inr (.inr (ha.alarmed hp ?_ ?_)), fun hpc hquit => ?_⟩
      · simp [h, LoopPc.Collecting]
      · simp [h]
      · -- the thread polls only if it is not to quit
        have hquit' : l.quit = true := hquit
        simp [hquit'] at hpc
  | poll h active hactive => exact ⟨fun _ => .inl trivial, fun hpc => by cases hpc⟩
  | handlerQueues h cb =>
      refine ⟨fun _ => .inl ?_, fun hpc => ?_⟩
      · rw [push_pc, h]
        trivial
      · rw [push_pc, h] at hpc
        cases hpc
  | handlerQuits h =>
      refine ⟨ha.functors, fun hpc => ?_⟩
      rw [show l.pc = _ from h] at hpc
      cases hpc
  | handleRead h => exact ⟨fun _ => .inl trivial, fun hpc => by cases hpc⟩
  | doPendingFunctors h => exact ⟨fun _ => .inl trivial, fun hpc => by cases hpc⟩
  | swap h => exact ⟨fun hp => absurd hp (Nat.lt_irrefl 0), fun hpc => by cases hpc⟩
  | functorQueues h cb' => exact ⟨fun _ => .inr (.inl ⟨_, rfl⟩), fun hpc => by cases hpc⟩
  | functorWakes h => exact alert_of_alarmed (.inl (Nat.succ_pos _))
  | functorQuits h =>
      refine ⟨ha.functors, fun hpc => ?_⟩
      rw [show l.pc = _ from h] at hpc
      cases hpc
  | call h =>
      refine ⟨fun hp => .inr (.inr (ha.alarmed hp ?_ ?_)), fun hpc => by cases hpc⟩
      · simp [h, LoopPc.Collecting]
      · simp [h]
  | done h =>
      refine ⟨fun hp => .inr (.inr (ha.alarmed hp ?_ ?_)), fun hpc => by cases hpc⟩
      · simp [h, LoopPc.Collecting]
      · simp [h]

/-! ## What an iteration takes over -/

/-- All of `fs` has been called, or has been taken over, or is about to be. -/
def Secured (fs : List φ) (l : EventLoop φ) : Prop :=
  (l.pc.Collecting ∧ fs <+: l.queued) ∨ fs <+: l.called ++ l.current

/-- Behind the swap, what is secured has been called or taken over. -/
theorem not_collecting_of_secured {fs : List φ} (hs : l.Secured fs) (hpc : ¬ l.pc.Collecting) :
    fs <+: l.called ++ l.current := by
  rcases hs with ⟨hc, -⟩ | hs
  · exact absurd hc hpc
  · exact hs

/-- A step of another thread, or of a handler, may queue more. -/
theorem Secured.mono {fs more : List φ} (hs : l.Secured fs) (hpc : l'.pc = l.pc)
    (hqueued : l'.queued = l.queued ++ more) (hcalled : l'.called = l.called) :
    l'.Secured fs := by
  unfold Secured at hs ⊢
  rw [hpc, hqueued, hcalled, show l'.current = l.current by unfold current; rw [hpc]]
  exact hs.imp (fun h => ⟨h.1, h.2.trans (List.prefix_append _ _)⟩) id

/-- **Each step keeps `fs` secured**: only the swap ends the collecting, and it takes all. -/
theorem Secured.step {fs : List φ} (hi : l.InOrder) (hs : l.Secured fs) (hstep : Step l l') :
    l'.Secured fs := by
  cases hstep with
  | queueInLoop cb => exact hs.mono rfl rfl rfl
  | quit => exact hs.mono rfl (List.append_nil _).symm rfl
  | wakeup h => exact hs.mono rfl (List.append_nil _).symm rfl
  | ownQueues h cb => exact hs.mono rfl rfl rfl
  | ownQuits h => exact hs.mono rfl (List.append_nil _).symm rfl
  | loop h =>
      have hs := not_collecting_of_secured hs (not_collecting_of_outside h)
      rw [current_of_outside h] at hs
      exact .inr hs
  | check h =>
      have hs := not_collecting_of_secured hs (by simp [h, LoopPc.Collecting])
      refine .inr ?_
      cases l.quit <;> simpa [current, h] using hs
  | poll h active hactive =>
      have hs := not_collecting_of_secured hs (by simp [h, LoopPc.Collecting])
      exact .inr (by simpa [current, h] using hs)
  | handlerQueues h cb => exact hs.mono rfl rfl rfl
  | handlerQuits h => exact hs.mono rfl (List.append_nil _).symm rfl
  | handleRead h => exact hs.imp (fun h => ⟨trivial, h.2⟩) (by simp [current, h])
  | doPendingFunctors h => exact hs.imp (fun h => ⟨trivial, h.2⟩) (by simp [current, h])
  | swap h =>
      refine .inr ?_
      have hall : l.queued = l.called ++ l.pendingFunctors := by
        simpa [InOrder, current, h] using hi
      rcases hs with ⟨-, hs⟩ | hs
      · exact hall ▸ hs
      · refine List.IsPrefix.trans ?_ (List.prefix_append _ _)
        simpa [current, h] using hs
  | functorQueues h cb' =>
      have hs := not_collecting_of_secured hs (by simp [h, LoopPc.Collecting])
      exact .inr (by simpa [current, h] using hs)
  | functorWakes h =>
      have hs := not_collecting_of_secured hs (by simp [h, LoopPc.Collecting])
      exact .inr (by simpa [current, h] using hs)
  | functorQuits h => exact hs.mono rfl (List.append_nil _).symm rfl
  | call h =>
      have hs := not_collecting_of_secured hs (by simp [h, LoopPc.Collecting])
      exact .inr (by simpa [current, h] using hs)
  | done h =>
      have hs := not_collecting_of_secured hs (by simp [h, LoopPc.Collecting])
      exact .inr (by simpa [current, h] using hs)

end EventLoop

open EventLoop

variable {φ : Type} {l l' : EventLoop φ}

/-- So does each run. -/
theorem Reachable.inOrder (hl : Reachable l) : l.InOrder := by
  induction hl with
  | refl => rfl
  | tail _ hstep ih => exact ih.step hstep

/-- The thread is alert in all reachable states. -/
theorem Reachable.alert (hl : Reachable l) : l.Alert := by
  induction hl with
  | refl => exact ⟨fun h => absurd h (Nat.lt_irrefl 0), fun h => by cases h⟩
  | tail _ hstep ih => exact ih.step hstep

/-- What is secured stays so in each run. -/
theorem EventLoop.Secured.run {fs : List φ} (hl : Reachable l) (hs : l.Secured fs)
    (hrun : Relation.ReflTransGen Step l l') : l'.Secured fs := by
  induction hrun with
  | refl => exact hs
  | tail hrun hstep ih => exact ih.step (Reachable.inOrder (hl.trans hrun)) hstep

/-- A functor was queued while the loop thread polls. -/
def overslept : EventLoop Nat := ⟨false, [7], 0, .polling, 1, [7], [], 0⟩

/-- Another thread queues it. -/
theorem overslept_reachable : Reachable overslept := by
  let start : EventLoop Nat := .new
  have hloop : Step start { start with pc := .check } := .loop trivial
  have hcheck : Step { start with pc := .check } { start with pc := .polling } := .check rfl
  have hqueue : Step { start with pc := .polling } overslept := .queueInLoop 7
  exact .tail (.tail (.tail .refl hloop) hcheck) hqueue

/-- The loop thread has woken up and is about to take the functor over. -/
def awake : EventLoop Nat := ⟨false, [7], 0, .swapping, 1, [7], [], 0⟩

/-- `poll` returns, and no channel is active. -/
theorem awake_reachable : Reachable awake := by
  have hpoll : Step overslept { awake with pc := .handling false } := .poll rfl false nofun
  have hpending : Step { awake with pc := .handling false } awake := .doPendingFunctors rfl
  exact .tail (.tail overslept_reachable hpoll) hpending

/-- One functor has been called, the next one is being called, and a third one has been queued in
the meantime. -/
def busy : EventLoop Nat := ⟨false, [3], 0, .calling [2], 3, [1, 2, 3], [1], 0⟩

/-- Two functors were queued before `loop()`, and the third one is queued by another thread. -/
theorem busy_reachable : Reachable busy := by
  let first : EventLoop Nat := ⟨false, [1], 0, .idle, 1, [1], [], 0⟩
  let second : EventLoop Nat := ⟨false, [1, 2], 0, .idle, 2, [1, 2], [], 0⟩
  let taken : EventLoop Nat := ⟨false, [], 0, .calling [1, 2], 2, [1, 2], [], 0⟩
  let called : EventLoop Nat := ⟨false, [], 0, .calling [2], 2, [1, 2], [1], 0⟩
  have hfirst : Reachable first := .tail .refl (.queueInLoop 1)
  have hsecond : Reachable second := hfirst.tail (.queueInLoop 2)
  have hloop : Reachable { second with pc := .check } := hsecond.tail (.loop trivial)
  have hcheck : Reachable { second with pc := .polling } := hloop.tail (.check rfl)
  have hpoll : Reachable { second with pc := .handling false } :=
    hcheck.tail (.poll rfl false nofun)
  have hpending : Reachable { second with pc := .swapping } :=
    hpoll.tail (.doPendingFunctors rfl)
  have htaken : Reachable taken := hpending.tail (.swap rfl)
  have hcalled : Reachable called := htaken.tail (.call rfl)
  exact hcalled.tail (.queueInLoop 3)

/-- **The functors are called once and in the order in which they were queued**, whichever threads
queue them and however these are interleaved with the loop thread: those that were called are first,
then those that were taken over, then those that are pending. -/
theorem functors_in_order (hl : Reachable l) :
    l.queued = l.called ++ l.current ++ l.pendingFunctors :=
  hl.inOrder

/-- Called, taken over and pending functors make up those that were queued. -/
theorem functors_in_order_busy :
    busy.queued = busy.called ++ busy.current ++ busy.pendingFunctors :=
  functors_in_order busy_reachable

/-- **No functor waits for long**: all that are queued by the time that `poll` has returned are
called by the time that the loop thread is next at `while (!quit_)`. -/
theorem iteration_calls_all (hl : Reachable l) (hpc : l.pc.Collecting)
    (hrun : Relation.ReflTransGen Step l l') (hpc' : l'.pc = .check) : l.queued <+: l'.called := by
  have hs : l.Secured l.queued := .inl ⟨hpc, List.prefix_rfl⟩
  have hs' := not_collecting_of_secured (hs.run hl hrun) (by simp [hpc', LoopPc.Collecting])
  simpa [current, hpc'] using hs'

/-- The loop thread has called the functor. -/
def relieved : EventLoop Nat := ⟨false, [], 0, .check, 1, [7], [7], 0⟩

/-- The functor that was pending has been called when the iteration is over. -/
theorem iteration_calls_all_awake : awake.queued <+: relieved.called := by
  have hswap : Step awake { relieved with pc := .calling [7], called := [] } := .swap rfl
  have hcall : Step { relieved with pc := .calling [7], called := [] }
      { relieved with pc := .calling [] } := .call rfl
  have hdone : Step { relieved with pc := .calling [] } relieved := .done rfl
  exact iteration_calls_all awake_reachable trivial (.tail (.tail (.tail .refl hswap) hcall) hdone)
    rfl

/-- The loop thread has queued a functor in front of `loop()`, and polls: nothing wakes it up. -/
def unalarmed : EventLoop Nat := ⟨false, [5], 0, .polling, 0, [5], [], 1⟩

/-- The thread enters `loop()`, which does not look at what is pending. -/
theorem unalarmed_reachable : Reachable unalarmed := by
  let start : EventLoop Nat := .new
  let queued : EventLoop Nat := ⟨false, [5], 0, .idle, 0, [5], [], 1⟩
  have houtside : start.pc.Outside := trivial
  have hqueues : Step start queued := .ownQueues houtside 5
  have hqueue : Reachable queued := .tail .refl hqueues
  have hloop : Reachable { queued with pc := .check } := hqueue.tail (.loop trivial)
  exact hloop.tail (.check rfl)

/-- Another thread has queued a functor behind it. -/
def realarmed : EventLoop Nat := ⟨false, [5, 7], 0, .polling, 1, [5, 7], [], 1⟩

/-- It is about to write to the wake-up descriptor. -/
theorem realarmed_reachable : Reachable realarmed := unalarmed_reachable.tail (.queueInLoop 7)

/-- The exception is needed: the functor that the thread has queued in front of `loop()` waits until
`poll` returns for another reason. -/
theorem early_functor_sleeps : ∃ l : EventLoop Nat, Reachable l ∧ l.pc = .polling ∧
    l.pendingFunctors ≠ [] ∧ ¬ (0 < l.wakeupFd ∨ 0 < l.wakers) :=
  ⟨unalarmed, unalarmed_reachable, rfl, by decide, by decide⟩

end Muduo

end FastCgi
