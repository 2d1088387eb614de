import FastCgi.Muduo.TimerQueue

/-! # Runs of a loop with timers

Any thread adds timers: it allocates one, `addTimerInLoop` is called in the loop thread, and
`addTimer` reads the number of the timer for the `TimerId` that it returns. Timers are canceled in
the loop thread too, at any time, also by callbacks that `handleRead` calls. `Timers.Step` is one
such action, with the clock and the memory allocator as they please.

Whatever happens, no assertion fails and the loop uses no deleted timer (`timers_never_abort`); no
timer is called in a round that is too early for it, or more often than it is due
(`timers_called_when_due`); a canceled timer is not called any more, except that the call of
`handleRead` that is going on gets to it (`canceled_not_called`); the alarm is set as long as a
timer waits (`timers_armed`); and each call of `handleRead` calls the timers that are due
(`round_calls_due`).

The last thing that `addTimer` does is not safe in another thread than that of the loop: by then,
the loop may have called the timer and deleted it (`addTimer_reads_deleted`). -/

namespace FastCgi

namespace Muduo

open Assoc (OrderedSet)

/-- A call of `handleRead` that is going on. -/
structure Batch where
  /-- What the clock said when it began. -/
  now : Nat
  /-- The timers that it has taken out. -/
  expired : List Entry
  /-- The expired timers that are still to be called. -/
  todo : List Entry

/-- The timer at an address has been called in this round. -/
def Batch.Done (b : Batch) (t : Nat) : Prop := ∃ e ∈ b.expired, e ∉ b.todo ∧ e.timer = t

/-- A call of a timer's callback. -/
structure Called where
  timer : Timer
  /-- What the clock said when the call of `handleRead` began that makes it. The callbacks of other
  timers can come in between. -/
  round : Nat
  deriving DecidableEq, Repr

/-- The timers of a loop. -/
structure Timers where
  queue : TimerQueue
  /-- The timers for which `addTimerInLoop` is on its way. -/
  adding : List Nat
  /-- The calls of `addTimer` that have passed a timer on and are still to return its `TimerId`: the
  address, and the number that the timer had. -/
  returning : List (Nat × Nat)
  batch : Option Batch
  /-- The `TimerId`s that `addTimer` has returned. -/
  issued : List (Nat × Nat)
  /-- The callbacks that have been called. -/
  called : List Called

namespace Timers

/-- A new loop. -/
def init : Timers := ⟨.new, [], [], none, [], []⟩

/-- One action of a thread, as far as the timers are concerned. If it is the loop thread that calls
`addTimer`, then `addTimer`, `addTimerInLoop` and `returnTimerId` follow each other in it. -/
inductive Step : Timers → Timers → Prop
  /-- `addTimer`, with a valid time, where the memory allocator puts it. -/
  | addTimer {s : Timers} {t when_ interval : Nat} {repeats : Bool} (hfree : s.queue.heap t = none)
    (haddress : t < uintptrMax) (hwhen : 0 < when_) :
    Step s { s with
      queue := s.queue.addTimer t when_ interval repeats
      adding := t :: s.adding
      returning := (t, s.queue.numCreated + 1) :: s.returning }
  /-- `addTimerInLoop`. -/
  | addTimerInLoop {s : Timers} {t clock : Nat} {q : TimerQueue} (hadding : t ∈ s.adding)
    (hq : s.queue.addTimerInLoop t clock = .ok q) :
    Step s { s with queue := q, adding := s.adding.erase t }
  /-- The end of `addTimer`: it reads the number of what is at the address now. -/
  | returnTimerId {s : Timers} {t n : Nat} {timer : Timer} (hreturning : (t, n) ∈ s.returning)
    (hderef : s.queue.deref t = .ok timer) :
    Step s { s with
      returning := s.returning.erase (t, n)
      issued := (t, timer.sequence) :: s.issued }
  /-- `cancelInLoop`, with any `TimerId`. -/
  | cancelInLoop {s : Timers} {t n : Nat} {q : TimerQueue} (hq : s.queue.cancelInLoop t n = .ok q) :
    Step s { s with queue := q }
  /-- `handleRead`, up to the calls. -/
  | handleRead {s : Timers} {now : Nat} {readable : Bool} {expired : List Entry} {q : TimerQueue}
    (hidle : s.batch = none) (hnow : 0 < now)
    (hq : s.queue.handleRead now readable = .ok (expired, q)) :
    Step s { s with queue := q, batch := some ⟨now, expired, expired⟩ }
  /-- The next expired timer is called. -/
  | run {s : Timers} {now : Nat} {expired rest : List Entry} {e : Entry} {timer : Timer}
    (hbatch : s.batch = some ⟨now, expired, e :: rest⟩)
    (hderef : s.queue.deref e.timer = .ok timer) :
    Step s { s with batch := some ⟨now, expired, rest⟩, called := s.called ++ [⟨timer, now⟩] }
  /-- The rest of `handleRead`. -/
  | reset {s : Timers} {now clock : Nat} {expired : List Entry} {q : TimerQueue}
    (hbatch : s.batch = some ⟨now, expired, []⟩)
    (hq : { s.queue with callingExpiredTimers := false }.reset expired now clock = .ok q) :
    Step s { s with queue := q, batch := none }

/-- The states that can be reached. -/
def Reachable (s : Timers) : Prop := Relation.ReflTransGen Step init s

/-! ## The timers in other hands -/

/-- The timers that `handleRead` has taken out. -/
def taken (s : Timers) : List Nat :=
  match s.batch with
  | none => []
  | some b => b.expired.map Entry.timer

/-- Where a timer is that is not in the queue. -/
def Other (s : Timers) (t : Nat) : Prop := t ∈ s.adding ∨ t ∈ s.taken

/-- The state of a call of `handleRead`. -/
structure Batch.Good (q : TimerQueue) (b : Batch) : Prop where
  now : 0 < b.now
  nodup : (b.expired.map Entry.timer).Nodup
  todo : b.todo <:+ b.expired
  due : ∀ e ∈ b.expired, ∀ timer, q.heap e.timer = some timer → timer.expiration ≤ b.now

/-- The state of the timers. -/
structure Inv (s : Timers) : Prop where
  good : s.queue.Good s.Other
  nodup : s.adding.Nodup
  disjoint : ∀ t ∈ s.adding, t ∉ s.taken
  calling : s.queue.callingExpiredTimers = s.batch.isSome
  batch : ∀ b, s.batch = some b → Batch.Good s.queue b

variable {s s' : Timers} {b : Batch} {q : TimerQueue} {t : Nat} {timer : Timer}

/-- A round depends on its own timers only, so that other ones may be added and deleted
meanwhile. -/
theorem Batch.Good.congr (hb : Batch.Good s.queue b)
    (h : ∀ e ∈ b.expired, ∀ timer, q.heap e.timer = some timer →
      s.queue.heap e.timer = some timer) : Batch.Good q b where
  now := hb.now
  nodup := hb.nodup
  todo := hb.todo
  due e he timer hheap := hb.due e he timer (h e he timer hheap)

/-- In a round the timers that it has taken out are missing from the queue. -/
theorem taken_of_batch (h : s.batch = some b) : s.taken = b.expired.map Entry.timer := by
  rw [taken, h]

/-- Between the rounds none are missing. -/
theorem taken_of_idle (h : s.batch = none) : s.taken = [] := by
  rw [taken, h]

/-- A timer in other hands is allocated. -/
theorem Inv.exists_timer (hi : s.Inv) (ht : s.Other t) : ∃ timer, s.queue.heap t = some timer :=
  ((hi.good.other t).mp ht).imp fun _ h => h.1

/-- What `addTimerInLoop` makes of the queue. -/
theorem Inv.addTimerInLoop_eq (hi : s.Inv) (hadding : t ∈ s.adding) {clock : Nat}
    (hq : s.queue.addTimerInLoop t clock = .ok q) :
    ∃ timer fd, s.queue.heap t = some timer ∧
      q = { s.queue.put t timer with timerfd := fd } ∧ (s.queue.Armed → q.Armed) := by
  obtain ⟨timer, hheap⟩ := hi.exists_timer (.inl hadding)
  obtain ⟨fd, hok, harmed⟩ := hi.good.addTimerInLoop (.inl hadding) hheap clock
  obtain rfl := Except.ok.inj (hok.symm.trans hq)
  exact ⟨timer, fd, hheap, rfl, harmed⟩

/-- What `cancelInLoop` makes of it. -/
theorem Inv.cancelInLoop_cases (hi : s.Inv) {n : Nat} (hq : s.queue.cancelInLoop t n = .ok q) :
    (∃ timer, s.queue.heap t = some timer ∧ timer.sequence = n ∧
        Entry.mk timer.expiration t ∈ s.queue.timers ∧ q = s.queue.drop t n timer) ∨
      (toLex (t, n) ∉ s.queue.activeTimers ∧ q = { s.queue with
        cancelingTimers := if s.queue.callingExpiredTimers then
          s.queue.cancelingTimers.insert (toLex (t, n)) else s.queue.cancelingTimers }) := by
  rcases hi.good.cancelInLoop t n with ⟨timer, hheap, hn, hmem, hok⟩ | ⟨hactive, hok⟩
  · exact .inl ⟨timer, hheap, hn, hmem, Except.ok.inj (hq.symm.trans hok)⟩
  · exact .inr ⟨hactive, Except.ok.inj (hq.symm.trans hok)⟩

/-- What `handleRead` takes out, and leaves. -/
theorem Inv.handleRead_eq (hi : s.Inv) {now : Nat} {readable : Bool} {expired : List Entry}
    (hq : s.queue.handleRead now readable = .ok (expired, q)) :
    expired = s.queue.timers.before (TimerQueue.sentry now) ∧
      (∃ activeTimers fd, q = { s.queue with
        timers := s.queue.timers.since (TimerQueue.sentry now)
        activeTimers
        callingExpiredTimers := true
        cancelingTimers := .empty
        timerfd := fd }) ∧
      q.Good fun t => s.Other t ∨ t ∈ expired.map Entry.timer := by
  obtain ⟨activeTimers, fd, hok, hgood⟩ := hi.good.handleRead now readable
  obtain ⟨rfl, rfl⟩ := Prod.mk.inj (Except.ok.inj (hok.symm.trans hq))
  exact ⟨rfl, ⟨activeTimers, fd, rfl⟩, hgood⟩

/-- An address that is free is not that of a timer on its way. -/
theorem Inv.not_other_of_free (hi : s.Inv) (hfree : s.queue.heap t = none) : ¬ s.Other t := by
  intro ht
  obtain ⟨timer, hheap⟩ := hi.exists_timer ht
  rw [hfree] at hheap
  cases hheap

/-- The invariant holds before the first timer is added. -/
theorem inv_init : init.Inv where
  good := TimerQueue.good_new.congr fun t => by simp [Other, taken, init]
  nodup := .nil
  disjoint t ht := absurd ht List.not_mem_nil
  calling := rfl
  batch b hb := by cases hb

/-- The calls of `addTimer` and what they return do not matter to the queue. -/
theorem Inv.congr (hi : s.Inv) (hqueue : s'.queue = s.queue) (hadding : s'.adding = s.adding)
    (hbatch : s'.batch = s.batch) : s'.Inv := by
  have htaken : s'.taken = s.taken := by rw [taken, taken, hbatch]
  refine ⟨?_, ?_, ?_, ?_, ?_⟩
  · rw [hqueue]
    exact hi.good.congr fun t => by rw [Other, Other, hadding, htaken]
  · rw [hadding]
    exact hi.nodup
  · rw [hadding, htaken]
    exact hi.disjoint
  · rw [hqueue, hbatch]
    exact hi.calling
  · rw [hqueue, hbatch]
    exact hi.batch

/-- `addTimer` allocates a timer, which is on its way to the loop then. -/
theorem Inv.addTimer (hi : s.Inv) {when_ interval : Nat} {repeats : Bool}
    (hfree : s.queue.heap t = none) (haddress : t < uintptrMax) (hwhen : 0 < when_) :
    Inv { s with
      queue := s.queue.addTimer t when_ interval repeats
      adding := t :: s.adding
      returning := (t, s.queue.numCreated + 1) :: s.returning } := by
  -- an address that is free belongs to no timer, neither in the queue nor on its way
  have hnew := hi.not_other_of_free hfree
  have hnot : ∀ w, Entry.mk w t ∉ s.queue.timers := by
    intro w hmem
    obtain ⟨timer, hheap, -⟩ := hi.good.entry _ hmem
    rw [Entry.timer_mk, hfree] at hheap
    cases hheap
  refine ⟨(hi.good.write hnot ⟨when_, interval, repeats, s.queue.numCreated + 1⟩ haddress hwhen
    (Nat.le_succ _) le_rfl fun t' timer' hheap heq => ?_).congr fun t' => ?_, ?_, ?_, hi.calling,
    fun b hb => ?_⟩
  · have hle := (hi.good.address t' timer' hheap).2.2
    rw [heq] at hle
    exact absurd hle (Nat.not_succ_le_self _)
  · show (t' ∈ t :: s.adding ∨ t' ∈ s.taken) ↔ _
    rw [List.mem_cons, Other]
    tauto
  · exact List.nodup_cons.mpr ⟨fun h => hnew (.inl h), hi.nodup⟩
  · intro t' ht'
    rcases List.mem_cons.mp ht' with rfl | ht'
    · exact fun h => hnew (.inr h)
    · exact hi.disjoint t' ht'
  · refine (hi.batch b hb).congr fun e he timer hheap => ?_
    rcases TimerQueue.of_update_some hheap with ⟨heq, -⟩ | ⟨-, hheap⟩
    · refine absurd (.inr ?_) hnew
      rw [taken_of_batch (s := s) hb, ← heq]
      exact List.mem_map_of_mem he
    · exact hheap

/-- The loop puts it into the queue, and it is on its way no more. -/
theorem Inv.addTimerInLoop (hi : s.Inv) (hadding : t ∈ s.adding) {clock : Nat}
    (hq : s.queue.addTimerInLoop t clock = .ok q) :
    Inv { s with queue := q, adding := s.adding.erase t } := by
  obtain ⟨timer, fd, hheap, rfl, -⟩ := hi.addTimerInLoop_eq hadding hq
  have hput := hi.good.put (.inl hadding) hheap
  have hgood : TimerQueue.Good { s.queue.put t timer with timerfd := fd }
      fun t' => s.Other t' ∧ t' ≠ t :=
    ⟨hput.entry, hput.active, hput.other, hput.address, hput.sequence⟩
  refine ⟨hgood.congr fun t' => ?_, hi.nodup.erase t,
    fun t' ht' => hi.disjoint t' (List.mem_of_mem_erase ht'), hi.calling,
    fun b hb => (hi.batch b hb).congr fun e _ timer h => h⟩
  show (t' ∈ s.adding.erase t ∨ t' ∈ s.taken) ↔ (t' ∈ s.adding ∨ t' ∈ s.taken) ∧ t' ≠ t
  rw [hi.nodup.mem_erase_iff]
  constructor
  · rintro (⟨hne, h⟩ | h)
    · exact ⟨.inl h, hne⟩
    · exact ⟨.inr h, fun heq => hi.disjoint t hadding (heq ▸ h)⟩
  · rintro ⟨h | h, hne⟩
    · exact .inl ⟨hne, h⟩
    · exact .inr h

/-- A timer is taken out and deleted, or its cancellation is noted if the round has taken it out
before. -/
theorem Inv.cancelInLoop (hi : s.Inv) {n : Nat} (hq : s.queue.cancelInLoop t n = .ok q) :
    Inv { s with queue := q } := by
  rcases hi.cancelInLoop_cases hq with ⟨timer, hheap, rfl, hmem, rfl⟩ | ⟨-, rfl⟩
  · exact ⟨hi.good.drop hheap hmem, hi.nodup, hi.disjoint, hi.calling, fun b hb =>
      (hi.batch b hb).congr fun e _ timer h => (TimerQueue.of_update_none h).2⟩
  · exact ⟨⟨hi.good.entry, hi.good.active, hi.good.other, hi.good.address, hi.good.sequence⟩,
      hi.nodup, hi.disjoint, hi.calling, fun b hb => (hi.batch b hb).congr fun e _ timer h => h⟩

/-- A round begins: it has taken out the timers that were due. -/
theorem Inv.handleRead (hi : s.Inv) {now : Nat} {readable : Bool} {expired : List Entry}
    (hidle : s.batch = none) (hnow : 0 < now)
    (hq : s.queue.handleRead now readable = .ok (expired, q)) :
    Inv { s with queue := q, batch := some ⟨now, expired, expired⟩ } := by
  obtain ⟨rfl, ⟨activeTimers, fd, rfl⟩, hgood⟩ := hi.handleRead_eq hq
  have htaken := taken_of_idle hidle
  refine ⟨hgood.congr fun t => ?_, hi.nodup, fun t ht hin => ?_, rfl, fun b hb => ?_⟩
  · show (t ∈ s.adding ∨ t ∈ (s.queue.timers.before (TimerQueue.sentry now)).map Entry.timer) ↔ _
    rw [Other, htaken]
    simp
  · obtain ⟨e, he, rfl⟩ := List.mem_map.mp hin
    obtain ⟨hlt, hmem⟩ := OrderedSet.mem_before.mp he
    exact hi.good.not_mem (.inl ht) e.when_ hmem
  · cases hb
    exact ⟨hnow, hi.good.nodup_before _, List.suffix_rfl, fun e he timer hheap =>
      hi.good.le_of_before he hheap⟩

/-- The round has called its next timer. -/
theorem Inv.run (hi : s.Inv) {now : Nat} {expired rest : List Entry} {e : Entry}
    (hbatch : s.batch = some ⟨now, expired, e :: rest⟩) (called : List Called) :
    Inv { s with batch := some ⟨now, expired, rest⟩, called } := by
  have hb := hi.batch _ hbatch
  have htaken : s.taken = expired.map Entry.timer := taken_of_batch hbatch
  refine ⟨hi.good.congr fun t => ?_, hi.nodup, fun t ht hin => ?_, ?_, fun b hb' => ?_⟩
  · show (t ∈ s.adding ∨ t ∈ expired.map Entry.timer) ↔ (t ∈ s.adding ∨ t ∈ s.taken)
    rw [htaken]
  · exact hi.disjoint t ht (htaken ▸ hin)
  · rw [hi.calling, hbatch]
    rfl
  · cases hb'
    exact ⟨hb.now, hb.nodup, (List.suffix_cons e rest).trans hb.todo, hb.due⟩

/-- What `reset` does, in a state in which all expired timers have been called. -/
theorem Inv.exists_reset (hi : s.Inv) {now : Nat} {expired : List Entry}
    (hbatch : s.batch = some ⟨now, expired, []⟩) (clock : Nat) :
    ∃ q, { s.queue with callingExpiredTimers := false }.reset expired now clock = .ok q ∧ q.Armed ∧
      q.Good (fun t => s.Other t ∧ t ∉ s.taken) ∧
      (∀ t ∉ s.taken, q.heap t = s.queue.heap t) ∧
      (∀ t ∈ s.taken, ∀ timer, s.queue.heap t = some timer →
        q.heap t = s.queue.settled now t timer) ∧
      TimerQueue.Unreset { s.queue with callingExpiredTimers := false } q := by
  have hb := hi.batch _ hbatch
  have htaken : s.taken = expired.map Entry.timer := taken_of_batch hbatch
  have hgood : TimerQueue.Good { s.queue with callingExpiredTimers := false } s.Other :=
    ⟨hi.good.entry, hi.good.active, hi.good.other, hi.good.address, hi.good.sequence⟩
  rw [htaken]
  exact hgood.reset hb.nodup (fun e he => .inr (htaken ▸ List.mem_map_of_mem he)) hb.now clock

/-- What `reset` makes of the queue. -/
theorem Inv.reset_spec (hi : s.Inv) {now clock : Nat} {expired : List Entry}
    (hbatch : s.batch = some ⟨now, expired, []⟩)
    (hq : { s.queue with callingExpiredTimers := false }.reset expired now clock = .ok q) :
    q.Armed ∧ q.Good (fun t => s.Other t ∧ t ∉ s.taken) ∧
      (∀ t ∉ s.taken, q.heap t = s.queue.heap t) ∧
      (∀ t ∈ s.taken, ∀ timer, s.queue.heap t = some timer →
        q.heap t = s.queue.settled now t timer) ∧
      TimerQueue.Unreset { s.queue with callingExpiredTimers := false } q := by
  obtain ⟨q', hok, h⟩ := hi.exists_reset hbatch clock
  obtain rfl := Except.ok.inj (hok.symm.trans hq)
  exact h

/-- The round ends: its timers are put back or deleted, and none is missing from the queue. -/
theorem Inv.reset (hi : s.Inv) {now clock : Nat} {expired : List Entry}
    (hbatch : s.batch = some ⟨now, expired, []⟩)
    (hq : { s.queue with callingExpiredTimers := false }.reset expired now clock = .ok q) :
    Inv { s with queue := q, batch := none } := by
  obtain ⟨-, hgood, -, -, hsame⟩ := hi.reset_spec hbatch hq
  refine ⟨hgood.congr fun t => ?_, hi.nodup, fun t _ => List.not_mem_nil,
    hsame.callingExpiredTimers, fun b hb => by cases hb⟩
  show (t ∈ s.adding ∨ t ∈ ([] : List Nat)) ↔ (t ∈ s.adding ∨ t ∈ s.taken) ∧ t ∉ s.taken
  have hdisjoint := hi.disjoint t
  simp only [List.not_mem_nil, or_false]
  tauto

/-- **Every action keeps the timers in order**. -/
theorem Inv.step (hi : s.Inv) (hstep : Step s s') : s'.Inv := by
  cases hstep with
  | addTimer hfree haddress hwhen => exact hi.addTimer hfree haddress hwhen
  | addTimerInLoop hadding hq => exact hi.addTimerInLoop hadding hq
  | returnTimerId hreturning hderef => exact hi.congr rfl rfl rfl
  | cancelInLoop hq => exact hi.cancelInLoop hq
  | handleRead hidle hnow hq => exact hi.handleRead hidle hnow hq
  | run hbatch hderef => exact hi.run hbatch _
  | reset hbatch hq => exact hi.reset hbatch hq

/-- **The invariant holds in all reachable states**, by induction on the run. -/
theorem Reachable.inv (h : s.Reachable) : s.Inv := by
  induction h with
  | refl => exact inv_init
  | tail _ hstep ih => exact ih.step hstep

/-! ## The calls -/

/-- What was called, and what the calls say about the timers that are left. -/
structure History (s : Timers) : Prop where
  called : ∀ r ∈ s.called,
    r.timer.sequence ≤ s.queue.numCreated ∧ r.timer.expiration ≤ r.round
  spaced : s.called.Pairwise fun r r' => r.timer.sequence = r'.timer.sequence →
    r.timer.repeats = true ∧ r.round + r.timer.interval ≤ r'.round
  live : ∀ t timer, s.queue.heap t = some timer → ∀ r ∈ s.called,
    r.timer.sequence = timer.sequence →
      r.timer.interval = timer.interval ∧ r.timer.repeats = timer.repeats ∧
        (timer.repeats = true ∧ r.round + r.timer.interval ≤ timer.expiration ∨
          ∃ b, s.batch = some b ∧ b.Done t ∧ r.round ≤ b.now)

/-- Timers are allocated or deleted, and nothing is called. -/
theorem History.of_heap (hh : s.History) (hcalled : s'.called = s.called)
    (hnum : s.queue.numCreated ≤ s'.queue.numCreated) (hbatch : s'.batch = s.batch)
    (hheap : ∀ t timer, s'.queue.heap t = some timer →
      s.queue.heap t = some timer ∨ s.queue.numCreated < timer.sequence) : s'.History where
  called r hr := by
    rw [hcalled] at hr
    exact ⟨(hh.called r hr).1.trans hnum, (hh.called r hr).2⟩
  spaced := by
    rw [hcalled]
    exact hh.spaced
  live t timer ht r hr heq := by
    rw [hcalled] at hr
    rw [hbatch]
    rcases hheap t timer ht with ht | hlt
    · exact hh.live t timer ht r hr heq
    · have hle := (hh.called r hr).1
      omega

/-- The round that begins calls timers that are due and were put back after their last call. -/
theorem History.handleRead (hh : s.History) (hi : s.Inv) {now : Nat} {readable : Bool}
    {expired : List Entry} (hidle : s.batch = none)
    (hq : s.queue.handleRead now readable = .ok (expired, q)) :
    History { s with queue := q, batch := some ⟨now, expired, expired⟩ } := by
  obtain ⟨rfl, ⟨activeTimers, fd, rfl⟩, -⟩ := hi.handleRead_eq hq
  refine ⟨hh.called, hh.spaced, fun t timer ht r hr heq => ?_⟩
  obtain ⟨hinterval, hrepeats, hnext | ⟨b, hb, -⟩⟩ := hh.live t timer ht r hr heq
  · exact ⟨hinterval, hrepeats, .inl hnext⟩
  · rw [hidle] at hb
    cases hb

/-- **A call is made in a round that is not too early**: the timer is due, and it has not been
called before, or is a repeating one that was called in a round at least its interval ago. -/
theorem History.run (hh : s.History) (hi : s.Inv) {now : Nat} {expired rest : List Entry}
    {e : Entry} (hbatch : s.batch = some ⟨now, expired, e :: rest⟩)
    (hderef : s.queue.deref e.timer = .ok timer) :
    History { s with
      batch := some ⟨now, expired, rest⟩, called := s.called ++ [⟨timer, now⟩] } := by
  have hb := hi.batch _ hbatch
  have hmem : e ∈ expired := hb.todo.subset List.mem_cons_self
  have hnodup : (e :: rest).Nodup := hb.todo.sublist.nodup (hb.nodup.of_map _)
  have hheap : s.queue.heap e.timer = some timer := TimerQueue.heap_of_deref hderef
  have hdue : timer.expiration ≤ now := hb.due e hmem timer hheap
  -- what was called before was put back with the next expiration, which is due now
  have hbefore : ∀ r ∈ s.called, r.timer.sequence = timer.sequence →
      r.timer.repeats = true ∧ r.round + r.timer.interval ≤ now := by
    intro r hr heq
    obtain ⟨-, hrepeats, ⟨hrepeat, hnext⟩ | ⟨b, hb', ⟨e', he', hout, htimer⟩, -⟩⟩ :=
      hh.live _ timer hheap r hr heq
    · exact ⟨hrepeats.trans hrepeat, hnext.trans hdue⟩
    · -- it has not been called in this round
      rw [hbatch] at hb'
      cases hb'
      obtain rfl := List.inj_on_of_nodup_map hb.nodup he' hmem htimer
      exact absurd List.mem_cons_self hout
  refine ⟨fun r hr => ?_, ?_, fun t timer' ht r hr heq => ?_⟩
  · rcases List.mem_append.mp hr with hr | hr
    · exact hh.called r hr
    · obtain rfl := List.mem_singleton.mp hr
      exact ⟨(hi.good.address _ _ hheap).2.2, hdue⟩
  · refine List.pairwise_append.mpr ⟨hh.spaced, List.pairwise_singleton _ _, ?_⟩
    intro r hr r' hr' heq
    obtain rfl := List.mem_singleton.mp hr'
    exact hbefore r hr heq
  · rcases List.mem_append.mp hr with hr | hr
    · -- the earlier calls are as before, with one timer less to be called
      obtain ⟨hinterval, hrepeats, hnext | ⟨b, hb', ⟨e', he', hout, htimer⟩, hle⟩⟩ :=
        hh.live t timer' ht r hr heq
      · exact ⟨hinterval, hrepeats, .inl hnext⟩
      · rw [hbatch] at hb'
        cases hb'
        exact ⟨hinterval, hrepeats, .inr ⟨_, rfl, ⟨e', he', fun hin =>
          hout (List.mem_cons_of_mem _ hin), htimer⟩, hle⟩⟩
    · obtain rfl := List.mem_singleton.mp hr
      -- the number says which timer it is, so it is the one that was called just now
      obtain rfl := hi.good.sequence _ _ _ _ hheap ht heq
      rw [hheap] at ht
      obtain rfl := Option.some.inj ht
      exact ⟨rfl, rfl, .inr ⟨_, rfl, ⟨e, hmem, (List.nodup_cons.mp hnodup).1, rfl⟩, le_rfl⟩⟩

/-- What is put back is called an interval later at least. -/
theorem History.reset (hh : s.History) (hi : s.Inv) {now clock : Nat} {expired : List Entry}
    (hbatch : s.batch = some ⟨now, expired, []⟩)
    (hq : { s.queue with callingExpiredTimers := false }.reset expired now clock = .ok q) :
    History { s with queue := q, batch := none } := by
  have hb := hi.batch _ hbatch
  have htaken : s.taken = expired.map Entry.timer := taken_of_batch hbatch
  obtain ⟨-, -, hkeep, hsettle, hsame⟩ := hi.reset_spec hbatch hq
  refine ⟨fun r hr => ?_, hh.spaced, fun t timer ht r hr heq => ?_⟩
  · rw [show q.numCreated = s.queue.numCreated from hsame.numCreated]
    exact hh.called r hr
  · by_cases hin : t ∈ s.taken
    · -- the timer has been restarted
      obtain ⟨old, hold⟩ := hi.exists_timer (.inr hin)
      have hsettled := (hsettle t hin old hold).symm.trans ht
      rw [TimerQueue.settled] at hsettled
      split at hsettled
      · rename_i hrepeat
        cases hsettled
        rw [htaken] at hin
        obtain ⟨e, he, rfl⟩ := List.mem_map.mp hin
        have hdue := hb.due e he old hold
        rw [Timer.restart, if_pos hrepeat.1] at heq ⊢
        obtain ⟨hinterval, hrepeats, hlast⟩ := hh.live _ old hold r hr heq
        refine ⟨hinterval, hrepeats, .inl ⟨hrepeat.1, ?_⟩⟩
        show r.round + r.timer.interval ≤ now + old.interval
        rcases hlast with ⟨-, hnext⟩ | ⟨b, hb', -, hle⟩
        · exact hnext.trans (hdue.trans (Nat.le_add_right _ _))
        · rw [hbatch] at hb'
          cases hb'
          rw [hinterval]
          exact Nat.add_le_add_right hle _
      · cases hsettled
    · -- the round has not taken it out, so it is where its last call left it
      have ht' : s.queue.heap t = some timer := (hkeep t hin).symm.trans ht
      obtain ⟨hinterval, hrepeats, hnext | ⟨b, hb', ⟨e, he, -, rfl⟩, -⟩⟩ :=
        hh.live t timer ht' r hr heq
      · exact ⟨hinterval, hrepeats, .inl hnext⟩
      · rw [taken_of_batch hb'] at hin
        exact absurd (List.mem_map_of_mem he) hin

/-- **Each step keeps the history**; most of them make no call and restart no timer. -/
theorem History.step (hh : s.History) (hi : s.Inv) (hstep : Step s s') : s'.History := by
  cases hstep with
  | @addTimer t when_ interval repeats hfree haddress hwhen =>
      refine hh.of_heap rfl (Nat.le_succ _) rfl fun t' timer ht => ?_
      rcases TimerQueue.of_update_some ht with ⟨-, rfl⟩ | ⟨-, ht⟩
      · exact .inr (Nat.lt_succ_self _)
      · exact .inl ht
  | @addTimerInLoop t clock q hadding hq =>
      obtain ⟨timer, fd, hheap, rfl, -⟩ := hi.addTimerInLoop_eq hadding hq
      exact hh.of_heap rfl le_rfl rfl fun t' timer ht => .inl ht
  | returnTimerId hreturning hderef =>
      exact hh.of_heap rfl le_rfl rfl fun t' timer ht => .inl ht
  | @cancelInLoop t n q hq =>
      rcases hi.cancelInLoop_cases hq with ⟨timer, hheap, rfl, hmem, rfl⟩ | ⟨-, rfl⟩
      · exact hh.of_heap rfl le_rfl rfl fun t' timer ht => .inl (TimerQueue.of_update_none ht).2
      · exact hh.of_heap rfl le_rfl rfl fun t' timer ht => .inl ht
  | handleRead hidle hnow hq => exact hh.handleRead hi hidle hq
  | run hbatch hderef => exact hh.run hi hbatch hderef
  | reset hbatch hq => exact hh.reset hi hbatch hq

/-- So does each run. -/
theorem Reachable.history (h : s.Reachable) : s.History := by
  induction h with
  | refl =>
      exact ⟨fun r hr => absurd hr List.not_mem_nil, .nil, fun t timer ht => by cases ht⟩
  | tail hrun hstep ih => exact ih.step (Reachable.inv hrun) hstep

/-! ## Cancellation -/

/-- The timer numbered `n` is as good as gone: it is not allocated, or its round goes on and it is
noted as canceled. -/
def Canceled (s : Timers) (n : Nat) : Prop :=
  n ≤ s.queue.numCreated ∧ ∀ t timer, s.queue.heap t = some timer → timer.sequence = n →
    t ∈ s.taken ∧ toLex (t, n) ∈ s.queue.cancelingTimers

/-- A timer at an address is numbered `n`. -/
def numbered (q : TimerQueue) (n t : Nat) : Bool := (q.heap t).map Timer.sequence == some n

/-- The calls of the timer numbered `n` that the round still has to make. -/
def dueCalls (s : Timers) (n : Nat) : Nat :=
  match s.batch with
  | none => 0
  | some b => (b.todo.map Entry.timer).countP (numbered s.queue n)

/-- Between the rounds no call is due. -/
theorem dueCalls_of_idle (h : s.batch = none) (n : Nat) : s.dueCalls n = 0 := by
  rw [dueCalls, h]

/-- In a round the calls that are due are those of its timers with the number. -/
theorem dueCalls_of_batch (h : s.batch = some b) (n : Nat) :
    s.dueCalls n = (b.todo.map Entry.timer).countP (numbered s.queue n) := by
  rw [dueCalls, h]

/-- What is due does not depend on the timers that the round has not taken out. -/
theorem dueCalls_congr {n : Nat} (hbatch : s'.batch = s.batch)
    (h : ∀ t ∈ s.taken, s'.queue.heap t = s.queue.heap t) (hi : s.Inv) :
    s'.dueCalls n = s.dueCalls n := by
  cases hb : s.batch with
  | none => rw [dueCalls_of_idle hb, dueCalls_of_idle (hbatch.trans hb)]
  | some b =>
      rw [dueCalls_of_batch hb, dueCalls_of_batch (hbatch.trans hb)]
      refine List.countP_congr fun t ht => ?_
      have htaken : t ∈ s.taken := by
        rw [taken_of_batch hb]
        exact List.map_subset _ (hi.batch b hb).todo.subset ht
      rw [numbered, numbered, h t htaken]

/-- At most one call of a timer is due. -/
theorem Inv.dueCalls_le (hi : s.Inv) (n : Nat) : s.dueCalls n ≤ 1 := by
  cases hb : s.batch with
  | none =>
      rw [dueCalls_of_idle hb]
      exact Nat.zero_le 1
  | some b =>
      have hgood := hi.batch b hb
      have hnodup : (b.todo.map Entry.timer).Nodup :=
        (hgood.todo.sublist.map Entry.timer).nodup hgood.nodup
      rw [dueCalls_of_batch hb]
      by_cases hsome : ∃ t ∈ b.todo.map Entry.timer, numbered s.queue n t = true
      · -- it is the only one with this number
        obtain ⟨t, ht, hn⟩ := hsome
        have hcount : (b.todo.map Entry.timer).countP (numbered s.queue n) =
            (b.todo.map Entry.timer).count t := by
          refine List.countP_congr fun t' _ => ?_
          rw [beq_iff_eq]
          constructor
          · intro hn'
            simp only [numbered, beq_iff_eq, Option.map_eq_some_iff] at hn hn'
            obtain ⟨timer, hheap, rfl⟩ := hn
            obtain ⟨timer', hheap', heq⟩ := hn'
            exact hi.good.sequence _ _ _ _ hheap' hheap heq
          · rintro rfl
            exact hn
        rw [hcount]
        exact List.nodup_iff_count_le_one.mp hnodup t
      · rw [List.countP_eq_zero.mpr fun t ht hn => hsome ⟨t, ht, hn⟩]
        exact Nat.zero_le 1

/-- The calls of the timer numbered `n` in a list of calls. -/
def callsOf (n : Nat) (called : List Called) : Nat := called.countP fun r => r.timer.sequence == n

/-- An action that calls nothing makes no call of a timer. -/
theorem exists_later {n : Nat} (hcalled : s'.called = s.called)
    (hdue : s'.dueCalls n = s.dueCalls n) : ∃ later, s'.called = s.called ++ later ∧
      callsOf n later + s'.dueCalls n = s.dueCalls n := by
  refine ⟨[], hcalled.trans (List.append_nil _).symm, ?_⟩
  rw [callsOf, List.countP_nil, Nat.zero_add, hdue]

/-- **An action in a state with a canceled timer**: it stays canceled, and the calls of it that are
made are those that were due. -/
theorem Canceled.step {n : Nat} (hc : s.Canceled n) (hi : s.Inv) (hstep : Step s s') :
    s'.Canceled n ∧ ∃ later, s'.called = s.called ++ later ∧
      callsOf n later + s'.dueCalls n = s.dueCalls n := by
  obtain ⟨hn, hc⟩ := hc
  cases hstep with
  | @addTimer t when_ interval repeats hfree haddress hwhen =>
      refine ⟨⟨Nat.le_succ_of_le hn, fun t' timer ht heq => ?_⟩, exists_later rfl ?_⟩
      · -- a new timer has a number of its own
        rcases TimerQueue.of_update_some ht with ⟨-, rfl⟩ | ⟨-, ht⟩
        · exact absurd hn (by rw [← heq]; exact Nat.not_succ_le_self _)
        · exact hc t' timer ht heq
      · refine dueCalls_congr rfl (fun t' ht' => Function.update_of_ne ?_ _ _) hi
        rintro rfl
        exact hi.not_other_of_free hfree (.inr ht')
  | @addTimerInLoop t clock q hadding hq =>
      obtain ⟨timer, fd, hheap, rfl, -⟩ := hi.addTimerInLoop_eq hadding hq
      exact ⟨⟨hn, hc⟩, exists_later rfl (dueCalls_congr rfl (fun _ _ => rfl) hi)⟩
  | returnTimerId hreturning hderef =>
      exact ⟨⟨hn, hc⟩, exists_later rfl (dueCalls_congr rfl (fun _ _ => rfl) hi)⟩
  | @cancelInLoop t m q hq =>
      rcases hi.cancelInLoop_cases hq with ⟨timer, hheap, rfl, hmem, rfl⟩ | ⟨-, rfl⟩
      · refine ⟨⟨hn, fun t' timer' ht heq => hc t' timer' (TimerQueue.of_update_none ht).2 heq⟩,
          exists_later rfl ?_⟩
        -- what is deleted is in the queue, so the round has not taken it out
        refine dueCalls_congr rfl (fun t' ht' => Function.update_of_ne ?_ _ _) hi
        rintro rfl
        exact hi.good.not_mem (.inr ht') _ hmem
      · refine ⟨⟨hn, fun t' timer' ht heq => ?_⟩,
          exists_later rfl (dueCalls_congr rfl (fun _ _ => rfl) hi)⟩
        -- another cancellation is noted, and those noted before stay
        obtain ⟨htaken, hnoted⟩ := hc t' timer' ht heq
        refine ⟨htaken, ?_⟩
        show toLex (t', n) ∈ if s.queue.callingExpiredTimers then
          s.queue.cancelingTimers.insert (toLex (t, m)) else s.queue.cancelingTimers
        split
        · exact OrderedSet.mem_insert.mpr (.inr hnoted)
        · exact hnoted
  | @handleRead now readable expired q hidle hnow hq =>
      obtain ⟨rfl, ⟨activeTimers, fd, rfl⟩, -⟩ := hi.handleRead_eq hq
      -- between the rounds a canceled timer is not allocated
      have hgone : ∀ t timer, s.queue.heap t = some timer → timer.sequence ≠ n := by
        intro t timer ht heq
        have htaken := (hc t timer ht heq).1
        rw [taken_of_idle hidle] at htaken
        exact absurd htaken List.not_mem_nil
      refine ⟨⟨hn, fun t timer ht heq => absurd heq (hgone t timer ht)⟩, exists_later rfl ?_⟩
      rw [dueCalls_of_idle hidle, dueCalls_of_batch rfl, List.countP_eq_zero]
      intro t _ hnumbered
      simp only [numbered, beq_iff_eq, Option.map_eq_some_iff] at hnumbered
      obtain ⟨timer, ht, heq⟩ := hnumbered
      exact hgone t timer ht heq
  | @run now expired rest e timer hbatch hderef =>
      have hheap : s.queue.heap e.timer = some timer := TimerQueue.heap_of_deref hderef
      refine ⟨⟨hn, fun t timer ht heq => ?_⟩, [⟨timer, now⟩], rfl, ?_⟩
      · obtain ⟨htaken, hnoted⟩ := hc t timer ht heq
        rw [taken_of_batch hbatch] at htaken
        exact ⟨htaken, hnoted⟩
      · -- what is called is what was due
        have hnumbered : numbered s.queue n e.timer = (timer.sequence == n) := by
          rw [numbered, hheap]
          rfl
        rw [dueCalls_of_batch hbatch, dueCalls_of_batch rfl, List.map_cons, List.countP_cons,
          hnumbered, callsOf, List.countP_singleton, Nat.add_comm]
  | @reset now clock expired q hbatch hq =>
      obtain ⟨-, -, hkeep, hsettle, hsame⟩ := hi.reset_spec hbatch hq
      have hnum : q.numCreated = s.queue.numCreated := hsame.numCreated
      refine ⟨⟨hnum ▸ hn, fun t timer ht heq => ?_⟩, exists_later rfl ?_⟩
      · -- the round does not restart what is noted as canceled, and deletes it
        exfalso
        by_cases hin : t ∈ s.taken
        · obtain ⟨old, hold⟩ := hi.exists_timer (.inr hin)
          have hsettled := (hsettle t hin old hold).symm.trans ht
          rw [TimerQueue.settled] at hsettled
          split at hsettled
          · rename_i hrepeat
            cases hsettled
            rw [Timer.restart, if_pos hrepeat.1] at heq
            have hnoted := (hc t old hold heq).2
            rw [← heq] at hnoted
            exact hrepeat.2 hnoted
          · cases hsettled
        · exact hin (hc t timer ((hkeep t hin).symm.trans ht) heq).1
      · rw [dueCalls_of_idle rfl, dueCalls_of_batch hbatch]
        rfl

/-- A call of `addTimer` has returned this `TimerId`, or has passed the timer on that it is to be
for. -/
def Named (s : Timers) (t n : Nat) : Prop := (t, n) ∈ s.issued ∨ (t, n) ∈ s.returning

/-- An allocated timer was allocated before the action, or is a new one; and a `TimerId` is an old
one, or that of an allocated timer. -/
theorem Inv.heap_of_step (hi : s.Inv) (hstep : Step s s') :
    (s.queue.numCreated ≤ s'.queue.numCreated ∧
      (∀ t n, s'.Named t n → s.Named t n ∨
        ∃ timer, s.queue.heap t = some timer ∧ timer.sequence = n) ∧
      ∀ t timer, s'.queue.heap t = some timer →
        ∃ old, s.queue.heap t = some old ∧ old.sequence = timer.sequence) ∨
    ∃ t, s'.queue.numCreated = s.queue.numCreated + 1 ∧
      (∀ t' n, s'.Named t' n → t' = t ∧ n = s.queue.numCreated + 1 ∨ s.Named t' n) ∧
      ∀ t' timer, s'.queue.heap t' = some timer →
        t' = t ∧ timer.sequence = s.queue.numCreated + 1 ∨ s.queue.heap t' = some timer := by
  cases hstep with
  | @addTimer t when_ interval repeats hfree haddress hwhen =>
      refine .inr ⟨t, rfl, ?_, fun t' timer ht => ?_⟩
      · rintro t' n (hissued | hreturning)
        · exact .inr (.inl hissued)
        · rcases List.mem_cons.mp hreturning with heq | hreturning
          · exact .inl (Prod.mk.inj heq)
          · exact .inr (.inr hreturning)
      · rcases TimerQueue.of_update_some ht with ⟨rfl, rfl⟩ | ⟨-, ht⟩
        · exact .inl ⟨rfl, rfl⟩
        · exact .inr ht
  | @addTimerInLoop t clock q hadding hq =>
      -- nothing is allocated from here on; at most deleted, restarted or handed back
      obtain ⟨timer, fd, hheap, rfl, -⟩ := hi.addTimerInLoop_eq hadding hq
      exact .inl ⟨le_rfl, fun t n h => .inl h, fun t' timer ht => ⟨timer, ht, rfl⟩⟩
  | @returnTimerId t n timer hreturning hderef =>
      refine .inl ⟨le_rfl, ?_, fun t' timer ht => ⟨timer, ht, rfl⟩⟩
      rintro t' n' (hissued | hreturning')
      · rcases List.mem_cons.mp hissued with heq | hissued
        · cases heq
          exact .inr ⟨timer, TimerQueue.heap_of_deref hderef, rfl⟩
        · exact .inl (.inl hissued)
      · exact .inl (.inr (List.mem_of_mem_erase hreturning'))
  | @cancelInLoop t n q hq =>
      rcases hi.cancelInLoop_cases hq with ⟨timer, hheap, rfl, hmem, rfl⟩ | ⟨-, rfl⟩
      · exact .inl ⟨le_rfl, fun t n h => .inl h, fun t' timer ht =>
          ⟨timer, (TimerQueue.of_update_none ht).2, rfl⟩⟩
      · exact .inl ⟨le_rfl, fun t n h => .inl h, fun t' timer ht => ⟨timer, ht, rfl⟩⟩
  | @handleRead now readable expired q hidle hnow hq =>
      obtain ⟨rfl, ⟨activeTimers, fd, rfl⟩, -⟩ := hi.handleRead_eq hq
      exact .inl ⟨le_rfl, fun t n h => .inl h, fun t timer ht => ⟨timer, ht, rfl⟩⟩
  | run hbatch hderef =>
      exact .inl ⟨le_rfl, fun t n h => .inl h, fun t timer ht => ⟨timer, ht, rfl⟩⟩
  | @reset now clock expired q hbatch hq =>
      obtain ⟨-, -, hkeep, hsettle, hsame⟩ := hi.reset_spec hbatch hq
      have hnum : q.numCreated = s.queue.numCreated := hsame.numCreated
      refine .inl ⟨hnum.ge, fun t n h => .inl h, fun t timer ht => ?_⟩
      by_cases hin : t ∈ s.taken
      · obtain ⟨old, hold⟩ := hi.exists_timer (.inr hin)
        have hsettled := (hsettle t hin old hold).symm.trans ht
        rw [TimerQueue.settled] at hsettled
        split at hsettled
        · rename_i hrepeat
          cases hsettled
          rw [Timer.restart, if_pos hrepeat.1]
          exact ⟨old, hold, rfl⟩
        · cases hsettled
      · exact ⟨timer, (hkeep t hin).symm.trans ht, rfl⟩

/-- A `TimerId` belongs to one timer only. -/
def Issued (s : Timers) : Prop := ∀ t n, s.Named t n → n ≤ s.queue.numCreated ∧
  ∀ t' timer, s.queue.heap t' = some timer → timer.sequence = n → t' = t

/-- **Each step keeps the identifiers apart**: a number that was given to a timer is not that of a
timer at another address. -/
theorem Issued.step (hs : s.Issued) (hi : s.Inv) (hstep : Step s s') : s'.Issued := by
  intro t n hnamed
  rcases hi.heap_of_step hstep with ⟨hnum, hsame, hheap⟩ | ⟨t₀, hnum, hnew, hheap⟩
  · have hone : n ≤ s.queue.numCreated ∧
        ∀ t' timer, s.queue.heap t' = some timer → timer.sequence = n → t' = t := by
      rcases hsame t n hnamed with hnamed | ⟨timer, ht, rfl⟩
      · exact hs t n hnamed
      · exact ⟨(hi.good.address t timer ht).2.2, fun t' timer' ht' heq =>
          hi.good.sequence t' t timer' timer ht' ht heq⟩
    refine ⟨hone.1.trans hnum, fun t' timer ht heq => ?_⟩
    obtain ⟨old, hold, hsequence⟩ := hheap t' timer ht
    exact hone.2 t' old hold (hsequence.trans heq)
  · -- a timer has been allocated: its number is new, and all others are smaller
    rw [hnum]
    rcases hnew t n hnamed with ⟨rfl, rfl⟩ | hnamed
    · refine ⟨le_rfl, fun t' timer ht heq => ?_⟩
      rcases hheap t' timer ht with ⟨rfl, -⟩ | ht
      · rfl
      · have hle := (hi.good.address t' timer ht).2.2
        omega
    · obtain ⟨hn, hone⟩ := hs t n hnamed
      refine ⟨Nat.le_succ_of_le hn, fun t' timer ht heq => ?_⟩
      rcases hheap t' timer ht with ⟨-, hsequence⟩ | ht
      · omega
      · exact hone t' timer ht heq

/-- So does each run. -/
theorem Reachable.issued (h : s.Reachable) : s.Issued := by
  induction h with
  | refl => exact fun t n hnamed => absurd hnamed (by simp [Named, init])
  | tail hrun hstep ih => exact ih.step (Reachable.inv hrun) hstep

/-- `addTimerInLoop` is on its way for the timer numbered `n`. -/
def Adding (s : Timers) (n : Nat) : Prop :=
  ∃ t ∈ s.adding, ∃ timer, s.queue.heap t = some timer ∧ timer.sequence = n

/-- **To cancel a timer** that the loop has got. -/
theorem Inv.canceled (hi : s.Inv) (hs : s.Issued) {n : Nat} (hissued : (t, n) ∈ s.issued)
    (hadded : ¬ s.Adding n) (hq : s.queue.cancelInLoop t n = .ok q) :
    Canceled { s with queue := q } n := by
  obtain ⟨hn, hone⟩ := hs t n (.inl hissued)
  rcases hi.cancelInLoop_cases hq with ⟨timer, hheap, rfl, hmem, rfl⟩ | ⟨hactive, rfl⟩
  · -- it was active and is deleted; no other address has its number
    refine ⟨hn, fun t' timer' ht heq => ?_⟩
    obtain ⟨hne, ht⟩ := TimerQueue.of_update_none ht
    exact absurd (hone t' timer' ht heq) hne
  · refine ⟨hn, fun t' timer ht heq => ?_⟩
    obtain rfl := hone t' timer ht heq
    -- it is not in the sets, so `handleRead` has taken it out
    have hout : Entry.mk timer.expiration t' ∉ s.queue.timers := fun hmem =>
      hactive ((hi.good.active t' n).mpr ⟨timer, ht, heq, hmem⟩)
    rcases (hi.good.other t').mpr ⟨timer, ht, hout⟩ with hadding | htaken
    · exact absurd ⟨t', hadding, timer, ht, heq⟩ hadded
    · have hcalling : s.queue.callingExpiredTimers = true := by
        rw [hi.calling]
        cases hbatch : s.batch with
        | none =>
            rw [taken_of_idle hbatch] at htaken
            exact absurd htaken List.not_mem_nil
        | some b => rfl
      refine ⟨htaken, ?_⟩
      show toLex (t', n) ∈ if s.queue.callingExpiredTimers then
        s.queue.cancelingTimers.insert (toLex (t', n)) else s.queue.cancelingTimers
      rw [if_pos hcalling]
      exact OrderedSet.mem_insert.mpr (.inl rfl)

/-- **So does each run**: what is called later of a canceled timer is what was due when it was
canceled. -/
theorem Canceled.run {n : Nat} (hc : s.Canceled n) (hi : s.Inv)
    (hrun : Relation.ReflTransGen Step s s') :
    s'.Inv ∧ s'.Canceled n ∧ ∃ later, s'.called = s.called ++ later ∧
      callsOf n later + s'.dueCalls n = s.dueCalls n := by
  induction hrun with
  | refl => exact ⟨hi, hc, [], (List.append_nil _).symm, Nat.zero_add _⟩
  | tail _ hstep ih =>
      obtain ⟨hi', hc', later, hlater, hcount⟩ := ih
      obtain ⟨hc'', more, hmore, hcount'⟩ := hc'.step hi' hstep
      refine ⟨hi'.step hstep, hc'', later ++ more, ?_, ?_⟩
      · rw [hmore, hlater, List.append_assoc]
      · rw [callsOf, List.countP_append]
        rw [callsOf] at hcount hcount'
        omega

/-! ## Rounds -/

/-- An action that does not end the call of `handleRead` that is going on. -/
def Within (s s' : Timers) : Prop := Step s s' ∧ s'.batch ≠ none

/-- The calls of the timers that entries refer to. -/
def calls (q : TimerQueue) (now : Nat) (l : List Entry) : List Called :=
  l.filterMap fun e => (q.heap e.timer).map (⟨·, now⟩)

/-- The calls of two batches, one after the other. -/
theorem calls_append (q : TimerQueue) (now : Nat) (l l' : List Entry) :
    calls q now (l ++ l') = calls q now l ++ calls q now l' := List.filterMap_append

/-- How far a round has got that began in the state `s₀`. -/
structure Round (s₀ : Timers) (now : Nat) (expired : List Entry) (s : Timers) : Prop where
  batch : ∃ done rest, expired = done ++ rest ∧ s.batch = some ⟨now, expired, rest⟩ ∧
    s.called = s₀.called ++ calls s₀.queue now done
  heap : ∀ t ∈ expired.map Entry.timer, s.queue.heap t = s₀.queue.heap t

/-- The memory of the expired timers is not touched in a round. -/
theorem Inv.heap_within (hi : s.Inv) (hbatch : s.batch = some b) (hstep : Within s s')
    (ht : t ∈ s.taken) : s'.queue.heap t = s.queue.heap t := by
  obtain ⟨hstep, hsome⟩ := hstep
  cases hstep with
  | @addTimer t' when_ interval repeats hfree haddress hwhen =>
      refine Function.update_of_ne ?_ _ _
      rintro rfl
      exact hi.not_other_of_free hfree (.inr ht)
  | @addTimerInLoop t' clock q hadding hq =>
      obtain ⟨timer, fd, hheap, rfl, -⟩ := hi.addTimerInLoop_eq hadding hq
      rfl
  | returnTimerId hreturning hderef => rfl
  | @cancelInLoop t' n q hq =>
      rcases hi.cancelInLoop_cases hq with ⟨timer, hheap, rfl, hmem, rfl⟩ | ⟨-, rfl⟩
      · refine Function.update_of_ne ?_ _ _
        rintro rfl
        exact hi.good.not_mem (.inr ht) _ hmem
      · rfl
  | handleRead hidle hnow hq =>
      rw [hidle] at hbatch
      cases hbatch
  | run _ hderef => rfl
  | reset _ hq => exact absurd rfl hsome

/-- **Each step within a round keeps what the round has promised**, whichever thread makes it. -/
theorem Round.step {s₀ : Timers} {now : Nat} {expired : List Entry} (hr : Round s₀ now expired s)
    (hi : s.Inv) (hstep : Within s s') : Round s₀ now expired s' := by
  obtain ⟨⟨done, rest, hsplit, hbatch, hcalled⟩, hheap⟩ := hr
  have htaken : s.taken = expired.map Entry.timer := taken_of_batch hbatch
  refine ⟨?_, fun t ht =>
    (hi.heap_within hbatch hstep (htaken ▸ ht)).trans (hheap t ht)⟩
  obtain ⟨hstep, hsome⟩ := hstep
  cases hstep with
  | addTimer hfree haddress hwhen => exact ⟨done, rest, hsplit, hbatch, hcalled⟩
  | addTimerInLoop hadding hq => exact ⟨done, rest, hsplit, hbatch, hcalled⟩
  | returnTimerId hreturning hderef => exact ⟨done, rest, hsplit, hbatch, hcalled⟩
  | cancelInLoop hq => exact ⟨done, rest, hsplit, hbatch, hcalled⟩
  | handleRead hidle hnow hq =>
      rw [hidle] at hbatch
      cases hbatch
  | @run now' expired' rest' e timer hbatch' hderef =>
      rw [hbatch] at hbatch'
      cases hbatch'
      -- the round calls what the heap held when it began
      have hold : s₀.queue.heap e.timer = some timer := by
        rw [← hheap e.timer (hsplit ▸ List.mem_map_of_mem
          (List.mem_append_right _ List.mem_cons_self))]
        exact TimerQueue.heap_of_deref hderef
      have hcall : calls s₀.queue now [e] = [⟨timer, now⟩] := by
        rw [calls, List.filterMap_cons_some (by rw [hold]; rfl), List.filterMap_nil]
      refine ⟨done ++ [e], rest', ?_, rfl, ?_⟩
      · rw [hsplit, List.append_assoc]
        rfl
      · rw [calls_append, hcall, ← List.append_assoc, ← hcalled]
  | reset _ hq => exact absurd rfl hsome

/-- So do all steps up to its end. -/
theorem Round.run {s₀ : Timers} {now : Nat} {expired : List Entry} (hr : Round s₀ now expired s)
    (hi : s.Inv) (hrun : Relation.ReflTransGen Within s s') : Round s₀ now expired s' := by
  have hboth : Round s₀ now expired s' ∧ s'.Inv := by
    induction hrun with
    | refl => exact ⟨hr, hi⟩
    | tail _ hstep ih => exact ⟨ih.1.step ih.2 hstep, ih.2.step hstep.1⟩
  exact hboth.1

/-- Timers that the loop has got, and `handleRead` has not taken out, are in the queue. -/
theorem Inv.mem_timers (hi : s.Inv) (hheap : s.queue.heap t = some timer) (ht : t ∉ s.adding)
    (hout : t ∉ s.taken) : Entry.mk timer.expiration t ∈ s.queue.timers := by
  by_contra hnot
  rcases (hi.good.other t).mpr ⟨timer, hheap, hnot⟩ with h | h
  · exact ht h
  · exact hout h

/-- Between the rounds, the alarm is set. -/
theorem Reachable.armed (h : s.Reachable) (hidle : s.batch = none) : s.queue.Armed := by
  induction h with
  | refl => exact fun e he => absurd he OrderedSet.not_mem_empty
  | @tail s s' hrun hstep ih =>
      have hi := Reachable.inv hrun
      cases hstep with
      | addTimer hfree haddress hwhen => exact ih hidle
      | @addTimerInLoop t clock q hadding hq =>
          obtain ⟨timer, fd, hheap, rfl, harmed⟩ := hi.addTimerInLoop_eq hadding hq
          exact harmed (ih hidle)
      | returnTimerId hreturning hderef => exact ih hidle
      | @cancelInLoop t n q hq =>
          rcases hi.cancelInLoop_cases hq with ⟨timer, hheap, rfl, hmem, rfl⟩ | ⟨-, rfl⟩
          · exact fun e he => ih hidle e (OrderedSet.mem_erase.mp he).2
          · exact ih hidle
      | handleRead _ hnow hq => cases hidle
      | run hbatch hderef => cases hidle
      | @reset now clock expired q hbatch hq =>
          obtain ⟨harmed, -⟩ := hi.reset_spec hbatch hq
          exact harmed

/-! ## Results -/

/-- A loop with a timer that expires at 5, and then every 3 microseconds. It was added at 2. -/
def waiting : Timers where
  queue := { (TimerQueue.new.addTimer 8 5 3 true).put 8 ⟨5, 3, true, 1⟩ with
    timerfd := some ⟨2, 100⟩ }
  adding := []
  returning := []
  batch := none
  issued := [(8, 1)]
  called := []

/-- The timer has been added by the loop. -/
theorem waiting_reachable : waiting.Reachable := by
  let allocated : Timers :=
    ⟨TimerQueue.new.addTimer 8 5 3 true, [8], [(8, 1)], none, [], []⟩
  let queued : Timers := { waiting with returning := [(8, 1)], issued := [] }
  have hadd : Step init allocated := .addTimer rfl (by decide) (by decide)
  have hinsert : allocated.queue.addTimerInLoop 8 2 = .ok queued.queue := rfl
  have hadded : Step allocated queued := .addTimerInLoop List.mem_cons_self hinsert
  have hderef : queued.queue.deref 8 = .ok ⟨5, 3, true, 1⟩ := rfl
  have hreturned : Step queued waiting :=
    Step.returnTimerId (t := 8) (n := 1) List.mem_cons_self hderef
  exact .tail (.tail (.tail .refl hadd) hadded) hreturned

/-- In this loop, `handleRead` at 6 calls the timer. -/
def alarmed : Timers where
  queue := { waiting.queue with
    timers := .empty
    activeTimers := .empty
    callingExpiredTimers := true
    timerfd := none }
  adding := []
  returning := []
  batch := some ⟨6, [Entry.mk 5 8], [Entry.mk 5 8]⟩
  issued := [(8, 1)]
  called := []

/-- The loop reads the alarm at 6, when the timer is due. -/
theorem handleRead_waiting :
    waiting.queue.handleRead 6 true = .ok ([Entry.mk 5 8], alarmed.queue) := rfl

/-- A round has begun. -/
theorem alarmed_reachable : alarmed.Reachable :=
  .tail waiting_reachable (.handleRead rfl (by decide) handleRead_waiting)

/-- The timer has been called. -/
def rung : Timers :=
  { alarmed with batch := some ⟨6, [Entry.mk 5 8], []⟩, called := [⟨⟨5, 3, true, 1⟩, 6⟩] }

/-- It calls the timer. -/
theorem run_alarmed : Step alarmed rung := .run rfl rfl

/-- The timer has been called once. -/
theorem rung_reachable : rung.Reachable := .tail alarmed_reachable run_alarmed

/-- A cancellation in the middle of the round is noted, as the timer is not in the queue. -/
theorem cancelInLoop_alarmed : alarmed.queue.cancelInLoop 8 1 =
    .ok { alarmed.queue with cancelingTimers := OrderedSet.empty.insert (toLex (8, 1)) } := rfl

/-- **No assertion fails and the loop uses no deleted timer**, whatever timers are added and
canceled: every call that can come next succeeds. Every timer that is not deleted is in the queue,
on its way to it, or expired. What `addTimer` reads at last is right in the loop thread, and in
others iff the timer has not been deleted by then. -/
theorem timers_never_abort (h : s.Reachable) :
    (∀ t ∈ s.adding, ∀ clock, ∃ q, s.queue.addTimerInLoop t clock = .ok q) ∧
    (∀ t n, ∃ q, s.queue.cancelInLoop t n = .ok q) ∧
    (∀ now readable, ∃ r, s.queue.handleRead now readable = .ok r) ∧
    (∀ b, s.batch = some b → ∀ e ∈ b.todo, ∃ timer, s.queue.deref e.timer = .ok timer) ∧
    (∀ b, s.batch = some b → b.todo = [] → ∀ clock,
      ∃ q, { s.queue with callingExpiredTimers := false }.reset b.expired b.now clock = .ok q) ∧
    (∀ t timer, s.queue.heap t = some timer →
      Entry.mk timer.expiration t ∈ s.queue.timers ∨ t ∈ s.adding ∨ t ∈ s.taken) ∧
    (∀ t when_ interval repeats clock, s.queue.heap t = none → t < uintptrMax → 0 < when_ →
      ∃ q, (s.queue.addTimer t when_ interval repeats).addTimerInLoop t clock = .ok q ∧
        q.deref t = .ok ⟨when_, interval, repeats, s.queue.numCreated + 1⟩) ∧
    (∀ t n, (t, n) ∈ s.returning →
      ((∃ timer, s.queue.deref t = .ok timer ∧ timer.sequence = n) ↔
        ∃ t' timer, s.queue.heap t' = some timer ∧ timer.sequence = n)) := by
  have hi := h.inv
  refine ⟨fun t ht clock => ?_, fun t n => ?_, fun now readable => ?_, fun b hb e he => ?_,
    fun b hb htodo clock => ?_, fun t timer hheap => ?_,
    fun t when_ interval repeats clock hfree haddress hwhen => ?_, fun t n hreturning => ?_⟩
  · obtain ⟨timer, hheap⟩ := hi.exists_timer (.inl ht)
    obtain ⟨fd, hok, -⟩ := hi.good.addTimerInLoop (.inl ht) hheap clock
    exact ⟨_, hok⟩
  · rcases hi.good.cancelInLoop t n with ⟨timer, -, -, -, hok⟩ | ⟨-, hok⟩
    · exact ⟨_, hok⟩
    · exact ⟨_, hok⟩
  · obtain ⟨activeTimers, fd, hok, -⟩ := hi.good.handleRead now readable
    exact ⟨_, hok⟩
  · have htaken : e.timer ∈ s.taken := by
      rw [taken_of_batch hb]
      exact List.mem_map_of_mem ((hi.batch b hb).todo.subset he)
    obtain ⟨timer, hheap⟩ := hi.exists_timer (.inr htaken)
    exact ⟨timer, TimerQueue.deref_of_heap hheap⟩
  · obtain ⟨now, expired, todo⟩ := b
    obtain rfl : todo = [] := htodo
    obtain ⟨q, hok, -⟩ := hi.exists_reset hb clock
    exact ⟨q, hok⟩
  · by_cases hmem : Entry.mk timer.expiration t ∈ s.queue.timers
    · exact .inl hmem
    · exact .inr ((hi.good.other t).mpr ⟨timer, hheap, hmem⟩)
  · -- it is the timer that has just been allocated
    have hadded : Inv { s with
        queue := s.queue.addTimer t when_ interval repeats
        adding := t :: s.adding
        returning := (t, s.queue.numCreated + 1) :: s.returning } :=
      hi.addTimer hfree haddress hwhen
    have hheap : (s.queue.addTimer t when_ interval repeats).heap t =
        some ⟨when_, interval, repeats, s.queue.numCreated + 1⟩ := Function.update_self _ _ _
    obtain ⟨fd, hok, -⟩ := hadded.good.addTimerInLoop (.inl List.mem_cons_self) hheap clock
    exact ⟨_, hok, TimerQueue.deref_of_heap hheap⟩
  · constructor
    · rintro ⟨timer, hderef, hn⟩
      exact ⟨t, timer, TimerQueue.heap_of_deref hderef, hn⟩
    · rintro ⟨t', timer, hheap, hn⟩
      obtain rfl := (h.issued t n (.inr hreturning)).2 t' timer hheap hn
      exact ⟨timer, TimerQueue.deref_of_heap hheap, hn⟩

/-- In the middle of a round, with its timer called and not put back. -/
theorem timers_never_abort_rung :
    (∀ t ∈ rung.adding, ∀ clock, ∃ q, rung.queue.addTimerInLoop t clock = .ok q) ∧
    (∀ t n, ∃ q, rung.queue.cancelInLoop t n = .ok q) ∧
    (∀ now readable, ∃ r, rung.queue.handleRead now readable = .ok r) ∧
    (∀ b, rung.batch = some b → ∀ e ∈ b.todo,
      ∃ timer, rung.queue.deref e.timer = .ok timer) ∧
    (∀ b, rung.batch = some b → b.todo = [] → ∀ clock,
      ∃ q, { rung.queue with callingExpiredTimers := false }.reset b.expired b.now clock =
        .ok q) ∧
    (∀ t timer, rung.queue.heap t = some timer →
      Entry.mk timer.expiration t ∈ rung.queue.timers ∨ t ∈ rung.adding ∨ t ∈ rung.taken) ∧
    (∀ t when_ interval repeats clock, rung.queue.heap t = none → t < uintptrMax → 0 < when_ →
      ∃ q, (rung.queue.addTimer t when_ interval repeats).addTimerInLoop t clock = .ok q ∧
        q.deref t = .ok ⟨when_, interval, repeats, rung.queue.numCreated + 1⟩) ∧
    (∀ t n, (t, n) ∈ rung.returning →
      ((∃ timer, rung.queue.deref t = .ok timer ∧ timer.sequence = n) ↔
        ∃ t' timer, rung.queue.heap t' = some timer ∧ timer.sequence = n)) :=
  timers_never_abort rung_reachable

/-- A timer has been added, called and deleted before `addTimer` reads its number. -/
theorem addTimer_reads_deleted : ∃ s : Timers, s.Reachable ∧
    ∃ t n, (t, n) ∈ s.returning ∧ s.queue.deref t = .error .abort := by
  let q₀ : TimerQueue := TimerQueue.new.addTimer 8 5 0 false
  let q₁ : TimerQueue := (q₀.addTimerInLoop 8 2).toOption.getD q₀
  let q₂ : TimerQueue := ((q₁.handleRead 6 true).toOption.map Prod.snd).getD q₁
  let calledQueue : TimerQueue := { q₂ with callingExpiredTimers := false }
  let q₃ : TimerQueue := (calledQueue.reset [Entry.mk 5 8] 6 7).toOption.getD q₂
  let call : Called := ⟨⟨5, 0, false, 1⟩, 6⟩
  have hinsert : q₀.addTimerInLoop 8 2 = .ok q₁ := rfl
  have hread : q₁.handleRead 6 true = .ok ([Entry.mk 5 8], q₂) := rfl
  have hderef : q₂.deref 8 = .ok call.timer := rfl
  have hreset : calledQueue.reset [Entry.mk 5 8] 6 7 = .ok q₃ := rfl
  have hadd : Reachable ⟨q₀, [8], [(8, 1)], none, [], []⟩ :=
    .tail .refl (.addTimer rfl (by decide) (by decide))
  have hadded : Reachable ⟨q₁, [], [(8, 1)], none, [], []⟩ :=
    hadd.tail (Step.addTimerInLoop (t := 8) List.mem_cons_self hinsert)
  have hbegun : Reachable ⟨q₂, [], [(8, 1)], some ⟨6, [Entry.mk 5 8], [Entry.mk 5 8]⟩, [], []⟩ :=
    hadded.tail (.handleRead rfl (by decide) hread)
  have hcalled : Reachable ⟨q₂, [], [(8, 1)], some ⟨6, [Entry.mk 5 8], []⟩, [], [call]⟩ :=
    hbegun.tail (.run rfl hderef)
  -- it does not repeat, so `reset` deletes it, with `addTimer` still to read its number
  have hdone : Reachable ⟨q₃, [], [(8, 1)], none, [], [call]⟩ :=
    hcalled.tail (.reset rfl hreset)
  exact ⟨_, hdone, 8, 1, List.mem_cons_self, rfl⟩

/-- **Timers are called when they are due**: never in a round that begins before they expire, a
timer that does not repeat once at most, and a repeating one never in a round that begins sooner
than an interval after the one of its last call. -/
theorem timers_called_when_due (h : s.Reachable) :
    (∀ r ∈ s.called, r.timer.expiration ≤ r.round) ∧
    s.called.Pairwise fun r r' => r.timer.sequence = r'.timer.sequence →
      r.timer.repeats = true ∧ r.round + r.timer.interval ≤ r'.round :=
  ⟨fun r hr => (h.history.called r hr).2, h.history.spaced⟩

/-- The one call was made in a round that began at the timer's time or later. -/
theorem timers_called_when_due_rung :
    (∀ r ∈ rung.called, r.timer.expiration ≤ r.round) ∧
    rung.called.Pairwise fun r r' => r.timer.sequence = r'.timer.sequence →
      r.timer.repeats = true ∧ r.round + r.timer.interval ≤ r'.round :=
  timers_called_when_due rung_reachable

/-- **A canceled timer is not called any more**. If expired timers are being called, and this is one
of them that has not been called, then it may still be, once. -/
theorem canceled_not_called (h : s.Reachable) {n : Nat} (hissued : (t, n) ∈ s.issued)
    (hadded : ¬ s.Adding n) (hq : s.queue.cancelInLoop t n = .ok q)
    (hrun : Relation.ReflTransGen Step { s with queue := q } s') :
    ∃ later, s'.called = s.called ++ later ∧ callsOf n later ≤ s.dueCalls n ∧
      s.dueCalls n ≤ 1 := by
  have hi := h.inv
  have hc := hi.canceled h.issued hissued hadded hq
  have hi' := hi.cancelInLoop hq
  obtain ⟨-, -, later, hlater, hcount⟩ := hc.run hi' hrun
  refine ⟨later, hlater, ?_, hi.dueCalls_le n⟩
  have hdue : Timers.dueCalls { s with queue := q } n ≤ s.dueCalls n := by
    rcases hi.cancelInLoop_cases hq with ⟨timer, hheap, rfl, hmem, rfl⟩ | ⟨-, rfl⟩
    · have hkeep : ∀ t' ∈ s.taken,
          (s.queue.drop t timer.sequence timer).heap t' = s.queue.heap t' := by
        intro t' ht'
        refine Function.update_of_ne ?_ _ _
        rintro rfl
        exact hi.good.not_mem (.inr ht') _ hmem
      exact Nat.le_of_eq (dueCalls_congr rfl hkeep hi)
    · exact Nat.le_of_eq (dueCalls_congr rfl (fun _ _ => rfl) hi)
  omega

/-- The timer is canceled while it is to be called. -/
theorem canceled_not_called_alarmed :
    ∃ later, [⟨⟨5, 3, true, 1⟩, 6⟩] = alarmed.called ++ later ∧
      callsOf 1 later ≤ alarmed.dueCalls 1 ∧ alarmed.dueCalls 1 ≤ 1 := by
  have hrun : Step
      { alarmed with queue := { alarmed.queue with
          cancelingTimers := OrderedSet.empty.insert (toLex (8, 1)) } }
      { rung with queue := { alarmed.queue with
          cancelingTimers := OrderedSet.empty.insert (toLex (8, 1)) } } := .run rfl rfl
  have hadded : ¬ alarmed.Adding 1 := by
    rintro ⟨t, ht, -⟩
    exact absurd ht List.not_mem_nil
  exact canceled_not_called alarmed_reachable (t := 8) List.mem_cons_self hadded
    cancelInLoop_alarmed (.single hrun)

/-- **No timer is overslept**: between the rounds, the alarm is set for a time that is not after the
expiration of any timer of the loop, or that is 100 microseconds after it was set. -/
theorem timers_armed (h : s.Reachable) (hidle : s.batch = none)
    (hheap : s.queue.heap t = some timer) (ht : t ∉ s.adding) :
    ∃ alarm, s.queue.timerfd = some alarm ∧
      alarm.setAt + alarm.delay ≤ max timer.expiration (alarm.setAt + 100) := by
  have hmem := h.inv.mem_timers hheap ht (by rw [taken_of_idle hidle]; exact List.not_mem_nil)
  exact h.armed hidle _ hmem

/-- The alarm for a timer that was added when it was nearly due: it rings late by the least
delay. -/
theorem timers_armed_waiting : ∃ alarm, waiting.queue.timerfd = some alarm ∧
    alarm.setAt + alarm.delay ≤ max 5 (alarm.setAt + 100) :=
  timers_armed waiting_reachable rfl
    (show waiting.queue.heap 8 = some ⟨5, 3, true, 1⟩ from rfl) List.not_mem_nil

/-- **A round calls every timer that is due**, once, and in the order of time, whatever is added and
canceled meanwhile. -/
theorem round_calls_due (h : s.Reachable) (hidle : s.batch = none) {now : Nat} {readable : Bool}
    {expired : List Entry} (hnow : 0 < now)
    (hq : s.queue.handleRead now readable = .ok (expired, q))
    (hrun : Relation.ReflTransGen Within
      { s with queue := q, batch := some ⟨now, expired, expired⟩ } s')
    (hb : s'.batch = some b) (htodo : b.todo = []) :
    ∃ due : List Timer, s'.called = s.called ++ due.map (⟨·, now⟩) ∧
      (∀ timer, timer ∈ due ↔
        ∃ t, t ∉ s.adding ∧ s.queue.heap t = some timer ∧ timer.expiration ≤ now) ∧
      due.Pairwise fun timer timer' =>
        timer.expiration ≤ timer'.expiration ∧ timer.sequence ≠ timer'.sequence := by
  have hi := h.inv
  have hstart := hi.handleRead hidle hnow hq
  obtain ⟨rfl, hkeep⟩ : expired = s.queue.timers.before (TimerQueue.sentry now) ∧
      q.heap = s.queue.heap := by
    obtain ⟨rfl, ⟨activeTimers, fd, rfl⟩, -⟩ := hi.handleRead_eq hq
    exact ⟨rfl, rfl⟩
  have hbegin : Round s now (s.queue.timers.before (TimerQueue.sentry now))
      { s with queue := q, batch := some ⟨now, _, _⟩ } :=
    ⟨⟨[], _, rfl, rfl, (List.append_nil _).symm⟩, fun t _ => congrFun hkeep t⟩
  obtain ⟨done, rest, hsplit, hbatch, hcalled⟩ := (hbegin.run hstart hrun).batch
  rw [hbatch] at hb
  cases hb
  obtain rfl : rest = [] := htodo
  rw [List.append_nil] at hsplit
  -- an entry has the time of its timer, so the order of the set is that of the times
  have hwhen : ∀ e ∈ s.queue.timers.before (TimerQueue.sentry now), ∀ timer,
      s.queue.heap e.timer = some timer → timer.expiration = e.when_ := by
    intro e he timer hheap
    obtain ⟨timer', hheap', hwhen⟩ := hi.good.entry e (OrderedSet.mem_before.mp he).2
    rw [hheap] at hheap'
    cases hheap'
    exact hwhen
  refine ⟨(s.queue.timers.before (TimerQueue.sentry now)).filterMap fun e => s.queue.heap e.timer,
    ?_, fun timer => ?_, ?_⟩
  · rw [hcalled, ← hsplit, List.map_filterMap]
    rfl
  · rw [List.mem_filterMap]
    constructor
    · rintro ⟨e, he, hheap⟩
      -- what is taken out was in the queue, and not on its way to it
      refine ⟨e.timer, fun hadding => ?_, hheap, hi.good.le_of_before he hheap⟩
      exact hi.good.not_mem (.inl hadding) e.when_ (OrderedSet.mem_before.mp he).2
    · rintro ⟨t, ht, hheap, hle⟩
      have hmem := hi.mem_timers hheap ht
        (by rw [taken_of_idle hidle]; exact List.not_mem_nil)
      have haddress : (Entry.mk timer.expiration t).timer < uintptrMax :=
        (hi.good.address _ _ hheap).1
      refine ⟨Entry.mk timer.expiration t, OrderedSet.mem_before.mpr ⟨?_, hmem⟩, hheap⟩
      rw [← not_le, TimerQueue.sentry_le_iff haddress, not_lt]
      exact hle
  · rw [List.pairwise_filterMap]
    refine (OrderedSet.sorted_before).imp_of_mem fun {e e'} he he' hlt => ?_
    intro timer hheap timer' hheap'
    constructor
    · rw [hwhen e he timer hheap, hwhen e' he' timer' hheap']
      exact Entry.when_le_of_le hlt.le
    · intro heq
      -- equal numbers are one timer, which the set holds once
      have hsame := hi.good.sequence _ _ _ _ hheap hheap' heq
      have heq := hi.good.eq_of_timer_eq (OrderedSet.mem_before.mp he).2
        (OrderedSet.mem_before.mp he').2 hsame
      exact absurd hlt (heq ▸ lt_irrefl e)

/-- The round of the one timer that is due. -/
theorem round_calls_due_waiting :
    ∃ due : List Timer, rung.called = waiting.called ++ due.map (⟨·, 6⟩) ∧
      (∀ timer, timer ∈ due ↔
        ∃ t, t ∉ waiting.adding ∧ waiting.queue.heap t = some timer ∧ timer.expiration ≤ 6) ∧
      due.Pairwise fun timer timer' =>
        timer.expiration ≤ timer'.expiration ∧ timer.sequence ≠ timer'.sequence :=
  round_calls_due waiting_reachable rfl (by decide) handleRead_waiting
    (.single ⟨run_alarmed, Option.some_ne_none _⟩) rfl rfl

end Timers

end Muduo

end FastCgi
