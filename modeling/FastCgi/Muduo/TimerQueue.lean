import Mathlib.Data.Prod.Lex
import FastCgi.Assoc.OrderedSet
import FastCgi.Muduo.Poller

/-! # The timers of an `EventLoop`

A `TimerQueue` keeps the timers of a loop in `timers_`, by the time at which they expire, and once
more in `activeTimers_`, by address and sequence number, so that they can be canceled. When the
timer descriptor alarms, `handleRead` takes the expired timers out, calls them, and then puts the
repeating ones back and deletes the others. What a callback cancels meanwhile is noted in
`cancelingTimers_`.

Timers are allocated and deleted: an address can belong to one timer after the other, and to use one
that no timer has is an error. -/

namespace FastCgi

namespace Muduo

open Assoc

/-- A `Timer`, without its callback. Times are in microseconds. -/
structure Timer where
  expiration : Nat
  interval : Nat
  /-- `repeat_`: the interval is positive, even if it is less than a microsecond. -/
  repeats : Bool
  sequence : Nat
  deriving DecidableEq, Repr

/-- `Timer::restart`. -/
def Timer.restart (timer : Timer) (now : Nat) : Timer :=
  if timer.repeats then { timer with expiration := now + timer.interval }
  else { timer with expiration := 0 }

/-- `TimerQueue::Entry`: a time and the address of a timer. -/
abbrev Entry := Nat ×ₗ Nat

namespace Entry

def mk (when_ timer : Nat) : Entry := toLex (when_, timer)

/-- `first`. -/
def when_ (e : Entry) : Nat := (ofLex e).1

/-- `second`. -/
def timer (e : Entry) : Nat := (ofLex e).2

@[simp] theorem when_mk (w t : Nat) : (mk w t).when_ = w := rfl

@[simp] theorem timer_mk (w t : Nat) : (mk w t).timer = t := rfl

@[simp] theorem mk_when_timer (e : Entry) : mk e.when_ e.timer = e := rfl

theorem mk_inj {w w' t t' : Nat} : mk w t = mk w' t' ↔ w = w' ∧ t = t' := by
  rw [mk, mk, toLex.injective.eq_iff, Prod.mk.injEq]

theorem lt_iff {e e' : Entry} :
    e < e' ↔ e.when_ < e'.when_ ∨ e.when_ = e'.when_ ∧ e.timer < e'.timer := Prod.Lex.lt_iff

theorem when_le_of_le {e e' : Entry} (h : e ≤ e') : e.when_ ≤ e'.when_ := by
  rcases Prod.Lex.le_iff.mp h with hlt | ⟨heq, -⟩
  · exact hlt.le
  · exact heq.le

end Entry

/-- `UINTPTR_MAX`. -/
def uintptrMax : Nat := 2 ^ 64 - 1

/-- `howMuchTimeFromNow`, when the clock says `clock`: it is not less than 100 microseconds, also
for a time that is over. -/
def howMuchTimeFromNow (when_ clock : Nat) : Nat :=
  let microseconds : Int := when_ - clock
  if microseconds < 100 then 100 else microseconds.toNat

theorem add_howMuchTimeFromNow (when_ clock : Nat) :
    clock + howMuchTimeFromNow when_ clock = max when_ (clock + 100) := by
  rw [howMuchTimeFromNow]
  split <;> omega

/-- What `timerfd_` has been set to: it goes off `delay` microseconds later. -/
structure Alarm where
  /-- What the clock said when it was set. -/
  setAt : Nat
  delay : Nat
  deriving DecidableEq, Repr

/-- The data members of `TimerQueue`, with what they refer to. -/
structure TimerQueue where
  timers : OrderedSet Entry
  activeTimers : OrderedSet (Nat ×ₗ Nat)
  callingExpiredTimers : Bool
  cancelingTimers : OrderedSet (Nat ×ₗ Nat)
  /-- The timers that are allocated, by address. -/
  heap : Nat → Option Timer
  /-- `Timer::s_numCreated_`. -/
  numCreated : Nat
  /-- What `timerfd_` has been set to, until its alarm is read. -/
  timerfd : Option Alarm

namespace TimerQueue

/-- A new queue. -/
def new : TimerQueue := ⟨.empty, .empty, false, .empty, fun _ => none, 0, none⟩

variable (q : TimerQueue)

/-- The timer at an address. -/
def deref (t : Nat) : Except Failure Timer :=
  match q.heap t with
  | some timer => .ok timer
  | none => .error .abort

/-- `resetTimerfd`, when the clock says `clock`. -/
def resetTimerfd (expiration clock : Nat) : TimerQueue :=
  { q with timerfd := some ⟨clock, howMuchTimeFromNow expiration clock⟩ }

/-- `addTimer`, up to the call of `addTimerInLoop`: a new `Timer` at the address `t`. -/
def addTimer (t when_ interval : Nat) (repeats : Bool) : TimerQueue := { q with
  heap := Function.update q.heap t (some ⟨when_, interval, repeats, q.numCreated + 1⟩)
  numCreated := q.numCreated + 1 }

/-- `insert`: whether the earliest time changed. -/
def insert (t : Nat) : Except Failure (Bool × TimerQueue) := do
  assert (q.timers.card = q.activeTimers.card)
  let timer ← q.deref t
  let earliestChanged := match q.timers.first? with
    | none => true
    | some e => decide (timer.expiration < e.when_)
  assert (Entry.mk timer.expiration t ∉ q.timers)
  assert (toLex (t, timer.sequence) ∉ q.activeTimers)
  let q := { q with
    timers := q.timers.insert (Entry.mk timer.expiration t)
    activeTimers := q.activeTimers.insert (toLex (t, timer.sequence)) }
  assert (q.timers.card = q.activeTimers.card)
  return (earliestChanged, q)

/-- `addTimerInLoop`, when the clock says `clock`. -/
def addTimerInLoop (t clock : Nat) : Except Failure TimerQueue := do
  let (earliestChanged, q) ← q.insert t
  if earliestChanged then
    let timer ← q.deref t
    return q.resetTimerfd timer.expiration clock
  else return q

/-- `cancelInLoop`, for a `TimerId`. -/
def cancelInLoop (t sequence : Nat) : Except Failure TimerQueue := do
  assert (q.timers.card = q.activeTimers.card)
  if toLex (t, sequence) ∈ q.activeTimers then
    let timer ← q.deref t
    assert (Entry.mk timer.expiration t ∈ q.timers)
    let q := { q with
      timers := q.timers.erase (Entry.mk timer.expiration t)
      heap := Function.update q.heap t none
      activeTimers := q.activeTimers.erase (toLex (t, sequence)) }
    assert (q.timers.card = q.activeTimers.card)
    return q
  else
    let q := if q.callingExpiredTimers then
        { q with cancelingTimers := q.cancelingTimers.insert (toLex (t, sequence)) }
      else q
    assert (q.timers.card = q.activeTimers.card)
    return q

/-- An expired timer is no longer active. -/
def deactivate (q : TimerQueue) (e : Entry) : Except Failure TimerQueue := do
  let timer ← q.deref e.timer
  assert (toLex (e.timer, timer.sequence) ∈ q.activeTimers)
  return { q with activeTimers := q.activeTimers.erase (toLex (e.timer, timer.sequence)) }

/-- The entry behind all that have expired. -/
def sentry (now : Nat) : Entry := Entry.mk now uintptrMax

/-- `getExpired`. -/
def getExpired (now : Nat) : Except Failure (List Entry × TimerQueue) := do
  assert (q.timers.card = q.activeTimers.card)
  let expired := q.timers.before (sentry now)
  let timers := q.timers.since (sentry now)
  match timers.first? with
    | none => pure ()
    | some e => assert (now < e.when_)
  let q ← expired.foldlM deactivate { q with timers }
  assert (q.timers.card = q.activeTimers.card)
  return (expired, q)

/-- `handleRead`, up to the calls of the expired timers. If the descriptor cannot be read after all,
that is logged. -/
def handleRead (now : Nat) (readable : Bool) : Except Failure (List Entry × TimerQueue) := do
  let q := if readable then { q with timerfd := none } else q
  let (expired, q) ← q.getExpired now
  return (expired, { q with callingExpiredTimers := true, cancelingTimers := .empty })

/-- What `reset` does with one expired timer. -/
def resetOne (now : Nat) (q : TimerQueue) (e : Entry) : Except Failure TimerQueue := do
  let timer ← q.deref e.timer
  if timer.repeats ∧ toLex (e.timer, timer.sequence) ∉ q.cancelingTimers then
    let q := { q with heap := Function.update q.heap e.timer (some (timer.restart now)) }
    let (_, q) ← q.insert e.timer
    return q
  else return { q with heap := Function.update q.heap e.timer none }

/-- `reset`, after the calls: `now` is what the clock said when the timers were taken out, and
`clock` what it says when the alarm is set. -/
def reset (expired : List Entry) (now clock : Nat) : Except Failure TimerQueue := do
  let q ← expired.foldlM (resetOne now) q
  match q.timers.first? with
  | none => return q
  | some e => do
    let timer ← q.deref e.timer
    return if 0 < timer.expiration then q.resetTimerfd timer.expiration clock else q

/-! ## What the operations do -/

/-- The state of a queue. Every timer that is allocated is either in the two sets or in other hands,
with its entry as its time says; and no two have the same sequence number. -/
structure Good (q : TimerQueue) (other : Nat → Prop) : Prop where
  entry : ∀ e ∈ q.timers, ∃ timer, q.heap e.timer = some timer ∧ timer.expiration = e.when_
  active : ∀ t n, toLex (t, n) ∈ q.activeTimers ↔ ∃ timer, q.heap t = some timer ∧
    timer.sequence = n ∧ Entry.mk timer.expiration t ∈ q.timers
  other : ∀ t, other t ↔
    ∃ timer, q.heap t = some timer ∧ Entry.mk timer.expiration t ∉ q.timers
  address : ∀ t timer, q.heap t = some timer →
    t < uintptrMax ∧ 0 < timer.expiration ∧ timer.sequence ≤ q.numCreated
  sequence : ∀ t t' timer timer', q.heap t = some timer → q.heap t' = some timer' →
    timer.sequence = timer'.sequence → t = t'

variable {q} {other other' : Nat → Prop} {t : Nat} {timer : Timer}

theorem heap_of_deref (h : q.deref t = .ok timer) : q.heap t = some timer := by
  rw [deref] at h
  split at h
  · rename_i timer' hheap
    rw [hheap, Except.ok.inj h]
  · cases h

theorem deref_of_heap (h : q.heap t = some timer) : q.deref t = .ok timer := by
  rw [deref, h]

theorem good_new : new.Good fun _ => False where
  entry e he := absurd he OrderedSet.not_mem_empty
  active t n := by simp [new]
  other t := by simp [new]
  address t timer h := by cases h
  sequence t t' timer timer' h := by cases h

theorem Good.congr (hg : q.Good other) (h : ∀ t, other' t ↔ other t) : q.Good other' where
  entry := hg.entry
  active := hg.active
  other t := (h t).trans (hg.other t)
  address := hg.address
  sequence := hg.sequence

/-- Entries have different addresses. -/
theorem Good.eq_of_timer_eq (hg : q.Good other) {e e' : Entry} (he : e ∈ q.timers)
    (he' : e' ∈ q.timers) (h : e.timer = e'.timer) : e = e' := by
  obtain ⟨timer, hheap, hwhen⟩ := hg.entry e he
  obtain ⟨timer', hheap', hwhen'⟩ := hg.entry e' he'
  rw [← h, hheap] at hheap'
  obtain rfl := Option.some.inj hheap'
  rw [← e.mk_when_timer, ← e'.mk_when_timer, h, ← hwhen, ← hwhen']

/-- The sets are equally large, as the assertions say. -/
theorem Good.card_eq (hg : q.Good other) : q.timers.card = q.activeTimers.card := by
  refine OrderedSet.card_eq_of_map
    (fun e => toLex (e.timer, ((q.heap e.timer).map Timer.sequence).getD 0)) ?_ ?_
  · intro e he e' he' heq
    exact hg.eq_of_timer_eq he he' (congrArg (fun x => (ofLex x).1) heq)
  · intro y
    obtain ⟨⟨t, n⟩, rfl⟩ := toLex.surjective y
    rw [hg.active]
    constructor
    · rintro ⟨timer, hheap, rfl, hmem⟩
      exact ⟨_, hmem, by simp [hheap]⟩
    · rintro ⟨e, he, heq⟩
      obtain ⟨timer, hheap, hwhen⟩ := hg.entry e he
      simp only [hheap, Option.map_some, Option.getD_some, EmbeddingLike.apply_eq_iff_eq,
        Prod.mk.injEq] at heq
      obtain ⟨rfl, rfl⟩ := heq
      refine ⟨timer, hheap, rfl, ?_⟩
      rw [hwhen]
      exact he

/-- A timer in other hands has no entry. -/
theorem Good.not_mem (hg : q.Good other) (ht : other t) (w : Nat) : Entry.mk w t ∉ q.timers := by
  intro hmem
  obtain ⟨timer, hheap, hnot⟩ := (hg.other t).mp ht
  obtain ⟨timer', hheap', hwhen⟩ := hg.entry _ hmem
  rw [Entry.timer_mk, hheap] at hheap'
  obtain rfl := Option.some.inj hheap'
  rw [Entry.when_mk] at hwhen
  exact hnot (hwhen ▸ hmem)

/-- The queue with a timer in both sets. -/
def put (q : TimerQueue) (t : Nat) (timer : Timer) : TimerQueue := { q with
  timers := q.timers.insert (Entry.mk timer.expiration t)
  activeTimers := q.activeTimers.insert (toLex (t, timer.sequence)) }

theorem Good.put (hg : q.Good other) (ht : other t) (hheap : q.heap t = some timer) :
    (q.put t timer).Good fun t' => other t' ∧ t' ≠ t where
  entry e he := by
    rcases OrderedSet.mem_insert.mp he with rfl | he
    · exact ⟨timer, hheap, rfl⟩
    · exact hg.entry e he
  active t' n := by
    rw [TimerQueue.put, OrderedSet.mem_insert, hg.active]
    simp only [EmbeddingLike.apply_eq_iff_eq, Prod.mk.injEq, OrderedSet.mem_insert, Entry.mk_inj]
    constructor
    · rintro (⟨rfl, rfl⟩ | ⟨timer', hheap', hn, hmem⟩)
      · exact ⟨timer, hheap, rfl, .inl ⟨rfl, rfl⟩⟩
      · exact ⟨timer', hheap', hn, .inr hmem⟩
    · rintro ⟨timer', hheap', rfl, ⟨-, rfl⟩ | hmem⟩
      · rw [hheap] at hheap'
        obtain rfl := Option.some.inj hheap'
        exact .inl ⟨rfl, rfl⟩
      · exact .inr ⟨timer', hheap', rfl, hmem⟩
  other t' := by
    rw [hg.other t']
    simp only [TimerQueue.put, OrderedSet.mem_insert, Entry.mk_inj, not_or, not_and]
    constructor
    · rintro ⟨⟨timer', hheap', hnot⟩, hne⟩
      exact ⟨timer', hheap', fun _ => hne, hnot⟩
    · rintro ⟨timer', hheap', hne, hnot⟩
      refine ⟨⟨timer', hheap', hnot⟩, ?_⟩
      rintro rfl
      rw [hheap] at hheap'
      obtain rfl := Option.some.inj hheap'
      exact hne rfl rfl
  address := hg.address
  sequence := hg.sequence

/-- `insert` puts a timer in other hands into the sets. -/
theorem Good.insert (hg : q.Good other) (ht : other t) (hheap : q.heap t = some timer) :
    ∃ changed, q.insert t = .ok (changed, q.put t timer) ∧
      (changed = true ↔ ∀ e ∈ q.timers, timer.expiration < e.when_) := by
  have hderef := deref_of_heap hheap
  have hnot := hg.not_mem ht timer.expiration
  -- a timer in other hands is in neither set, so both assertions on the insertions hold
  have hactive : toLex (t, timer.sequence) ∉ q.activeTimers := by
    rw [hg.active]
    rintro ⟨timer', -, -, hmem⟩
    exact hg.not_mem ht _ hmem
  have hcard : (q.timers.insert (Entry.mk timer.expiration t)).card =
      (q.activeTimers.insert (toLex (t, timer.sequence))).card := (hg.put ht hheap).card_eq
  refine ⟨match q.timers.first? with
    | none => true
    | some e => decide (timer.expiration < e.when_), ?_, ?_⟩
  · rw [TimerQueue.insert, assert_ok hg.card_eq]
    simp only [bind, Except.bind, hderef]
    rw [assert_ok hnot, assert_ok hactive]
    dsimp only
    rw [assert_ok hcard]
    rfl
  · cases hfirst : q.timers.first? with
    | none =>
        have hempty := OrderedSet.first?_eq_none_iff.mp hfirst
        simp only [true_iff]
        exact fun e he => absurd he (hempty e)
    | some e =>
        obtain ⟨hmem, hle⟩ := OrderedSet.first?_eq_some_iff.mp hfirst
        simp only [decide_eq_true_eq]
        exact ⟨fun hlt e' he' => lt_of_lt_of_le hlt (Entry.when_le_of_le (hle e' he')),
          fun h => h e hmem⟩

/-- The alarm is set for the earliest entry, or for a time before it, if that is not less than 100
microseconds after it was set. -/
def Armed (q : TimerQueue) : Prop := ∀ e ∈ q.timers, ∃ alarm, q.timerfd = some alarm ∧
  alarm.setAt + alarm.delay ≤ max e.when_ (alarm.setAt + 100)

/-- An alarm for a time comes in time for all that is later. -/
theorem alarm_le {expiration when_ : Nat} (h : expiration ≤ when_) (clock : Nat) :
    clock + howMuchTimeFromNow expiration clock ≤ max when_ (clock + 100) := by
  rw [add_howMuchTimeFromNow]
  omega

/-- **`addTimerInLoop`**, with the alarm set when that is necessary. -/
theorem Good.addTimerInLoop (hg : q.Good other) (ht : other t) (hheap : q.heap t = some timer)
    (clock : Nat) : ∃ fd, q.addTimerInLoop t clock = .ok { q.put t timer with timerfd := fd } ∧
      (q.Armed → Armed { q.put t timer with timerfd := fd }) := by
  have hderef : (q.put t timer).deref t = .ok timer := by
    rw [deref, show (q.put t timer).heap t = some timer from hheap]
  obtain ⟨changed, hinsert, hchanged⟩ := hg.insert ht hheap
  rw [TimerQueue.addTimerInLoop, hinsert]
  simp only [bind, Except.bind, hderef]
  cases changed with
  | true =>
      -- it expires before all others
      refine ⟨_, rfl, fun _ e he => ⟨_, rfl, ?_⟩⟩
      rcases OrderedSet.mem_insert.mp he with rfl | he
      · exact alarm_le le_rfl clock
      · exact alarm_le (hchanged.mp rfl e he).le clock
  | false =>
      refine ⟨q.timerfd, rfl, fun harmed e he => ?_⟩
      rcases OrderedSet.mem_insert.mp he with rfl | he
      · -- something expires no later, and the alarm is set for that
        have hsome : ∃ e ∈ q.timers, ¬ timer.expiration < e.when_ := by
          by_contra hnone
          have hall : ∀ e ∈ q.timers, timer.expiration < e.when_ := fun e he =>
            not_not.mp fun hlt => hnone ⟨e, he, hlt⟩
          exact absurd (hchanged.mpr hall) (by decide)
        obtain ⟨e, hmem, hlt⟩ := hsome
        obtain ⟨alarm, hset, hle⟩ := harmed e hmem
        refine ⟨alarm, hset, hle.trans ?_⟩
        show max e.when_ (alarm.setAt + 100) ≤ max timer.expiration (alarm.setAt + 100)
        omega
      · exact harmed e he

/-- What is allocated after a deletion was there before, at another address. -/
theorem of_update_none {heap : Nat → Option Timer} {t t' : Nat} {timer : Timer}
    (h : Function.update heap t none t' = some timer) : t' ≠ t ∧ heap t' = some timer := by
  by_cases ht : t' = t
  · subst ht
    rw [Function.update_self] at h
    cases h
  · rw [Function.update_of_ne ht] at h
    exact ⟨ht, h⟩

/-- The queue without a timer that was active, which is deleted. -/
def drop (q : TimerQueue) (t sequence : Nat) (timer : Timer) : TimerQueue := { q with
  timers := q.timers.erase (Entry.mk timer.expiration t)
  heap := Function.update q.heap t none
  activeTimers := q.activeTimers.erase (toLex (t, sequence)) }

/-- An active timer is deleted together with its entries in both sets. -/
theorem Good.drop (hg : q.Good other) (hheap : q.heap t = some timer)
    (hmem : Entry.mk timer.expiration t ∈ q.timers) :
    (q.drop t timer.sequence timer).Good other := by
  -- it is in the sets, so it is in nobody else's hands
  have hother : ¬ other t := fun ht => hg.not_mem ht _ hmem
  have hheap' : ∀ {t'}, t' ≠ t → Function.update q.heap t none t' = q.heap t' := fun ht =>
    Function.update_of_ne ht _ _
  constructor
  · intro e he
    obtain ⟨hout, he⟩ := OrderedSet.mem_erase.mp he
    obtain ⟨timer', hentry, hwhen⟩ := hg.entry e he
    have ht : e.timer ≠ t := by
      intro heq
      rw [heq, hheap] at hentry
      obtain rfl := Option.some.inj hentry
      exact hout (by rw [← e.mk_when_timer, heq, hwhen])
    exact ⟨timer', (hheap' ht).trans hentry, hwhen⟩
  · intro t' n
    rw [TimerQueue.drop, OrderedSet.mem_erase, hg.active]
    simp only [ne_eq, EmbeddingLike.apply_eq_iff_eq, Prod.mk.injEq, not_and, OrderedSet.mem_erase,
      Entry.mk_inj]
    constructor
    · rintro ⟨hout, timer', hentry, rfl, hmem'⟩
      have ht : t' ≠ t := by
        rintro rfl
        rw [hheap] at hentry
        obtain rfl := Option.some.inj hentry
        exact hout rfl rfl
      exact ⟨timer', (hheap' ht).trans hentry, rfl, fun _ => ht, hmem'⟩
    · rintro ⟨timer', hentry, rfl, -, hmem'⟩
      obtain ⟨ht, hentry⟩ := of_update_none hentry
      exact ⟨fun heq => absurd heq ht, timer', hentry, rfl, hmem'⟩
  · intro t'
    rw [hg.other t']
    constructor
    · rintro ⟨timer', hentry, hnot⟩
      have ht : t' ≠ t := by
        rintro rfl
        exact hother ((hg.other t').mpr ⟨timer', hentry, hnot⟩)
      exact ⟨timer', (hheap' ht).trans hentry, fun h => hnot (OrderedSet.mem_erase.mp h).2⟩
    · rintro ⟨timer', hentry, hnot⟩
      obtain ⟨ht, hentry⟩ := of_update_none hentry
      refine ⟨timer', hentry, fun h => hnot (OrderedSet.mem_erase.mpr ⟨?_, h⟩)⟩
      intro heq
      exact ht (Entry.mk_inj.mp heq).2
  · intro t' timer' hentry
    exact hg.address t' timer' (of_update_none hentry).2
  · intro t' t'' timer' timer'' hentry hentry'
    exact hg.sequence t' t'' timer' timer'' (of_update_none hentry).2 (of_update_none hentry').2

/-- **`cancelInLoop`** takes an active timer out of the queue and deletes it. What is not active is
noted while expired timers are called. -/
theorem Good.cancelInLoop (hg : q.Good other) (t n : Nat) :
    (∃ timer, q.heap t = some timer ∧ timer.sequence = n ∧
        Entry.mk timer.expiration t ∈ q.timers ∧
        q.cancelInLoop t n = .ok (q.drop t n timer)) ∨
      (toLex (t, n) ∉ q.activeTimers ∧ q.cancelInLoop t n = .ok { q with
        cancelingTimers := if q.callingExpiredTimers then q.cancelingTimers.insert (toLex (t, n))
          else q.cancelingTimers }) := by
  rw [TimerQueue.cancelInLoop, assert_ok hg.card_eq]
  by_cases hactive : toLex (t, n) ∈ q.activeTimers
  · obtain ⟨timer, hheap, rfl, hmem⟩ := (hg.active t n).mp hactive
    have hderef := deref_of_heap hheap
    have hcard : (q.timers.erase (Entry.mk timer.expiration t)).card =
        (q.activeTimers.erase (toLex (t, timer.sequence))).card := (hg.drop hheap hmem).card_eq
    refine .inl ⟨timer, hheap, rfl, hmem, ?_⟩
    simp only [bind, Except.bind, if_pos hactive, hderef]
    rw [assert_ok hmem]
    dsimp only
    rw [assert_ok hcard]
    rfl
  · refine .inr ⟨hactive, ?_⟩
    by_cases hcalling : q.callingExpiredTimers = true
    · simp only [bind, Except.bind, if_neg hactive, if_pos hcalling]
      rw [assert_ok hg.card_eq]
      rfl
    · simp only [bind, Except.bind, if_neg hactive, if_neg hcalling]
      rw [assert_ok hg.card_eq]
      rfl

/-- The sentry divides the entries by their time, as no address is as high as its own. -/
theorem sentry_le_iff {now : Nat} {e : Entry} (h : e.timer < uintptrMax) :
    sentry now ≤ e ↔ now < e.when_ := by
  rw [← not_lt, Entry.lt_iff]
  simp only [sentry, Entry.when_mk, Entry.timer_mk, h, and_true]
  omega

/-- The expired timers cease to be active, one by one. -/
theorem foldlM_deactivate (q : TimerQueue) {l : List Entry} (hnodup : (l.map Entry.timer).Nodup)
    (hlive : ∀ e ∈ l, ∃ timer, q.heap e.timer = some timer ∧
      toLex (e.timer, timer.sequence) ∈ q.activeTimers)
    (hactive : ∀ t n, toLex (t, n) ∈ q.activeTimers →
      ∃ timer, q.heap t = some timer ∧ timer.sequence = n) :
    ∃ activeTimers, l.foldlM deactivate q = .ok { q with activeTimers } ∧
      ∀ t n, toLex (t, n) ∈ activeTimers ↔
        toLex (t, n) ∈ q.activeTimers ∧ t ∉ l.map Entry.timer := by
  induction l generalizing q with
  | nil => exact ⟨q.activeTimers, rfl, by simp⟩
  | cons e l ih =>
      obtain ⟨timer, hheap, hmem⟩ := hlive e List.mem_cons_self
      have hderef := deref_of_heap hheap
      have hdeactivate : q.deactivate e = .ok { q with
          activeTimers := q.activeTimers.erase (toLex (e.timer, timer.sequence)) } := by
        rw [deactivate, hderef]
        simp only [bind, Except.bind]
        rw [assert_ok hmem]
        rfl
      rw [List.map_cons, List.nodup_cons] at hnodup
      -- an address stands for one number only, so erasing the pair erases the address
      have herase : ∀ t n, toLex (t, n) ∈
          q.activeTimers.erase (toLex (e.timer, timer.sequence)) ↔
            toLex (t, n) ∈ q.activeTimers ∧ t ≠ e.timer := by
        intro t n
        rw [OrderedSet.mem_erase]
        constructor
        · rintro ⟨hne, hin⟩
          refine ⟨hin, ?_⟩
          rintro rfl
          obtain ⟨timer', hheap', rfl⟩ := hactive _ _ hin
          rw [hheap] at hheap'
          exact hne (by rw [Option.some.inj hheap'])
        · rintro ⟨hin, hne⟩
          exact ⟨fun heq => hne (congrArg (fun x => (ofLex x).1) heq), hin⟩
      obtain ⟨activeTimers, hfold, hrest⟩ := ih
        { q with activeTimers := q.activeTimers.erase (toLex (e.timer, timer.sequence)) } hnodup.2
        (by
          intro e' he'
          obtain ⟨timer', hheap', hin⟩ := hlive e' (List.mem_cons_of_mem _ he')
          refine ⟨timer', hheap', (herase _ _).mpr ⟨hin, ?_⟩⟩
          intro heq
          exact hnodup.1 (heq ▸ List.mem_map_of_mem he'))
        (fun t n hin => hactive t n ((herase t n).mp hin).1)
      refine ⟨activeTimers, ?_, ?_⟩
      · rw [List.foldlM_cons, hdeactivate]
        exact hfold
      · intro t n
        rw [hrest, herase, List.map_cons, List.mem_cons, not_or, and_assoc]

/-- No timer is taken out twice. -/
theorem Good.nodup_before (hg : q.Good other) (bound : Entry) :
    ((q.timers.before bound).map Entry.timer).Nodup :=
  OrderedSet.nodup_before.map_on fun _ he _ he' =>
    hg.eq_of_timer_eq (OrderedSet.mem_before.mp he).2 (OrderedSet.mem_before.mp he').2

/-- A timer that is taken out is due. -/
theorem Good.le_of_before (hg : q.Good other) {now : Nat} {e : Entry}
    (he : e ∈ q.timers.before (sentry now)) (hheap : q.heap e.timer = some timer) :
    timer.expiration ≤ now := by
  obtain ⟨hlt, hmem⟩ := OrderedSet.mem_before.mp he
  obtain ⟨timer', hheap', hwhen⟩ := hg.entry e hmem
  rw [hheap] at hheap'
  obtain rfl := Option.some.inj hheap'
  rw [hwhen]
  rcases Entry.lt_iff.mp hlt with hlt | ⟨heq, -⟩
  · exact hlt.le
  · exact heq.le

/-- **`getExpired`** takes the timers out that expire until now. -/
theorem Good.getExpired (hg : q.Good other) (now : Nat) :
    ∃ activeTimers, q.getExpired now = .ok (q.timers.before (sentry now), { q with
        timers := q.timers.since (sentry now), activeTimers }) ∧
      Good { q with timers := q.timers.since (sentry now), activeTimers }
        (fun t => other t ∨ t ∈ (q.timers.before (sentry now)).map Entry.timer) := by
  have hlive : ∀ e ∈ q.timers.before (sentry now), ∃ timer, q.heap e.timer = some timer ∧
      toLex (e.timer, timer.sequence) ∈ q.activeTimers ∧ timer.expiration = e.when_ := by
    intro e he
    have hmem := (OrderedSet.mem_before.mp he).2
    obtain ⟨timer, hheap, hwhen⟩ := hg.entry e hmem
    refine ⟨timer, hheap, (hg.active _ _).mpr ⟨timer, hheap, rfl, ?_⟩, hwhen⟩
    rw [hwhen]
    exact hmem
  -- a timer in the queue has been taken out iff its time has come
  have hbefore : ∀ t timer, q.heap t = some timer → Entry.mk timer.expiration t ∈ q.timers →
      (t ∈ (q.timers.before (sentry now)).map Entry.timer ↔
        Entry.mk timer.expiration t < sentry now) := by
    intro t timer hheap hmem
    constructor
    · intro ht
      obtain ⟨e, he, rfl⟩ := List.mem_map.mp ht
      obtain ⟨timer', hheap', -, hwhen⟩ := hlive e he
      rw [hheap] at hheap'
      obtain rfl := Option.some.inj hheap'
      rw [hwhen]
      exact (OrderedSet.mem_before.mp he).1
    · intro hlt
      exact List.mem_map.mpr ⟨_, OrderedSet.mem_before.mpr ⟨hlt, hmem⟩, rfl⟩
  obtain ⟨activeTimers, hfold, hactive⟩ := foldlM_deactivate
    { q with timers := q.timers.since (sentry now) } (hg.nodup_before _)
    (fun e he => (hlive e he).imp fun timer h => ⟨h.1, h.2.1⟩)
    (fun t n hin => ((hg.active t n).mp hin).imp fun timer h => ⟨h.1, h.2.1⟩)
  have hgood : Good { q with timers := q.timers.since (sentry now), activeTimers }
      (fun t => other t ∨ t ∈ (q.timers.before (sentry now)).map Entry.timer) := by
    refine ⟨fun e he => hg.entry e (OrderedSet.mem_since.mp he).2, fun t n => ?_, fun t => ?_,
      hg.address, hg.sequence⟩
    · rw [hactive, hg.active]
      simp only [OrderedSet.mem_since]
      constructor
      · rintro ⟨⟨timer, hheap, hn, hmem⟩, hout⟩
        rw [hbefore t timer hheap hmem, not_lt] at hout
        exact ⟨timer, hheap, hn, hout, hmem⟩
      · rintro ⟨timer, hheap, hn, hle, hmem⟩
        refine ⟨⟨timer, hheap, hn, hmem⟩, ?_⟩
        rw [hbefore t timer hheap hmem, not_lt]
        exact hle
    · simp only [OrderedSet.mem_since, not_and]
      constructor
      · rintro (ht | ht)
        · obtain ⟨timer, hheap, hnot⟩ := (hg.other t).mp ht
          exact ⟨timer, hheap, fun _ => hnot⟩
        · obtain ⟨e, he, rfl⟩ := List.mem_map.mp ht
          obtain ⟨timer, hheap, -, hwhen⟩ := hlive e he
          refine ⟨timer, hheap, fun hle => ?_⟩
          rw [hwhen] at hle
          exact absurd (OrderedSet.mem_before.mp he).1 (not_lt.mpr hle)
      · rintro ⟨timer, hheap, hnot⟩
        by_cases hmem : Entry.mk timer.expiration t ∈ q.timers
        · refine .inr ((hbefore t timer hheap hmem).mpr ?_)
          exact not_le.mp fun hle => hnot hle hmem
        · exact .inl ((hg.other t).mpr ⟨timer, hheap, hmem⟩)
  have hcard : (q.timers.since (sentry now)).card = activeTimers.card := hgood.card_eq
  refine ⟨activeTimers, ?_, hgood⟩
  rw [TimerQueue.getExpired, assert_ok hg.card_eq]
  simp only [bind, Except.bind] at hfold ⊢
  cases hfirst : (q.timers.since (sentry now)).first? with
  | none =>
      simp only [pure, Except.pure, hfold]
      rw [assert_ok hcard]
  | some e =>
      -- the first entry that is left lies behind the sentry, as the source asserts
      obtain ⟨hle, hmem⟩ := OrderedSet.mem_since.mp (OrderedSet.first?_eq_some_iff.mp hfirst).1
      obtain ⟨timer, hheap, -⟩ := hg.entry e hmem
      have hlater := (sentry_le_iff (hg.address _ _ hheap).1).mp hle
      simp only [assert_ok hlater, pure, Except.pure, hfold]
      rw [assert_ok hcard]

/-- **`handleRead`** up to the calls. -/
theorem Good.handleRead (hg : q.Good other) (now : Nat) (readable : Bool) :
    ∃ activeTimers fd, q.handleRead now readable = .ok (q.timers.before (sentry now), { q with
        timers := q.timers.since (sentry now)
        activeTimers
        callingExpiredTimers := true
        cancelingTimers := .empty
        timerfd := fd }) ∧
      Good { q with
        timers := q.timers.since (sentry now)
        activeTimers
        callingExpiredTimers := true
        cancelingTimers := .empty
        timerfd := fd }
        (fun t => other t ∨ t ∈ (q.timers.before (sentry now)).map Entry.timer) := by
  have hg' : Good (if readable then { q with timerfd := none } else q) other := by
    cases readable
    · exact hg
    · exact ⟨hg.entry, hg.active, hg.other, hg.address, hg.sequence⟩
  obtain ⟨activeTimers, hexpired, hgood⟩ := hg'.getExpired now
  refine ⟨activeTimers, if readable then none else q.timerfd, ?_, ?_⟩
  · simp only [TimerQueue.handleRead, hexpired, bind, Except.bind]
    cases readable <;> rfl
  · cases readable <;>
      exact ⟨hgood.entry, hgood.active, hgood.other, hgood.address, hgood.sequence⟩

/-- A timer in other hands is deleted. -/
theorem Good.delete (hg : q.Good other) (ht : other t) :
    Good { q with heap := Function.update q.heap t none } (fun t' => other t' ∧ t' ≠ t) where
  entry e he := by
    have hne : e.timer ≠ t := by
      rintro rfl
      exact hg.not_mem ht e.when_ he
    obtain ⟨timer, hheap, hwhen⟩ := hg.entry e he
    exact ⟨timer, (Function.update_of_ne hne _ _).trans hheap, hwhen⟩
  active t' n := by
    rw [hg.active]
    constructor
    · rintro ⟨timer, hheap, hn, hmem⟩
      have hne : t' ≠ t := by
        rintro rfl
        exact hg.not_mem ht _ hmem
      exact ⟨timer, (Function.update_of_ne hne _ _).trans hheap, hn, hmem⟩
    · rintro ⟨timer, hheap, hn, hmem⟩
      exact ⟨timer, (of_update_none hheap).2, hn, hmem⟩
  other t' := by
    rw [hg.other t']
    constructor
    · rintro ⟨⟨timer, hheap, hnot⟩, hne⟩
      exact ⟨timer, (Function.update_of_ne hne _ _).trans hheap, hnot⟩
    · rintro ⟨timer, hheap, hnot⟩
      obtain ⟨hne, hheap⟩ := of_update_none hheap
      exact ⟨⟨timer, hheap, hnot⟩, hne⟩
  address t' timer hheap := hg.address t' timer (of_update_none hheap).2
  sequence t' t'' timer timer' hheap hheap' :=
    hg.sequence t' t'' timer timer' (of_update_none hheap).2 (of_update_none hheap').2

/-- What is allocated after a write is what was written, or was there before. -/
theorem of_update_some {heap : Nat → Option Timer} {t t' : Nat} {timer timer' : Timer}
    (h : Function.update heap t (some timer) t' = some timer') :
    t' = t ∧ timer' = timer ∨ t' ≠ t ∧ heap t' = some timer' := by
  by_cases ht : t' = t
  · subst ht
    rw [Function.update_self] at h
    exact .inl ⟨rfl, (Option.some.inj h).symm⟩
  · rw [Function.update_of_ne ht] at h
    exact .inr ⟨ht, h⟩

/-- A timer that has no entry is written to the heap: a new one, or one that was in other hands. -/
theorem Good.write (hg : q.Good other) (hnot : ∀ w, Entry.mk w t ∉ q.timers) (timer : Timer)
    (haddress : t < uintptrMax) (hexpiration : 0 < timer.expiration) {numCreated : Nat}
    (hle : q.numCreated ≤ numCreated) (hsequence : timer.sequence ≤ numCreated)
    (hfresh : ∀ t' timer', q.heap t' = some timer' → timer'.sequence = timer.sequence → t' = t) :
    Good { q with heap := Function.update q.heap t (some timer), numCreated }
      (fun t' => other t' ∨ t' = t) where
  entry e he := by
    have hne : e.timer ≠ t := by
      rintro rfl
      exact hnot e.when_ he
    obtain ⟨timer', hheap, hwhen⟩ := hg.entry e he
    exact ⟨timer', (Function.update_of_ne hne _ _).trans hheap, hwhen⟩
  active t' n := by
    rw [hg.active]
    constructor
    · rintro ⟨timer', hheap, hn, hmem⟩
      have hne : t' ≠ t := by
        rintro rfl
        exact hnot _ hmem
      exact ⟨timer', (Function.update_of_ne hne _ _).trans hheap, hn, hmem⟩
    · rintro ⟨timer', hheap, hn, hmem⟩
      rcases of_update_some hheap with ⟨rfl, -⟩ | ⟨-, hheap⟩
      · exact absurd hmem (hnot _)
      · exact ⟨timer', hheap, hn, hmem⟩
  other t' := by
    constructor
    · rintro (ht | rfl)
      · obtain ⟨timer', hheap, hout⟩ := (hg.other t').mp ht
        by_cases hne : t' = t
        · subst hne
          exact ⟨timer, Function.update_self _ _ _, hnot _⟩
        · exact ⟨timer', (Function.update_of_ne hne _ _).trans hheap, hout⟩
      · exact ⟨timer, Function.update_self _ _ _, hnot _⟩
    · rintro ⟨timer', hheap, hout⟩
      rcases of_update_some hheap with ⟨rfl, -⟩ | ⟨-, hheap⟩
      · exact .inr rfl
      · exact .inl ((hg.other t').mpr ⟨timer', hheap, hout⟩)
  address t' timer' hheap := by
    rcases of_update_some hheap with ⟨rfl, rfl⟩ | ⟨-, hheap⟩
    · exact ⟨haddress, hexpiration, hsequence⟩
    · obtain ⟨ha, he, hs⟩ := hg.address t' timer' hheap
      exact ⟨ha, he, hs.trans hle⟩
  sequence t' t'' timer' timer'' hheap hheap' heq := by
    -- one of the two may be what was written, whose number no other timer has
    rcases of_update_some hheap with ⟨rfl, rfl⟩ | ⟨-, hold⟩
    · rcases of_update_some hheap' with ⟨rfl, -⟩ | ⟨-, hold'⟩
      · rfl
      · exact (hfresh t'' timer'' hold' heq.symm).symm
    · rcases of_update_some hheap' with ⟨rfl, rfl⟩ | ⟨-, hold'⟩
      · exact hfresh t' timer' hold heq
      · exact hg.sequence t' t'' timer' timer'' hold hold' heq

/-- What becomes of an expired timer: it is restarted, unless it is not to be repeated or has been
canceled. -/
def settled (q : TimerQueue) (now t : Nat) (timer : Timer) : Option Timer :=
  if timer.repeats ∧ toLex (t, timer.sequence) ∉ q.cancelingTimers then some (timer.restart now)
  else none

/-- The members that `reset` leaves alone. -/
structure Unreset (q q' : TimerQueue) : Prop where
  cancelingTimers : q'.cancelingTimers = q.cancelingTimers
  callingExpiredTimers : q'.callingExpiredTimers = q.callingExpiredTimers
  numCreated : q'.numCreated = q.numCreated

/-- One round of the loop of `reset` settles one timer. -/
theorem Good.resetOne (hg : q.Good other) {e : Entry} (ht : other e.timer)
    (hheap : q.heap e.timer = some timer) {now : Nat} (hnow : 0 < now) :
    ∃ q', TimerQueue.resetOne now q e = .ok q' ∧
      q'.Good (fun t => other t ∧ t ≠ e.timer) ∧
      q'.heap = Function.update q.heap e.timer (q.settled now e.timer timer) ∧ Unreset q q' := by
  have hderef := deref_of_heap hheap
  rw [TimerQueue.resetOne, hderef]
  simp only [bind, Except.bind]
  by_cases hrepeat : timer.repeats = true ∧
      toLex (e.timer, timer.sequence) ∉ q.cancelingTimers
  · obtain ⟨haddress, -, hsequence⟩ := hg.address _ _ hheap
    have hrestart : timer.restart now = { timer with expiration := now + timer.interval } :=
      if_pos hrepeat.1
    -- the restart changes the expiration only, in memory that has no entry now
    have hwrite := hg.write (hg.not_mem ht) (timer.restart now) haddress
      (by rw [hrestart]; exact Nat.add_pos_left hnow _) le_rfl
      (by rw [hrestart]; exact hsequence)
      (fun t' timer' hheap' heq => hg.sequence t' _ timer' timer hheap' hheap (by
        rw [heq, hrestart]))
    obtain ⟨changed, hinsert, -⟩ := hwrite.insert (.inr rfl) (Function.update_self _ _ _)
    have hput := hwrite.put (.inr rfl) (Function.update_self _ _ _)
    rw [if_pos hrepeat, hinsert]
    refine ⟨_, rfl, hput.congr fun t' => ?_, ?_, rfl, rfl, rfl⟩
    · constructor
      · rintro ⟨h, hne⟩
        exact ⟨.inl h, hne⟩
      · rintro ⟨h | h, hne⟩
        · exact ⟨h, hne⟩
        · exact absurd h hne
    · rw [settled, if_pos hrepeat]
      rfl
  · rw [if_neg hrepeat]
    refine ⟨_, rfl, hg.delete ht, ?_, rfl, rfl, rfl⟩
    rw [settled, if_neg hrepeat]

/-- **The loop of `reset`** settles every expired timer. -/
theorem Good.foldlM_resetOne (hg : q.Good other) {l : List Entry}
    (hnodup : (l.map Entry.timer).Nodup) (hother : ∀ e ∈ l, other e.timer) {now : Nat}
    (hnow : 0 < now) :
    ∃ q', l.foldlM (TimerQueue.resetOne now) q = .ok q' ∧
      q'.Good (fun t => other t ∧ t ∉ l.map Entry.timer) ∧
      (∀ t ∉ l.map Entry.timer, q'.heap t = q.heap t) ∧
      (∀ t ∈ l.map Entry.timer, ∀ timer, q.heap t = some timer →
        q'.heap t = q.settled now t timer) ∧ Unreset q q' := by
  induction l generalizing q other with
  | nil => exact ⟨q, rfl, hg.congr fun t => by simp, fun t _ => rfl, by simp, rfl, rfl, rfl⟩
  | cons e l ih =>
      rw [List.map_cons, List.nodup_cons] at hnodup
      have ht := hother e List.mem_cons_self
      obtain ⟨timer, hheap, -⟩ := (hg.other _).mp ht
      obtain ⟨q₁, hone, hg₁, hheap₁, hsame₁⟩ := hg.resetOne ht hheap hnow
      obtain ⟨q', hfold, hg', hkeep, hsettle, hsame⟩ := ih hg₁ hnodup.2 (fun e' he' => by
        refine ⟨hother e' (List.mem_cons_of_mem _ he'), ?_⟩
        intro heq
        exact hnodup.1 (heq ▸ List.mem_map_of_mem he'))
      -- what becomes of the others depends on the cancellations, which the loop only reads
      have hsettled : ∀ t timer, q₁.settled now t timer = q.settled now t timer := by
        intro t timer
        rw [settled, settled, hsame₁.cancelingTimers]
      refine ⟨q', ?_, hg'.congr fun t => ?_, fun t hout => ?_, fun t hin timer' hheap' => ?_,
        hsame.cancelingTimers.trans hsame₁.cancelingTimers,
        hsame.callingExpiredTimers.trans hsame₁.callingExpiredTimers,
        hsame.numCreated.trans hsame₁.numCreated⟩
      · rw [List.foldlM_cons, hone]
        exact hfold
      · rw [List.map_cons, List.mem_cons, not_or, and_assoc]
      · rw [List.map_cons, List.mem_cons, not_or] at hout
        rw [hkeep t hout.2, hheap₁, Function.update_of_ne hout.1]
      · rw [List.map_cons, List.mem_cons] at hin
        rcases hin with rfl | hin
        · rw [hheap] at hheap'
          obtain rfl := Option.some.inj hheap'
          rw [hkeep _ hnodup.1, hheap₁, Function.update_self]
        · have hne : t ≠ e.timer := fun heq => hnodup.1 (heq ▸ hin)
          have hheap₁' : q₁.heap t = some timer' := by
            rw [hheap₁, Function.update_of_ne hne]
            exact hheap'
          rw [hsettle t hin timer' hheap₁', hsettled]

/-- **`reset`** settles every expired timer, and sets the alarm. -/
theorem Good.reset (hg : q.Good other) {l : List Entry} (hnodup : (l.map Entry.timer).Nodup)
    (hother : ∀ e ∈ l, other e.timer) {now : Nat} (hnow : 0 < now) (clock : Nat) :
    ∃ q', q.reset l now clock = .ok q' ∧ q'.Armed ∧
      q'.Good (fun t => other t ∧ t ∉ l.map Entry.timer) ∧
      (∀ t ∉ l.map Entry.timer, q'.heap t = q.heap t) ∧
      (∀ t ∈ l.map Entry.timer, ∀ timer, q.heap t = some timer →
        q'.heap t = q.settled now t timer) ∧ Unreset q q' := by
  obtain ⟨q', hfold, hg', hkeep, hsettle, hsame⟩ := hg.foldlM_resetOne hnodup hother hnow
  rw [TimerQueue.reset, hfold]
  simp only [bind, Except.bind]
  cases hfirst : q'.timers.first? with
  | none =>
      -- nothing is left to wait for
      have hempty := OrderedSet.first?_eq_none_iff.mp hfirst
      exact ⟨q', rfl, fun e he => absurd he (hempty e), hg', hkeep, hsettle, hsame⟩
  | some e =>
      obtain ⟨hmem, hle⟩ := OrderedSet.first?_eq_some_iff.mp hfirst
      obtain ⟨timer, hheap, hwhen⟩ := hg'.entry e hmem
      have hderef := deref_of_heap hheap
      have hpos := (hg'.address _ _ hheap).2.1
      simp only [hderef]
      rw [if_pos hpos]
      -- the alarm is set for the first entry, and no other is earlier
      refine ⟨_, rfl, fun e' he' => ⟨_, rfl, ?_⟩,
        ⟨hg'.entry, hg'.active, hg'.other, hg'.address, hg'.sequence⟩, hkeep, hsettle,
        hsame.cancelingTimers, hsame.callingExpiredTimers, hsame.numCreated⟩
      rw [hwhen]
      exact alarm_le (Entry.when_le_of_le (hle e' he')) clock

end TimerQueue

end Muduo

end FastCgi
