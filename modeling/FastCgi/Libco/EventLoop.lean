import Mathlib.Data.List.Nodup
import Mathlib.Logic.Relation
import FastCgi.Libco.Timeout

/-! # The scheduler of libco

A coroutine that calls `poll` leaves an item `stPoll_t` on the timing wheel and one registration
with `epoll` for each descriptor, and gives control back. `co_eventloop` moves the items whose
descriptors are ready, and those whose time is over, to the list of active items, and resumes their
coroutines one by one; each removes its registrations, frees its item and returns from `poll`.

`Env` is the state of a thread: the call stack of its coroutines, the items it has allocated, the
lists they are on and the registrations. `Step` is what can happen, for any coroutines: they may
poll, resume others that are parked, yield, end and close descriptors, in any order. `Inv` is kept
by all steps, and from it follow the results: the loop never follows a stale pointer, no wait is
over too early, none is forgotten, and each ends once. -/

namespace FastCgi

namespace Libco

/-! ## Events -/

/-- The events of `poll` and those of `epoll`: `IN`, `OUT`, `HUP`, `ERR`, `RDNORM` and `WRNORM`. -/
def eventTable : List (BitVec 16 × BitVec 32) :=
  [(0x001, 0x001), (0x004, 0x004), (0x010, 0x010), (0x008, 0x008), (0x040, 0x040), (0x100, 0x100)]

/-- `PollEvent2Epoll`. -/
def pollEvent2Epoll (events : BitVec 16) : BitVec 32 :=
  eventTable.foldl (fun e p => if events &&& p.1 ≠ 0 then e ||| p.2 else e) 0

/-- `EpollEvent2Poll`. -/
def epollEvent2Poll (events : BitVec 32) : BitVec 16 :=
  eventTable.foldl (fun e p => if events &&& p.2 ≠ 0 then e ||| p.1 else e) 0

/-- What `epoll` reports whether or not it was asked for: `EPOLLERR` and `EPOLLHUP`. -/
def epollAlways : BitVec 32 := 0x018

/-- All flags of the table. -/
def epollFlags : BitVec 32 := 0x15d

theorem foldl_flags_eq_zero {α : Type} {w : Nat} {c : α → Prop} [DecidablePred c]
    {g : α → BitVec w} {l : List α} {acc : BitVec w}
    (h : l.foldl (fun e p => if c p then e ||| g p else e) acc = 0) :
    acc = 0 ∧ ∀ p ∈ l, c p → g p = 0 := by
  induction l generalizing acc with
  | nil => exact ⟨h, fun p hp => by cases hp⟩
  | cons q l ih =>
      simp only [List.foldl_cons] at h
      obtain ⟨hacc, hl⟩ := ih h
      by_cases hc : c q
      · rw [if_pos hc] at hacc
        obtain ⟨hacc, hg⟩ := BitVec.or_eq_zero_iff.mp hacc
        refine ⟨hacc, fun p hp => ?_⟩
        obtain rfl | hp := List.mem_cons.mp hp
        · exact fun _ => hg
        · exact hl p hp
      · rw [if_neg hc] at hacc
        refine ⟨hacc, fun p hp => ?_⟩
        obtain rfl | hp := List.mem_cons.mp hp
        · exact fun h => absurd h hc
        · exact hl p hp

theorem foldl_flags_subset {α : Type} {w : Nat} {c : α → Prop} [DecidablePred c]
    {g : α → BitVec w} {l : List α} {acc m : BitVec w} (hacc : acc ||| m = m)
    (hl : ∀ p ∈ l, g p ||| m = m) :
    l.foldl (fun e p => if c p then e ||| g p else e) acc ||| m = m := by
  induction l generalizing acc with
  | nil => exact hacc
  | cons q l ih =>
      rw [List.foldl_cons]
      refine ih ?_ fun p hp => hl p (List.mem_cons_of_mem _ hp)
      split
      · rw [BitVec.or_assoc, hl q List.mem_cons_self, hacc]
      · exact hacc

theorem epollEvent2Poll_ne_zero {m : BitVec 16} {e : BitVec 32} (he : e ≠ 0)
    (hm : e &&& ~~~(pollEvent2Epoll m ||| epollAlways) = 0) : epollEvent2Poll e ≠ 0 := by
  intro h
  have hflags := (foldl_flags_eq_zero h).2
  have hsub : pollEvent2Epoll m ||| epollFlags = epollFlags :=
    foldl_flags_subset (by decide) (by simp [eventTable, epollFlags])
  have htable : ∀ p ∈ eventTable, p.1 ≠ 0 := by simp [eventTable]
  have hnone : ∀ p ∈ eventTable, e &&& p.2 = 0 := by
    intro p hp
    by_contra hc
    exact htable p hp (hflags p hp hc)
  have hin : e &&& epollFlags = 0 := by
    have hsplit : epollFlags = 0x001 ||| 0x004 ||| 0x010 ||| 0x008 ||| 0x040 ||| 0x100 := by decide
    rw [hsplit]
    simp only [BitVec.and_or_distrib_left]
    simp [eventTable] at hnone
    simp [hnone]
  have hand : e &&& (pollEvent2Epoll m ||| epollAlways) = 0 := by
    have hmask : (pollEvent2Epoll m ||| epollAlways) ||| epollFlags = epollFlags := by
      rw [BitVec.or_assoc, show epollAlways ||| epollFlags = epollFlags by decide, hsub]
    rw [← hmask, BitVec.and_or_distrib_left] at hin
    exact (BitVec.or_eq_zero_iff.mp hin).1
  have hall : e = e &&& ((pollEvent2Epoll m ||| epollAlways)
      ||| ~~~(pollEvent2Epoll m ||| epollAlways)) := by
    rw [BitVec.or_not_self, BitVec.and_allOnes]
  rw [BitVec.and_or_distrib_left, hand, hm, BitVec.or_self] at hall
  exact he hall

/-! ## Items and registrations -/

/-- `pollfd`, as the caller of `poll` fills it in. -/
structure PollFd where
  fd : Int
  events : BitVec 16
  deriving DecidableEq, Repr

/-- `stPoll_t`: one call of `poll` by the coroutine `pArg`. -/
structure Poll (κ : Type) where
  fds : List PollFd
  /-- `fds[i].revents`, which are zero at first. -/
  revents : List (BitVec 16)
  ullExpireTime : Nat
  bTimeout : Bool
  pArg : κ
  iAllEventDetach : Bool
  iRaiseCnt : Nat
  deriving DecidableEq, Repr

/-- An item as it is when the coroutine begins to wait. -/
def Poll.start {κ : Type} (fds : List PollFd) (ullExpireTime : Nat) (pArg : κ) : Poll κ where
  fds := fds
  revents := fds.map fun _ => 0
  ullExpireTime := ullExpireTime
  bTimeout := false
  pArg := pArg
  iAllEventDetach := false
  iRaiseCnt := 0

/-- What `epoll` knows of a descriptor. The pointer of the event is `pPollItems + i` of an item. -/
structure Registration where
  fd : Int
  events : BitVec 32
  poll : Nat
  i : Nat
  deriving DecidableEq, Repr

/-- How `epoll_ctl` may refuse a descriptor. -/
inductive CtlError
  | eperm
  | other
  deriving DecidableEq, Repr

/-- `EPOLL_CTL_ADD`, where the kernel refuses some descriptors; one that is registered already is
refused too. -/
def coEpollCtlAdd (kernel : Int → Option CtlError) (epoll : List Registration) (r : Registration) :
    List Registration :=
  if (kernel r.fd).isSome ∨ r.fd ∈ epoll.map Registration.fd then epoll else epoll ++ [r]

/-- `EPOLL_CTL_DEL`. -/
def coEpollCtlDel (epoll : List Registration) (fd : Int) : List Registration :=
  epoll.filter fun r => r.fd ≠ fd

/-- A call of `poll` that has come back. -/
structure Return (κ : Type) where
  poll : Nat
  arg : Poll κ
  now : Nat
  /-- The value that was returned. -/
  ret : Int
  deriving DecidableEq, Repr

/-- What the main coroutine does. -/
inductive Pc
  /-- It runs code of its own, before the loop or in the function that is called in each round. -/
  | own
  /-- It is in the loop over the active items, in the round of the time `now`. -/
  | dispatching (now : Nat)
  deriving DecidableEq, Repr

/-- `stCoRoutineEnv_t`, with its `stCoEpoll_t`. -/
structure Env (κ : Type) where
  pTimeout : Timeout
  heap : Heap Nat Place
  /-- The items that are allocated. -/
  mem : Nat → Option (Poll κ)
  /-- The next address. -/
  next : Nat
  epoll : List Registration
  /-- `pCallStack`, the running coroutine first, without the main coroutine at its bottom. -/
  pCallStack : List κ
  /-- The coroutines with `cEnd`. -/
  ended : List κ
  pc : Pc
  returned : List (Return κ)

/-- How a call of `poll` begins. -/
inductive PollStart
  /-- The system call is made instead. -/
  | direct
  /-- It fails. -/
  | einval
  /-- The coroutine waits. -/
  | waits
  deriving DecidableEq, Repr

variable {κ : Type}

/-- `co_init_curr_thread_env`, at the time `now`. -/
def Env.init (now : Nat) : Env κ where
  pTimeout := Timeout.alloc (60 * 1000) now
  heap := Heap.zero
  mem _ := none
  next := 0
  epoll := []
  pCallStack := []
  ended := []
  pc := .own
  returned := []

namespace Env

variable (s : Env κ)

/-! ## Coroutines -/

/-- `co_resume`, which fails when the call stack is full. -/
def coResume (co : κ) : Option (Env κ) :=
  if s.pCallStack.length + 1 < 128 then some { s with pCallStack := co :: s.pCallStack } else none

/-- `co_yield_env`, which fails in the main coroutine. -/
def coYieldEnv : Option (Env κ) :=
  match s.pCallStack with
  | [] => none
  | _ :: rest => some { s with pCallStack := rest }

/-- The end of `CoRoutineFunc`. -/
def coEnd : Option (Env κ) :=
  match s.pCallStack with
  | [] => none
  | co :: _ => { s with ended := co :: s.ended }.coYieldEnv

/-! ## Waiting -/

/-- Write to an item. -/
def setPoll (x : Nat) (p : Poll κ) : Env κ := { s with mem := Function.update s.mem x (some p) }

/-- The registrations of a new item. -/
def addItems (kernel : Int → Option CtlError) (x : Nat) (fds : List PollFd)
    (epoll : List Registration) : List Registration :=
  fds.zipIdx.foldl (fun epoll f =>
    if -1 < f.1.fd then coEpollCtlAdd kernel epoll ⟨f.1.fd, pollEvent2Epoll f.1.events, x, f.2⟩
    else epoll) epoll

/-- The registrations without those of a list of descriptors. -/
def delItems (fds : List PollFd) (epoll : List Registration) : List Registration :=
  fds.foldl (fun epoll f => if -1 < f.fd then coEpollCtlDel epoll f.fd else epoll) epoll

/-- A new item, and its registrations. -/
def alloc (kernel : Int → Option CtlError) (arg : Poll κ) : Env κ :=
  { s.setPoll s.next arg with
    next := s.next + 1
    epoll := addItems kernel s.next arg.fds s.epoll }

/-- The last part of `co_poll_inner`: the item is taken off its list, its registrations are removed,
and it is freed. -/
def clear (x : Nat) (now : Nat) (ret : Poll κ → Int) : Option (Env κ) := do
  let arg ← s.mem x
  let heap ← s.heap.removeFromLink x
  return { s with
    heap := heap
    epoll := delItems arg.fds s.epoll
    mem := Function.update s.mem x none
    returned := s.returned ++ [⟨x, arg, now, ret arg⟩] }

/-- `co_poll_inner` up to the point where the coroutine waits or returns. The main coroutine cannot
wait: it has nothing to yield to. `co_poll` passes no `pollfunc`, which would be called if the
coroutine is not to wait at all. -/
def coPollInner (kernel : Int → Option CtlError) (fds : List PollFd) (timeout : Int) (now : Nat)
    (pollfunc : Bool) : Option (PollStart × Env κ) :=
  if timeout = 0 then
    if pollfunc then some (.direct, s) else none
  else
    let timeout := if timeout < 0 then 2 ^ 31 - 1 else timeout.toNat
    match s.pCallStack with
    | [] => none
    | self :: rest =>
      if fds.length = 1 ∧ pollfunc ∧ ∀ f ∈ fds, -1 < f.fd ∧ kernel f.fd = some .eperm then
        some (.direct, s)
      else
        let arg := Poll.start fds (now + timeout) self
        let (accepted, pTimeout, heap) :=
          s.pTimeout.addTimeout s.heap s.next (now + timeout) now
        let s' := { s.alloc kernel arg with pTimeout := pTimeout, heap := heap }
        if accepted then some (.waits, { s' with pCallStack := rest })
        else do return (.einval, ← s'.clear s.next now fun _ => -1)

/-! ## The loop -/

/-- `OnPollPreparePfn`, for an event of the `i`th descriptor of an item. -/
def onPollPreparePfn (e : Registration × BitVec 32) : Option (Env κ) := do
  let p ← s.mem e.1.poll
  if e.1.i < p.revents.length then
    let p := { p with
      revents := p.revents.set e.1.i (epollEvent2Poll e.2)
      iRaiseCnt := p.iRaiseCnt + 1 }
    if p.iAllEventDetach then some (s.setPoll e.1.poll p)
    else do
      let heap ← s.heap.removeFromLink e.1.poll
      return { s.setPoll e.1.poll { p with iAllEventDetach := true } with
        heap := heap.addTail .active e.1.poll }
  else none

/-- The loop over the items whose time is over, from `lp` on. -/
def markTimeout (node : Nat → Node Nat Place) :
    Nat → (Nat → Option (Poll κ)) → Option Nat → Option (Nat → Option (Poll κ))
  | _, mem, none => some mem
  | 0, _, some _ => none
  | fuel + 1, mem, some lp => do
    let p ← mem lp
    markTimeout node fuel (Function.update mem lp (some { p with bTimeout := true }))
      (node lp).pNext

/-- A round of `co_eventloop`, up to the loop over the active items. -/
def round (events : List (Registration × BitVec 32)) (now : Nat) : Option (Env κ) := do
  let s := { s with heap := s.heap.setLink .timeout ⟨none, none⟩ }
  let s ← events.foldlM onPollPreparePfn s
  let (pTimeout, heap) ← s.pTimeout.takeAllTimeout s.next s.heap now .timeout
  let mem ← markTimeout heap.node s.next s.mem (heap.link .timeout).head
  let heap ← heap.join s.next .active .timeout
  return { s with pTimeout := pTimeout, heap := heap, mem := mem, pc := .dispatching now }

/-- `OnPollProcessEvent`: the coroutine is resumed, and its call of `poll` returns. -/
def onPollProcessEvent (x : Nat) (now : Nat) : Option (Env κ) := do
  let p ← s.mem x
  let s ← s.coResume p.pArg
  s.clear x now fun p => p.iRaiseCnt

/-- One iteration of the loop over the active items. An item that was put on the wheel too early, as
its time was beyond the wheel, goes back to it. -/
def dispatch (now : Nat) : Option (Env κ) :=
  match (s.heap.link .active).head with
  | none => some { s with pc := .own }
  | some x => do
    let p ← s.mem x
    let s := { s with heap := s.heap.popHead .active }
    if p.bTimeout ∧ now < p.ullExpireTime then
      let (accepted, pTimeout, heap) := s.pTimeout.addTimeout s.heap x p.ullExpireTime now
      let s := { s with pTimeout := pTimeout, heap := heap }
      if accepted then some (s.setPoll x { p with bTimeout := false })
      else s.onPollProcessEvent x now
    else s.onPollProcessEvent x now

end Env

/-! ## Steps -/

/-- What `epoll_wait` may report: registrations, each of them once, with events that were asked for
or are always reported. -/
structure Delivered (epoll : List Registration) (events : List (Registration × BitVec 32)) :
    Prop where
  registered : ∀ e ∈ events, e.1 ∈ epoll
  nodup : (events.map Prod.fst).Nodup
  masked : ∀ e ∈ events, e.2 ≠ 0 ∧ e.2 &&& ~~~(e.1.events ||| epollAlways) = 0

/-- A coroutine that `co_resume` may be called with: it is not on the call stack, does not wait, and
has not ended. -/
structure Env.Parked (s : Env κ) (co : κ) : Prop where
  notMem : co ∉ s.pCallStack
  notWaiting : ∀ x p, s.mem x = some p → p.pArg ≠ co
  notEnded : co ∉ s.ended

/-- The **steps** of a thread. Its loop runs while the call stack is empty; what a coroutine does is
not restricted, except that it resumes none but parked ones. The clock may show any time, as long as
two rounds are less than `2 ^ 31` milliseconds apart. -/
inductive Step : Env κ → Env κ → Prop
  | round {s s' : Env κ} {events : List (Registration × BitVec 32)} {now : Nat} (hpc : s.pc = .own)
      (hmain : s.pCallStack = []) (hevents : Delivered s.epoll events)
      (hgap : now - s.pTimeout.ullStart + 1 < 2 ^ 31) (h : s.round events now = some s') : Step s s'
  | dispatch {s s' : Env κ} {now : Nat} (hpc : s.pc = .dispatching now) (hmain : s.pCallStack = [])
      (h : s.dispatch now = some s') : Step s s'
  | poll {s s' : Env κ} (kernel : Int → Option CtlError) (fds : List PollFd) (timeout : Int)
      (now : Nat) (pollfunc : Bool) {how : PollStart}
      (h : s.coPollInner kernel fds timeout now pollfunc = some (how, s')) : Step s s'
  | resume {s s' : Env κ} {co : κ} (hco : s.Parked co) (h : s.coResume co = some s') : Step s s'
  | yield {s s' : Env κ} (h : s.coYieldEnv = some s') : Step s s'
  | ends {s s' : Env κ} (h : s.coEnd = some s') : Step s s'
  | close {s : Env κ} (fd : Int) : Step s { s with epoll := coEpollCtlDel s.epoll fd }

/-- The states that a thread reaches, from its start at a time other than zero. -/
def Reachable (s : Env κ) : Prop :=
  ∃ now, 0 < now ∧ Relation.ReflTransGen Step (Env.init now) s

end Libco

end FastCgi
