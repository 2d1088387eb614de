import FastCgi.Libco.Waits
import FastCgi.TaskPool

/-! # A process of cocgi, on its scheduler

`TaskPool` takes the coroutine library at its word. Here the coroutines of the pool run on the
scheduler of `Libco`: each step of `Process.Step` is the calls of `co_resume`, `co_yield_ct`,
`co_poll` and the rounds of `co_eventloop` that the code makes, and what the library does is not
assumed but computed. `process_reachable` says that the process then stays within the runs of both
models: it calls `co_resume` for parked coroutines only, as the scheduler expects, and the scheduler
resumes a coroutine only where the pool expects it. -/

namespace FastCgi

open Libco TaskPool

namespace Libco.Env

variable {κ : Type} {s s' : Env κ}

/-! ## Who waits -/

/-- A coroutine waits in `poll`. -/
def Waiting (s : Env κ) (co : κ) : Prop := ∃ x p, s.mem x = some p ∧ p.pArg = co

theorem Kept.waiting (h : s.Kept s') (co : κ) : s'.Waiting co ↔ s.Waiting co := by
  constructor
  · rintro ⟨x, p, hp, rfl⟩
    obtain ⟨q, hq, hcall⟩ := h.exists hp
    exact ⟨x, q, hq, (Prod.mk.inj (Prod.mk.inj hcall).2).2.symm⟩
  · rintro ⟨x, p, hp, rfl⟩
    obtain ⟨q, hq, hcall⟩ := h.symm.exists hp
    exact ⟨x, q, hq, (Prod.mk.inj (Prod.mk.inj hcall).2).2.symm⟩

theorem parked_of_not_waiting {co : κ} (hstack : co ∉ s.pCallStack) (hended : co ∉ s.ended)
    (hwait : ¬ s.Waiting co) : s.Parked co :=
  ⟨hstack, fun x p hp heq => hwait ⟨x, p, hp, heq⟩, hended⟩

/-- While the clock is not set back, a coroutine that polls with a time limit waits. -/
theorem Inv.coPollInner_waits (hi : s.Inv) {self : κ} {rest : List κ}
    (hstack : s.pCallStack = self :: rest) {kernel : Int → Option CtlError} {fds : List PollFd}
    {timeout : Int} {now : Nat} {pollfunc : Bool} (htimeout : timeout ≠ 0)
    (hclock : s.pTimeout.ullStart ≤ now)
    (hdirect : pollfunc = false ∨ ∃ f ∈ fds, f.fd ≤ -1) {how : PollStart}
    (h : s.coPollInner kernel fds timeout now pollfunc = some (how, s')) :
    how = .waits ∧ s'.pCallStack = rest ∧ s'.ended = s.ended ∧ s'.pc = s.pc ∧
      ∀ co, s'.Waiting co ↔ s.Waiting co ∨ co = self := by
  obtain ⟨lists, hl, -⟩ := hi.lists
  have hnone := hl.mem_next
  rw [Env.coPollInner, if_neg htimeout, hstack] at h
  simp only at h
  obtain ⟨ms, hms, hpos⟩ :
      ∃ ms, (if timeout < 0 then 2 ^ 31 - 1 else timeout.toNat) = ms ∧ 0 < ms :=
    ⟨_, rfl, by split <;> omega⟩
  rw [hms, if_neg] at h
  · -- the clock is not behind the wheel, so the item is put in and the coroutine yields
    obtain ⟨heap, lists', hadd, -, -⟩ := hl.alloc
      (show (Poll.start fds (now + ms) self).Pending from ⟨rfl, rfl, rfl⟩) hclock
      (show now < now + ms by omega)
    rw [show s.pTimeout.addTimeout s.heap s.next (now + ms) now = _ from hadd] at h
    simp only [if_true, Option.some.injEq, Prod.mk.injEq] at h
    obtain ⟨rfl, rfl⟩ := h
    refine ⟨rfl, rfl, rfl, rfl, fun co => ⟨?_, ?_⟩⟩
    · rintro ⟨x, p, hp, rfl⟩
      by_cases hx : x = s.next
      · subst hx
        replace hp : (s.setPoll s.next _).mem s.next = some p := hp
        -- the new item is that of the coroutine which polls
        rw [setPoll_mem_self] at hp
        cases hp
        exact .inr rfl
      · exact .inl ⟨x, p, (setPoll_mem_of_ne hx _).symm.trans hp, rfl⟩
    · rintro (⟨x, p, hp, rfl⟩ | rfl)
      · refine ⟨x, p, (setPoll_mem_of_ne ?_ _).trans hp, rfl⟩
        rintro rfl
        rw [hnone] at hp
        cases hp
      · exact ⟨s.next, _, setPoll_mem_self .., rfl⟩
  · -- `poll` itself is called for descriptors only that are all not negative
    rintro ⟨-, hpollfunc, hall⟩
    obtain hno | ⟨f, hf, hle⟩ := hdirect
    · rw [hno] at hpollfunc
      cases hpollfunc
    · have := (hall f hf).1
      omega

theorem onPollProcessEvent_eq_some {x now : Nat} (h : s.onPollProcessEvent x now = some s') :
    ∃ p, s.mem x = some p ∧ s'.mem = Function.update s.mem x none ∧
      s'.pCallStack = p.pArg :: s.pCallStack ∧ s'.ended = s.ended ∧ s'.pTimeout = s.pTimeout ∧
      s'.pc = s.pc := by
  simp only [onPollProcessEvent, Option.bind_eq_bind, Option.bind_eq_some_iff] at h
  obtain ⟨p, hp, s₁, hresume, h⟩ := h
  rw [coResume] at hresume
  split at hresume
  · cases hresume
    simp only [clear, Option.bind_eq_bind, Option.bind_eq_some_iff] at h
    obtain ⟨arg, -, heap, -, h⟩ := h
    cases h
    exact ⟨p, hp, rfl, rfl, rfl, rfl, rfl⟩
  · cases hresume

/-- The loop over the active items resumes none or one of the coroutines that wait. -/
theorem Inv.dispatch_cases (hi : s.Inv) {now : Nat} (hmain : s.pCallStack = [])
    (h : s.dispatch now = some s') :
    s'.ended = s.ended ∧ s'.pTimeout = s.pTimeout ∧
    (s'.pCallStack = [] ∧ (∀ co, s'.Waiting co ↔ s.Waiting co) ∧ (s'.pc = s.pc ∨ s'.pc = .own) ∨
      ∃ co, s'.pCallStack = [co] ∧ s.Waiting co ∧ s'.pc = s.pc ∧
        ∀ co', s'.Waiting co' ↔ s.Waiting co' ∧ co' ≠ co) := by
  -- an item that is processed is freed, and its coroutine waited for nothing else
  have hwake : ∀ {s₁ : Env κ} {x : Nat}, s₁.onPollProcessEvent x now = some s' →
      s₁.mem = s.mem → s₁.pCallStack = [] → s₁.ended = s.ended → s₁.pTimeout = s.pTimeout →
      s₁.pc = s.pc → s'.ended = s.ended ∧ s'.pTimeout = s.pTimeout ∧ ∃ co,
        s'.pCallStack = [co] ∧ s.Waiting co ∧ s'.pc = s.pc ∧
        ∀ co', s'.Waiting co' ↔ s.Waiting co' ∧ co' ≠ co := by
    intro s₁ x h hmem hstack hended htimeout hpc
    obtain ⟨p, hp, hmem', hstack', hended', htimeout', hpc'⟩ := onPollProcessEvent_eq_some h
    rw [hmem] at hp hmem'
    refine ⟨hended'.trans hended, htimeout'.trans htimeout, p.pArg, by rw [hstack', hstack],
      ⟨x, p, hp, rfl⟩, hpc'.trans hpc, fun co => ⟨?_, ?_⟩⟩
    · rintro ⟨y, q, hq, rfl⟩
      rw [hmem'] at hq
      by_cases hy : y = x
      · subst hy
        simp at hq
      · rw [Function.update_of_ne hy] at hq
        exact ⟨⟨y, q, hq, rfl⟩, fun heq => hy (hi.threads.once y x q p hq hp heq)⟩
    · rintro ⟨⟨y, q, hq, rfl⟩, hne⟩
      refine ⟨y, q, ?_, rfl⟩
      rw [hmem', Function.update_of_ne, hq]
      rintro rfl
      rw [hp] at hq
      cases hq
      exact hne rfl
  -- the wheel has been started before
  have hadd : ∀ x expire, (s.pTimeout.addTimeout (s.heap.popHead .active) x expire now).2.1
      = s.pTimeout := by
    obtain ⟨lists, hl, -⟩ := hi.lists
    intro x expire
    rw [Timeout.addTimeout, hl.sound.running.start]
    dsimp only
    split
    · rfl
    · split <;> rfl
  rw [Env.dispatch] at h
  split at h
  · cases h
    exact ⟨rfl, rfl, .inl ⟨hmain, fun _ => Iff.rfl, .inr rfl⟩⟩
  · simp only [Option.bind_eq_bind, Option.bind_eq_some_iff] at h
    obtain ⟨p, hp, h⟩ := h
    split at h
    · split at h
      · cases h
        -- it was active too early, and is back in the wheel
        have hkept : s.Kept (s.setPoll _ { p with bTimeout := false }) := kept_setPoll hp rfl
        exact ⟨rfl, hadd _ _, .inl ⟨hmain, fun co => hkept.waiting co, .inl rfl⟩⟩
      · obtain ⟨hended, htimeout, hrest⟩ := hwake h rfl hmain rfl (hadd _ _) rfl
        exact ⟨hended, htimeout, .inr hrest⟩
    · obtain ⟨hended, htimeout, hrest⟩ := hwake h rfl hmain rfl rfl rfl
      exact ⟨hended, htimeout, .inr hrest⟩

end Libco.Env

/-! ## The process -/

/-- The coroutines of a process. -/
inductive Co (cnt : Nat)
  /-- `readwrite_routine` of a task. -/
  | task (t : Fin cnt)
  /-- `accept_routine`. -/
  | accept
  deriving DecidableEq, Repr

/-- A process: its scheduler and its pool. -/
structure Process (cnt : Nat) where
  env : Env (Co cnt)
  pool : Pool cnt

namespace Process

variable {cnt : Nat}

/-- `POLLIN|POLLERR|POLLHUP` of a descriptor. -/
def pollIn (fd : Nat) : List PollFd := [⟨fd, 0x019⟩]

/-- The descriptors of the `poll` that `accept_routine` sleeps in. -/
def pollNone : List PollFd := [⟨-1, 0⟩]

/-- The state in which `main` starts to create tasks, at the time `now`. -/
def init (cnt now : Nat) : Process cnt := ⟨Env.init now, TaskPool.init cnt⟩

/-- The **steps** of a process that listens to `listenFd`. The outcomes of the kernel, of
`co_accept` and of `readData` are free, and so is the clock, as long as it is not set back behind
the last round of the loop: `AddTimeout` would fail then, and `co_poll` return without waiting. -/
inductive Step (listenFd : Nat) : Process cnt → Process cnt → Prop
  /-- `main` creates the next task and resumes it; the task pushes itself and yields. -/
  | startTask {env env₁ env₂ : Env (Co cnt)} {pool : Pool cnt} (h : pool.started < cnt)
      (haccept : pool.accept = .notStarted) (hmain : env.pCallStack = [])
      (hresume : env.coResume (.task ⟨pool.started, h⟩) = some env₁)
      (hyield : env₁.coYieldEnv = some env₂) :
      Step listenFd ⟨env, pool⟩ ⟨env₂, pool.startTask ⟨pool.started, h⟩⟩
  /-- `main` creates and resumes `accept_routine`. -/
  | startAccept {env env₁ : Env (Co cnt)} {pool : Pool cnt} (h : pool.started = cnt)
      (haccept : pool.accept = .notStarted) (hmain : env.pCallStack = [])
      (hresume : env.coResume .accept = some env₁) :
      Step listenFd ⟨env, pool⟩ ⟨env₁, { pool with accept := .running }⟩
  /-- `accept_routine` finds no idle task, and sleeps. -/
  | sleep {env env₁ : Env (Co cnt)} {pool : Pool cnt} {rest : List (Co cnt)}
      (hself : env.pCallStack = .accept :: rest) (hstack : pool.stack = [])
      (kernel : Int → Option CtlError) (now : Nat) {how : PollStart}
      (hclock : env.pTimeout.ullStart ≤ now)
      (hpoll : env.coPollInner kernel pollNone 10 now true = some (how, env₁)) :
      Step listenFd ⟨env, pool⟩ ⟨env₁, pool.acceptRound none⟩
  /-- `co_accept` fails, and `accept_routine` waits for a connection. -/
  | listen {env env₁ : Env (Co cnt)} {pool : Pool cnt} {rest : List (Co cnt)}
      (hself : env.pCallStack = .accept :: rest) (hstack : pool.stack ≠ [])
      (kernel : Int → Option CtlError) (now : Nat) {how : PollStart}
      (hclock : env.pTimeout.ullStart ≤ now)
      (hpoll : env.coPollInner kernel (pollIn listenFd) 1000 now false = some (how, env₁)) :
      Step listenFd ⟨env, pool⟩ ⟨env₁, pool.acceptRound none⟩
  /-- `co_accept` returns a descriptor, and `accept_routine` hands it to the task on top of the
  stack, which polls it. -/
  | hand {env env₁ env₂ : Env (Co cnt)} {pool : Pool cnt} {rest : List (Co cnt)}
      (hself : env.pCallStack = .accept :: rest) {t : Fin cnt} {tasks : List (Fin cnt)}
      (hstack : pool.stack = t :: tasks) {fd : Nat} (hfresh : fd ∉ pool.openFds)
      (hresume : env.coResume (.task t) = some env₁) (kernel : Int → Option CtlError) (now : Nat)
      {how : PollStart} (hclock : env.pTimeout.ullStart ≤ now)
      (hpoll : env₁.coPollInner kernel (pollIn fd) 1000 now false = some (how, env₂)) :
      Step listenFd ⟨env, pool⟩ ⟨env₂, pool.acceptRound (some fd)⟩
  /-- `main` is in `co_eventloop`, and makes a round. -/
  | round {env env₁ : Env (Co cnt)} {pool : Pool cnt} (haccept : pool.accept ≠ .notStarted)
      (hmain : env.pCallStack = []) (hpc : env.pc = .own)
      {events : List (Registration × BitVec 32)} (hevents : Delivered env.epoll events) {now : Nat}
      (hgap : now - env.pTimeout.ullStart + 1 < 2 ^ 31)
      (hround : env.round events now = some env₁) : Step listenFd ⟨env, pool⟩ ⟨env₁, pool⟩
  /-- The loop resumes no coroutine for an active item, or is at its end. -/
  | pass {env env₁ : Env (Co cnt)} {pool : Pool cnt} {now : Nat} (hmain : env.pCallStack = [])
      (hpc : env.pc = .dispatching now) (hdispatch : env.dispatch now = some env₁)
      (hself : env₁.pCallStack = []) : Step listenFd ⟨env, pool⟩ ⟨env₁, pool⟩
  /-- The loop resumes `accept_routine`. -/
  | resumeAccept {env env₁ : Env (Co cnt)} {pool : Pool cnt} {now : Nat}
      (hmain : env.pCallStack = []) (hpc : env.pc = .dispatching now)
      (hdispatch : env.dispatch now = some env₁) {rest : List (Co cnt)}
      (hself : env₁.pCallStack = .accept :: rest) :
      Step listenFd ⟨env, pool⟩ ⟨env₁, { pool with accept := .running }⟩
  /-- The loop resumes a task, which reads and goes on polling. -/
  | readOn {env env₁ env₂ : Env (Co cnt)} {pool : Pool cnt} {now : Nat}
      (hmain : env.pCallStack = []) (hpc : env.pc = .dispatching now)
      (hdispatch : env.dispatch now = some env₁) {t : Fin cnt} {rest : List (Co cnt)}
      (hself : env₁.pCallStack = .task t :: rest) {fd recycle : Nat}
      (hpolling : (pool.tasks t).pc = .polling fd recycle) {ret : ErrorCode}
      (hret : Cocgi.nextRecycle ret recycle ≠ none) (kernel : Int → Option CtlError) (now' : Nat)
      {how : PollStart} (hclock : env₁.pTimeout.ullStart ≤ now')
      (hpoll : env₁.coPollInner kernel (pollIn fd) 1000 now' false = some (how, env₂)) :
      Step listenFd ⟨env, pool⟩ ⟨env₂, pool.resumeTask t fd recycle ret⟩
  /-- The loop resumes a task, which reads, closes its descriptor, pushes itself and yields. -/
  | readLast {env env₁ env₂ : Env (Co cnt)} {pool : Pool cnt} {now : Nat}
      (hmain : env.pCallStack = []) (hpc : env.pc = .dispatching now)
      (hdispatch : env.dispatch now = some env₁) {t : Fin cnt} {rest : List (Co cnt)}
      (hself : env₁.pCallStack = .task t :: rest) {fd recycle : Nat}
      (hpolling : (pool.tasks t).pc = .polling fd recycle) {ret : ErrorCode}
      (hret : Cocgi.nextRecycle ret recycle = none) (hfd : (pool.tasks t).fd = none)
      (hyield : { env₁ with epoll := coEpollCtlDel env₁.epoll fd }.coYieldEnv = some env₂) :
      Step listenFd ⟨env, pool⟩ ⟨env₂, pool.resumeTask t fd recycle ret⟩

/-- The states a process can get into, from its start at a time other than zero. -/
def Reachable (listenFd : Nat) (s : Process cnt) : Prop :=
  ∃ now, 0 < now ∧ Relation.ReflTransGen (Step listenFd) (init cnt now) s

/-- The coroutines where the pool has them: the running one on the call stack, and those that poll
waiting in the scheduler. -/
structure Agrees (s : Process cnt) : Prop where
  ended : s.env.ended = []
  stack : s.env.pCallStack = if s.pool.accept = .running then [.accept] else []
  task : ∀ t, s.env.Waiting (.task t) ↔ ∃ fd recycle, (s.pool.tasks t).pc = .polling fd recycle
  accept : s.env.Waiting .accept ↔ s.pool.accept = .pollEmpty ∨ s.pool.accept = .pollListen
  own : s.pool.accept = .notStarted → s.env.pc = .own

/-- What is to hold of a process: its scheduler and its pool are in states that these can get into,
and agree. -/
structure Inv (s : Process cnt) : Prop where
  env : Libco.Reachable s.env
  pool : TaskPool.Reachable s.pool
  agrees : s.Agrees

theorem libco_step {κ : Type} {s s' : Env κ} (h : Libco.Reachable s) (hstep : Libco.Step s s') :
    Libco.Reachable s' := by
  obtain ⟨now, hnow, hrun⟩ := h
  exact ⟨now, hnow, hrun.tail hstep⟩

theorem coResume_eq {κ : Type} {s s' : Env κ} {co : κ} (h : s.coResume co = some s') :
    s' = { s with pCallStack := co :: s.pCallStack } := by
  rw [Env.coResume] at h
  split at h
  · exact (Option.some.inj h).symm
  · cases h

theorem coYieldEnv_eq {κ : Type} {s s' : Env κ} {co : κ} {rest : List κ}
    (h : s.coYieldEnv = some s') (hstack : s.pCallStack = co :: rest) :
    s' = { s with pCallStack := rest } := by
  rw [Env.coYieldEnv, hstack] at h
  exact (Option.some.inj h).symm

theorem init_inv {now : Nat} (hnow : 0 < now) : (init cnt now).Inv where
  env := ⟨now, hnow, .refl⟩
  pool := .refl
  agrees := by
    refine ⟨rfl, rfl, fun t => ⟨?_, ?_⟩, ⟨?_, ?_⟩, fun _ => rfl⟩
    · rintro ⟨x, p, hp, -⟩
      cases hp
    · rintro ⟨fd, recycle, h⟩
      cases h
    · rintro ⟨x, p, hp, -⟩
      cases hp
    · rintro (h | h) <;> cases h

variable {env env₁ env₂ : Env (Co cnt)} {pool : Pool cnt}

theorem Agrees.notEnded (hag : Agrees ⟨env, pool⟩) (co : Co cnt) : co ∉ env.ended := by
  rw [show env.ended = [] from hag.ended]
  exact List.not_mem_nil

/-- A task that the pool does not have at `poll` does not wait. -/
theorem Agrees.not_waiting (hag : Agrees ⟨env, pool⟩) {t : Fin cnt} {pc : TaskPool.Pc}
    (hpc : (pool.tasks t).pc = pc) (hne : ∀ fd recycle, pc ≠ .polling fd recycle) :
    ¬ env.Waiting (.task t) := by
  rw [hag.task]
  rintro ⟨fd, recycle, hpolling⟩
  exact hne fd recycle (hpc.symm.trans hpolling)

/-- `main` starts a task. -/
theorem Inv.startTask (hi : Inv ⟨env, pool⟩) (h : pool.started < cnt)
    (haccept : pool.accept = .notStarted) (hmain : env.pCallStack = [])
    (hresume : env.coResume (.task ⟨pool.started, h⟩) = some env₁)
    (hyield : env₁.coYieldEnv = some env₂) :
    Inv ⟨env₂, pool.startTask ⟨pool.started, h⟩⟩ := by
  have hpool := TaskPool.inv_of_reachable hi.pool
  have hag := hi.agrees
  have hpc : (pool.tasks ⟨pool.started, h⟩).pc = .notStarted :=
    (hpool.notStarted_iff _).mpr (le_refl _)
  have hwait := hag.not_waiting hpc (by simp)
  have hparked : env.Parked (.task ⟨pool.started, h⟩) :=
    Env.parked_of_not_waiting (by simp [hmain]) (hag.notEnded _) hwait
  obtain rfl := coResume_eq hresume
  obtain rfl := coYieldEnv_eq hyield rfl
  refine ⟨libco_step (libco_step hi.env (.resume hparked hresume)) (.yield hyield),
    hi.pool.tail (.startTask h haccept), hag.ended, ?_, fun t => ?_, ?_, fun _ => hag.own haccept⟩
  · rw [startTask_eq]
    exact hag.stack
  · rw [startTask_eq]
    by_cases ht : t = ⟨pool.started, h⟩
    · subst ht
      simpa [Pool.park] using hwait
    · simpa [Pool.park, Function.update_of_ne ht] using hag.task t
  · rw [startTask_eq]
    exact hag.accept

/-- `main` starts `accept_routine`. -/
theorem Inv.startAccept (hi : Inv ⟨env, pool⟩) (h : pool.started = cnt)
    (haccept : pool.accept = .notStarted) (hmain : env.pCallStack = [])
    (hresume : env.coResume .accept = some env₁) :
    Inv ⟨env₁, { pool with accept := .running }⟩ := by
  have hag := hi.agrees
  have hwait : ¬ env.Waiting .accept := by
    rw [hag.accept]
    simp [haccept]
  have hparked : env.Parked .accept :=
    Env.parked_of_not_waiting (by simp [hmain]) (hag.notEnded _) hwait
  obtain rfl := coResume_eq hresume
  refine ⟨libco_step hi.env (.resume hparked hresume), hi.pool.tail (.startAccept h haccept),
    hag.ended, ?_, hag.task, ?_, fun h => (by cases h)⟩
  · simp [hmain]
  · refine ⟨fun h => absurd h hwait, ?_⟩
    rintro (h | h) <;> cases h

/-- The process when `accept_routine` has control. -/
theorem Agrees.of_accept (hag : Agrees ⟨env, pool⟩) {rest : List (Co cnt)}
    (hself : env.pCallStack = .accept :: rest) : pool.accept = .running ∧ rest = [] := by
  have hstack := hag.stack
  simp only [hself] at hstack
  split at hstack
  · rename_i haccept
    exact ⟨haccept, by simpa using hstack⟩
  · cases hstack

/-- `accept_routine` polls. -/
theorem Inv.acceptPoll (hi : Inv ⟨env, pool⟩) {rest : List (Co cnt)}
    (hself : env.pCallStack = .accept :: rest) {kernel : Int → Option CtlError}
    {fds : List PollFd} {timeout : Int} {now : Nat} {pollfunc : Bool} {how : PollStart}
    (htimeout : timeout ≠ 0) (hclock : env.pTimeout.ullStart ≤ now)
    (hdirect : pollfunc = false ∨ ∃ f ∈ fds, f.fd ≤ -1)
    (hpoll : env.coPollInner kernel fds timeout now pollfunc = some (how, env₁)) :
    Inv ⟨env₁, pool.acceptRound none⟩ := by
  have hag := hi.agrees
  obtain ⟨haccept, rfl⟩ := hag.of_accept hself
  obtain ⟨-, hstack, hended, hpc, hwait⟩ := (Env.inv_of_reachable hi.env).coPollInner_waits hself
    htimeout hclock hdirect hpoll
  -- which of the two polls it is depends on the stack of idle tasks
  have hround : ∃ pc, (pc = .pollEmpty ∨ pc = .pollListen) ∧
      pool.acceptRound none = { pool with accept := pc } := by
    rw [Pool.acceptRound]
    split
    · exact ⟨_, .inl rfl, rfl⟩
    · exact ⟨_, .inr rfl, rfl⟩
  have hstep := TaskPool.Step.acceptRound haccept none (fun fd h => by cases h)
  obtain ⟨pc, hpc', hround⟩ := hround
  rw [hround] at hstep ⊢
  refine ⟨libco_step hi.env (.poll kernel fds timeout now pollfunc hpoll), hi.pool.tail hstep,
    hended.trans hag.ended, ?_, fun t => ?_, ?_, fun h => ?_⟩
  · rw [hstack]
    obtain rfl | rfl := hpc' <;> rfl
  · rw [hwait]
    simpa using hag.task t
  · rw [hwait]
    simpa using hpc'
  · simp only at h
    simp [h] at hpc'

/-- `accept_routine` hands a descriptor to a task. -/
theorem Inv.hand (hi : Inv ⟨env, pool⟩) {rest : List (Co cnt)}
    (hself : env.pCallStack = .accept :: rest) {t : Fin cnt} {tasks : List (Fin cnt)}
    (hstack : pool.stack = t :: tasks) {fd : Nat} (hfresh : fd ∉ pool.openFds)
    (hresume : env.coResume (.task t) = some env₁) {kernel : Int → Option CtlError} {now : Nat}
    {how : PollStart} (hclock : env.pTimeout.ullStart ≤ now)
    (hpoll : env₁.coPollInner kernel (pollIn fd) 1000 now false = some (how, env₂)) :
    Inv ⟨env₂, pool.acceptRound (some fd)⟩ := by
  have hpool := TaskPool.inv_of_reachable hi.pool
  have hag := hi.agrees
  obtain ⟨haccept, rfl⟩ := hag.of_accept hself
  have hpc : (pool.tasks t).pc = .parked := (hpool.mem_stack t).mp (by simp [hstack])
  have hparked : env.Parked (.task t) :=
    Env.parked_of_not_waiting (by simp [hself]) (hag.notEnded _) (hag.not_waiting hpc (by simp))
  have henv₁ := libco_step hi.env (.resume hparked hresume)
  obtain rfl := coResume_eq hresume
  -- the task runs on top of `accept_routine`, which goes on when the task waits
  have hself₁ : ({ env with pCallStack := .task t :: env.pCallStack } : Env (Co cnt)).pCallStack
      = .task t :: [.accept] := by
    rw [hself]
  obtain ⟨-, hstack₂, hended, hpc₂, hwait⟩ := (Env.inv_of_reachable henv₁).coPollInner_waits hself₁
    (by decide) hclock (.inl rfl) hpoll
  have hround : pool.acceptRound (some fd) = pool.employ fd t tasks := by
    simp [Pool.acceptRound, Pool.record, hstack, Pool.hand, Pool.enter, Pool.setTask, Pool.employ]
  have hstep := TaskPool.Step.acceptRound haccept (some fd) (fun fd' h => by cases h; exact hfresh)
  rw [hround] at hstep ⊢
  refine ⟨libco_step henv₁ (.poll kernel (pollIn fd) 1000 now false hpoll), hi.pool.tail hstep,
    hended.trans hag.ended, ?_, fun t' => ?_, ?_, fun h => ?_⟩
  · rw [hstack₂]
    simp [Pool.employ, haccept]
  · rw [hwait]
    by_cases ht : t' = t
    · subst ht
      simp [Pool.employ]
    · -- the others wait as before
      have htask : Env.Waiting { env with pCallStack := .task t :: env.pCallStack } (.task t')
          ↔ _ := hag.task t'
      simp [Pool.employ, ht, htask]
  · rw [hwait]
    have hacc : Env.Waiting { env with pCallStack := .task t :: env.pCallStack } .accept
        ↔ _ := hag.accept
    simpa [Pool.employ] using hacc
  · have hrun : pool.accept = .notStarted := h
    rw [haccept] at hrun
    cases hrun

/-- The process when the loop of `main` has control. -/
theorem Agrees.of_loop (hag : Agrees ⟨env, pool⟩) (hmain : env.pCallStack = []) {now : Nat}
    (hpc : env.pc = .dispatching now) :
    pool.accept = .pollEmpty ∨ pool.accept = .pollListen := by
  have hstack := hag.stack
  simp only [hmain] at hstack
  cases haccept : pool.accept with
  | notStarted =>
      have hown := hag.own haccept
      rw [show env.pc = .own from hown] at hpc
      cases hpc
  | running => simp [haccept] at hstack
  | pollEmpty => exact .inl rfl
  | pollListen => exact .inr rfl

/-- The loop makes a round. -/
theorem Inv.round (hi : Inv ⟨env, pool⟩) (haccept : pool.accept ≠ .notStarted)
    (hmain : env.pCallStack = []) (hpc : env.pc = .own) {events : List (Registration × BitVec 32)}
    (hevents : Delivered env.epoll events) {now : Nat}
    (hgap : now - env.pTimeout.ullStart + 1 < 2 ^ 31)
    (hround : env.round events now = some env₁) : Inv ⟨env₁, pool⟩ := by
  have hag := hi.agrees
  obtain ⟨env', hround', -, -, hkept, hstack, hended, -, -, -⟩ :=
    (Env.inv_of_reachable hi.env).round hpc hevents hgap
  obtain rfl : env' = env₁ := Option.some.inj (hround'.symm.trans hround)
  refine ⟨libco_step hi.env (.round hpc hmain hevents hgap hround), hi.pool,
    hended.trans hag.ended, hstack.trans hag.stack, fun t => (hkept.waiting _).trans (hag.task t),
    (hkept.waiting _).trans hag.accept, fun h => absurd h haccept⟩

/-- The loop goes on without resuming a coroutine. -/
theorem Inv.pass (hi : Inv ⟨env, pool⟩) {now : Nat} (hmain : env.pCallStack = [])
    (hpc : env.pc = .dispatching now) (hdispatch : env.dispatch now = some env₁)
    (hself : env₁.pCallStack = []) : Inv ⟨env₁, pool⟩ := by
  have hag := hi.agrees
  have haccept := hag.of_loop hmain hpc
  obtain ⟨hended, -, ⟨hstack, hwait, -⟩ | ⟨co, hstack, -⟩⟩ :=
    (Env.inv_of_reachable hi.env).dispatch_cases hmain hdispatch
  · refine ⟨libco_step hi.env (.dispatch hpc hmain hdispatch), hi.pool, hended.trans hag.ended, ?_,
      fun t => (hwait _).trans (hag.task t), (hwait _).trans hag.accept, fun h => ?_⟩
    · exact hstack.trans (hmain.symm.trans hag.stack)
    · simp only at h
      simp [h] at haccept
  · rw [hself] at hstack
    cases hstack

/-- A coroutine that the loop resumes was waiting, and waits no more. -/
theorem Inv.resumed (hi : Inv ⟨env, pool⟩) {now : Nat} (hmain : env.pCallStack = [])
    (hdispatch : env.dispatch now = some env₁) {co : Co cnt} {rest : List (Co cnt)}
    (hself : env₁.pCallStack = co :: rest) :
    rest = [] ∧ env.Waiting co ∧ env₁.ended = [] ∧ env₁.pTimeout = env.pTimeout ∧
      ∀ co', env₁.Waiting co' ↔ env.Waiting co' ∧ co' ≠ co := by
  obtain ⟨hended, htimeout, ⟨hstack, -⟩ | ⟨co', hstack, hco, -, hwait⟩⟩ :=
    (Env.inv_of_reachable hi.env).dispatch_cases hmain hdispatch
  · rw [hself] at hstack
    cases hstack
  · rw [hself] at hstack
    cases hstack
    exact ⟨rfl, hco, hended.trans hi.agrees.ended, htimeout, hwait⟩

/-- The loop resumes `accept_routine`. -/
theorem Inv.resumeAccept (hi : Inv ⟨env, pool⟩) {now : Nat} (hmain : env.pCallStack = [])
    (hpc : env.pc = .dispatching now) (hdispatch : env.dispatch now = some env₁)
    {rest : List (Co cnt)} (hself : env₁.pCallStack = .accept :: rest) :
    Inv ⟨env₁, { pool with accept := .running }⟩ := by
  have hag := hi.agrees
  obtain ⟨rfl, hwaited, hended, -, hwait⟩ := hi.resumed hmain hdispatch hself
  refine ⟨libco_step hi.env (.dispatch hpc hmain hdispatch),
    hi.pool.tail (.resumeAccept (hag.accept.mp hwaited)), hended, ?_, fun t => ?_, ?_,
    fun h => (by cases h)⟩
  · exact hself
  · rw [hwait]
    simpa using hag.task t
  · rw [hwait]
    simp

/-- The loop resumes a task, which goes on polling. -/
theorem Inv.readOn (hi : Inv ⟨env, pool⟩) {now : Nat} (hmain : env.pCallStack = [])
    (hpc : env.pc = .dispatching now) (hdispatch : env.dispatch now = some env₁) {t : Fin cnt}
    {rest : List (Co cnt)} (hself : env₁.pCallStack = .task t :: rest) {fd recycle : Nat}
    (hpolling : (pool.tasks t).pc = .polling fd recycle) {ret : ErrorCode}
    (hret : Cocgi.nextRecycle ret recycle ≠ none) {kernel : Int → Option CtlError} {now' : Nat}
    {how : PollStart} (hclock : env₁.pTimeout.ullStart ≤ now')
    (hpoll : env₁.coPollInner kernel (pollIn fd) 1000 now' false = some (how, env₂)) :
    Inv ⟨env₂, pool.resumeTask t fd recycle ret⟩ := by
  have hag := hi.agrees
  have hpool := TaskPool.inv_of_reachable hi.pool
  have haccept := hag.of_loop hmain hpc
  obtain ⟨rfl, hwaited, hended, -, hwait⟩ := hi.resumed hmain hdispatch hself
  have henv₁ := libco_step hi.env (.dispatch hpc hmain hdispatch)
  obtain ⟨-, hstack₂, hended₂, -, hwait₂⟩ := (Env.inv_of_reachable henv₁).coPollInner_waits hself
    (by decide) hclock (.inl rfl) hpoll
  -- the task keeps its descriptor, with the number of its idle rounds
  obtain ⟨next, hnext⟩ := Option.ne_none_iff_exists'.mp hret
  have hstep := TaskPool.Step.resumeTask haccept hpolling ret
  rw [resumeTask_eq_setTask hpool hnext] at hstep ⊢
  refine ⟨libco_step henv₁ (.poll kernel (pollIn fd) 1000 now' false hpoll), hi.pool.tail hstep,
    hended₂.trans hended, ?_, fun t' => ?_, ?_, fun h => ?_⟩
  · exact hstack₂.trans (hmain.symm.trans hag.stack)
  · rw [hwait₂, hwait]
    by_cases ht : t' = t
    · subst ht
      simp [Pool.setTask]
    · have htask := hag.task t'
      simp only at htask
      simp [Pool.setTask, ht, htask]
  · rw [hwait₂, hwait]
    have hacc := hag.accept
    simpa [Pool.setTask] using hacc
  · have hstart : pool.accept = .notStarted := h
    simp [hstart] at haccept

/-- The loop resumes a task, which closes its descriptor and parks itself. -/
theorem Inv.readLast (hi : Inv ⟨env, pool⟩) {now : Nat} (hmain : env.pCallStack = [])
    (hpc : env.pc = .dispatching now) (hdispatch : env.dispatch now = some env₁) {t : Fin cnt}
    {rest : List (Co cnt)} (hself : env₁.pCallStack = .task t :: rest) {fd recycle : Nat}
    (hpolling : (pool.tasks t).pc = .polling fd recycle) {ret : ErrorCode}
    (hret : Cocgi.nextRecycle ret recycle = none)
    (hyield : { env₁ with epoll := coEpollCtlDel env₁.epoll fd }.coYieldEnv = some env₂) :
    Inv ⟨env₂, pool.resumeTask t fd recycle ret⟩ := by
  have hag := hi.agrees
  have hpool := TaskPool.inv_of_reachable hi.pool
  have haccept := hag.of_loop hmain hpc
  obtain ⟨rfl, hwaited, hended, -, hwait⟩ := hi.resumed hmain hdispatch hself
  -- `close` takes the descriptor out of the `epoll` set, and the task waits for nothing
  have henv₁ := libco_step (libco_step hi.env (.dispatch hpc hmain hdispatch)) (.close fd)
  have hstep := TaskPool.Step.resumeTask haccept hpolling ret
  rw [resumeTask_eq_retire hpool hret] at hstep ⊢
  have henv₂ := libco_step henv₁ (.yield hyield)
  obtain rfl := coYieldEnv_eq hyield hself
  refine ⟨henv₂, hi.pool.tail hstep, hended, ?_, fun t' => ?_, ?_, fun h => ?_⟩
  · exact hmain.symm.trans hag.stack
  · refine (hwait _).trans ?_
    by_cases ht : t' = t
    · subst ht
      simp [Pool.retire]
    · have htask := hag.task t'
      simp only at htask
      simp [Pool.retire, ht, htask]
  · refine (hwait _).trans ?_
    have hacc := hag.accept
    simpa [Pool.retire] using hacc
  · have hstart : pool.accept = .notStarted := h
    simp [hstart] at haccept

/-- **Each step of a process keeps the invariant**. -/
theorem Inv.step {listenFd : Nat} {s s' : Process cnt} (hi : s.Inv) (hstep : Step listenFd s s') :
    s'.Inv := by
  cases hstep with
  | startTask h haccept hmain hresume hyield => exact hi.startTask h haccept hmain hresume hyield
  | startAccept h haccept hmain hresume => exact hi.startAccept h haccept hmain hresume
  | sleep hself hstack kernel now hclock hpoll =>
      refine hi.acceptPoll hself (by decide) hclock (.inr ⟨⟨-1, 0⟩, ?_, ?_⟩) hpoll
      · exact List.mem_singleton_self _
      · exact le_refl _
  | listen hself hstack kernel now hclock hpoll =>
      exact hi.acceptPoll hself (by decide) hclock (.inl rfl) hpoll
  | hand hself hstack hfresh hresume kernel now hclock hpoll =>
      exact hi.hand hself hstack hfresh hresume hclock hpoll
  | round haccept hmain hpc hevents hgap hround =>
      exact hi.round haccept hmain hpc hevents hgap hround
  | pass hmain hpc hdispatch hself => exact hi.pass hmain hpc hdispatch hself
  | resumeAccept hmain hpc hdispatch hself => exact hi.resumeAccept hmain hpc hdispatch hself
  | readOn hmain hpc hdispatch hself hpolling hret kernel now' hclock hpoll =>
      exact hi.readOn hmain hpc hdispatch hself hpolling hret hclock hpoll
  | readLast hmain hpc hdispatch hself hpolling hret hfd hyield =>
      exact hi.readLast hmain hpc hdispatch hself hpolling hret hyield

theorem inv_of_reachable {listenFd : Nat} {s : Process cnt} (h : Reachable listenFd s) : s.Inv := by
  obtain ⟨now, hnow, hrun⟩ := h
  induction hrun with
  | refl => exact init_inv hnow
  | tail _ hstep ih => exact ih.step hstep

/-- **The process runs on its scheduler as the pool expects**: what is reachable is so in both
models; the call stack above `main` is `accept_routine`, while it runs, or empty; and the coroutines
that wait in the scheduler are those that the pool has at `poll`. -/
theorem process_reachable {listenFd : Nat} {s : Process cnt} (h : Reachable listenFd s) :
    Libco.Reachable s.env ∧ TaskPool.Reachable s.pool ∧
      s.env.pCallStack = (if s.pool.accept = .running then [.accept] else []) ∧
      (∀ t, s.env.Waiting (.task t) ↔ ∃ fd, s.pool.Serves t fd) ∧
      (s.env.Waiting .accept ↔ s.pool.accept = .pollEmpty ∨ s.pool.accept = .pollListen) := by
  have hi := inv_of_reachable h
  exact ⟨hi.env, hi.pool, hi.agrees.stack, hi.agrees.task, hi.agrees.accept⟩

/-- A process with one task, which has got the descriptor 5. -/
theorem exists_serving :
    ∃ s : Process 1, Reachable 3 s ∧ s.pool.accept = .running ∧ s.pool.stack = [] ∧
      s.pool.Serves 0 5 := by
  have hrun : Relation.ReflTransGen (Step 3) (init 1 1) _ :=
    ((Relation.ReflTransGen.refl.tail (.startTask Nat.one_pos rfl rfl rfl rfl)).tail
      (.startAccept rfl rfl rfl rfl)).tail
      (.hand rfl rfl (Finset.notMem_empty 5) rfl (fun _ => none) 1 (le_refl _) rfl)
  exact ⟨_, ⟨1, Nat.one_pos, hrun⟩, rfl, rfl, 0, rfl⟩

theorem process_reachable_serving :
    ∃ s : Process 1, s.pool.Serves 0 5 ∧ s.env.Waiting (.task 0) ∧
      s.env.pCallStack = [.accept] := by
  obtain ⟨s, hreach, haccept, -, hserves⟩ := exists_serving
  obtain ⟨-, -, hstack, htask, -⟩ := process_reachable hreach
  refine ⟨s, hserves, (htask 0).mpr ⟨5, hserves⟩, ?_⟩
  rw [hstack, if_pos haccept]

/-- A task reads after it has been resumed: it goes on polling, or closes its descriptor and parks
itself. -/
structure Reads (listenFd : Nat) (s : Process cnt) (env₁ : Env (Co cnt)) (t : Fin cnt)
    (fd recycle : Nat) : Prop where
  on : ∀ ret, Cocgi.nextRecycle ret recycle ≠ none → ∀ kernel now,
    s.env.pTimeout.ullStart ≤ now →
      ∃ env₂, env₁.coPollInner kernel (pollIn fd) 1000 now false = some (.waits, env₂) ∧
        Step listenFd s ⟨env₂, s.pool.resumeTask t fd recycle ret⟩
  last : ∀ ret, Cocgi.nextRecycle ret recycle = none →
    ∃ env₂, { env₁ with epoll := coEpollCtlDel env₁.epoll fd }.coYieldEnv = some env₂ ∧
      Step listenFd s ⟨env₂, s.pool.resumeTask t fd recycle ret⟩

/-- The next step of a process: each call of the coroutine library that it makes succeeds, whatever
the kernel answers to it, and at any time that is not before the last round of the loop. -/
structure Progress (listenFd : Nat) (s : Process cnt) : Prop where
  startTask : ∀ h : s.pool.started < cnt, s.pool.accept = .notStarted →
    ∃ env₁ env₂, s.env.coResume (.task ⟨s.pool.started, h⟩) = some env₁ ∧
      env₁.coYieldEnv = some env₂ ∧
      Step listenFd s ⟨env₂, s.pool.startTask ⟨s.pool.started, h⟩⟩
  startAccept : s.pool.started = cnt → s.pool.accept = .notStarted →
    ∃ env₁, s.env.coResume .accept = some env₁ ∧
      Step listenFd s ⟨env₁, { s.pool with accept := .running }⟩
  sleep : s.pool.accept = .running → s.pool.stack = [] → ∀ kernel now,
    s.env.pTimeout.ullStart ≤ now →
      ∃ env₁, s.env.coPollInner kernel pollNone 10 now true = some (.waits, env₁) ∧
        Step listenFd s ⟨env₁, s.pool.acceptRound none⟩
  listen : s.pool.accept = .running → s.pool.stack ≠ [] → ∀ kernel now,
    s.env.pTimeout.ullStart ≤ now →
      ∃ env₁, s.env.coPollInner kernel (pollIn listenFd) 1000 now false = some (.waits, env₁) ∧
        Step listenFd s ⟨env₁, s.pool.acceptRound none⟩
  hand : s.pool.accept = .running → ∀ t tasks, s.pool.stack = t :: tasks →
    ∀ fd, fd ∉ s.pool.openFds → ∀ kernel now, s.env.pTimeout.ullStart ≤ now →
      ∃ env₁ env₂, s.env.coResume (.task t) = some env₁ ∧
        env₁.coPollInner kernel (pollIn fd) 1000 now false = some (.waits, env₂) ∧
        Step listenFd s ⟨env₂, s.pool.acceptRound (some fd)⟩
  round : s.pool.accept = .pollEmpty ∨ s.pool.accept = .pollListen → s.env.pc = .own →
    ∀ events now, Delivered s.env.epoll events → now - s.env.pTimeout.ullStart + 1 < 2 ^ 31 →
      ∃ env₁, s.env.round events now = some env₁ ∧ env₁.pc = .dispatching now ∧
        Step listenFd s ⟨env₁, s.pool⟩
  dispatch : s.pool.accept = .pollEmpty ∨ s.pool.accept = .pollListen →
    ∀ now, s.env.pc = .dispatching now → ∃ env₁, s.env.dispatch now = some env₁ ∧
      (env₁.pCallStack = [] ∧ Step listenFd s ⟨env₁, s.pool⟩ ∨
        env₁.pCallStack = [.accept] ∧
          Step listenFd s ⟨env₁, { s.pool with accept := .running }⟩ ∨
        ∃ t fd recycle, env₁.pCallStack = [.task t] ∧
          (s.pool.tasks t).pc = .polling fd recycle ∧ Reads listenFd s env₁ t fd recycle)

theorem coResume_of_short {κ : Type} {s : Env κ} (co : κ) (h : s.pCallStack.length ≤ 1) :
    s.coResume co = some { s with pCallStack := co :: s.pCallStack } := by
  rw [Env.coResume, if_pos (by omega)]

/-- A coroutine that polls with a time limit waits, whatever the kernel says. -/
theorem exists_waits {κ : Type} {s : Env κ} (hi : s.Inv) {self : κ} {rest : List κ}
    (hstack : s.pCallStack = self :: rest) (kernel : Int → Option CtlError) (fds : List PollFd)
    {timeout : Int} (htimeout : timeout ≠ 0) {now : Nat} (hclock : s.pTimeout.ullStart ≤ now)
    {pollfunc : Bool} (hdirect : pollfunc = false ∨ ∃ f ∈ fds, f.fd ≤ -1) :
    ∃ s', s.coPollInner kernel fds timeout now pollfunc = some (.waits, s') := by
  obtain ⟨how, s', hpoll, -⟩ :=
    hi.coPollInner hstack kernel fds timeout now pollfunc fun hzero => absurd hzero htimeout
  obtain ⟨rfl, -⟩ := hi.coPollInner_waits hstack htimeout hclock hdirect hpoll
  exact ⟨s', hpoll⟩

/-- `accept_routine` can hand over a descriptor. -/
theorem Inv.exists_hand {listenFd : Nat} (hi : Inv ⟨env, pool⟩) (hself : env.pCallStack = [.accept])
    {t : Fin cnt} {tasks : List (Fin cnt)} (hstack : pool.stack = t :: tasks) {fd : Nat}
    (hfresh : fd ∉ pool.openFds) (kernel : Int → Option CtlError) {now : Nat}
    (hclock : env.pTimeout.ullStart ≤ now) :
    ∃ env₁ env₂, env.coResume (.task t) = some env₁ ∧
      env₁.coPollInner kernel (pollIn fd) 1000 now false = some (.waits, env₂) ∧
      Step listenFd ⟨env, pool⟩ ⟨env₂, pool.acceptRound (some fd)⟩ := by
  have hpool := TaskPool.inv_of_reachable hi.pool
  have hpc : (pool.tasks t).pc = .parked := (hpool.mem_stack t).mp (by simp [hstack])
  have hparked : env.Parked (.task t) := Env.parked_of_not_waiting (by simp [hself])
    (hi.agrees.notEnded _) (hi.agrees.not_waiting hpc (by simp))
  have hresume := coResume_of_short (s := env) (.task t) (by simp [hself])
  have hlib := Env.inv_of_reachable (libco_step hi.env (.resume hparked hresume))
  obtain ⟨env₂, hpoll⟩ := exists_waits hlib rfl kernel (pollIn fd)
    (by decide : (1000 : Int) ≠ 0) hclock (.inl rfl)
  exact ⟨_, env₂, hresume, hpoll, .hand hself hstack hfresh hresume kernel now hclock hpoll⟩

/-- A task that the loop has resumed can read, whatever comes of it. -/
theorem Inv.exists_reads {listenFd : Nat} (hi : Inv ⟨env, pool⟩) (hmain : env.pCallStack = [])
    {now : Nat} (hpc : env.pc = .dispatching now) (hdispatch : env.dispatch now = some env₁)
    (hlib : env₁.Inv) {t : Fin cnt} {rest : List (Co cnt)}
    (hself : env₁.pCallStack = .task t :: rest) {fd recycle : Nat}
    (hpolling : (pool.tasks t).pc = .polling fd recycle) :
    Reads listenFd ⟨env, pool⟩ env₁ t fd recycle := by
  have hpool := TaskPool.inv_of_reachable hi.pool
  obtain ⟨-, -, -, htimeout, -⟩ := hi.resumed hmain hdispatch hself
  refine ⟨fun ret hret kernel now' hclock => ?_, fun ret hret => ?_⟩
  · have hclock : env₁.pTimeout.ullStart ≤ now' := by
      rw [htimeout]
      exact hclock
    obtain ⟨env₂, hpoll⟩ := exists_waits hlib hself kernel (pollIn fd)
      (by decide : (1000 : Int) ≠ 0) hclock (.inl rfl)
    exact ⟨env₂, hpoll,
      .readOn hmain hpc hdispatch hself hpolling hret kernel now' hclock hpoll⟩
  · have hyield : { env₁ with epoll := coEpollCtlDel env₁.epoll fd }.coYieldEnv =
        some { env₁ with epoll := coEpollCtlDel env₁.epoll fd, pCallStack := rest } := by
      rw [Env.coYieldEnv, hself]
    exact ⟨_, hyield,
      .readLast hmain hpc hdispatch hself hpolling hret (hpool.fd_none t) hyield⟩

/-- The loop can go on, and so can the coroutine that it resumes. -/
theorem Inv.exists_dispatch {listenFd : Nat} (hi : Inv ⟨env, pool⟩) (hmain : env.pCallStack = [])
    {now : Nat} (hpc : env.pc = .dispatching now) : ∃ env₁, env.dispatch now = some env₁ ∧
      (env₁.pCallStack = [] ∧ Step listenFd ⟨env, pool⟩ ⟨env₁, pool⟩ ∨
        env₁.pCallStack = [.accept] ∧
          Step listenFd ⟨env, pool⟩ ⟨env₁, { pool with accept := .running }⟩ ∨
        ∃ t fd recycle, env₁.pCallStack = [.task t] ∧
          (pool.tasks t).pc = .polling fd recycle ∧
            Reads listenFd ⟨env, pool⟩ env₁ t fd recycle) := by
  obtain ⟨env₁, hdispatch, hlib₁, -⟩ := (Env.inv_of_reachable hi.env).dispatch hpc hmain
  refine ⟨env₁, hdispatch, ?_⟩
  cases hself : env₁.pCallStack with
  | nil => exact .inl ⟨rfl, .pass hmain hpc hdispatch hself⟩
  | cons co rest =>
      obtain ⟨rfl, hwaited, -⟩ := hi.resumed hmain hdispatch hself
      cases co with
      | accept => exact .inr (.inl ⟨rfl, .resumeAccept hmain hpc hdispatch hself⟩)
      | task t =>
          obtain ⟨fd, recycle, hpolling⟩ := (hi.agrees.task t).mp hwaited
          exact .inr (.inr ⟨t, fd, recycle, rfl, hpolling,
            hi.exists_reads hmain hpc hdispatch hlib₁ hself hpolling⟩)

/-- **A process is never stuck**: wherever it is, the calls of the coroutine library that its code
makes next succeed, whatever the kernel answers, as long as the clock is not set back behind the
last round of the loop and the rounds are less than `2 ^ 31` milliseconds apart. -/
theorem process_not_stuck {listenFd : Nat} {s : Process cnt} (h : Reachable listenFd s) :
    Progress listenFd s := by
  have hi := inv_of_reachable h
  obtain ⟨env, pool⟩ := s
  have hlib := Env.inv_of_reachable hi.env
  have hstack : env.pCallStack = if pool.accept = .running then [.accept] else [] :=
    hi.agrees.stack
  have hmain : pool.accept ≠ .running → env.pCallStack = [] := fun haccept => by
    rw [hstack, if_neg haccept]
  have hself : pool.accept = .running → env.pCallStack = [.accept] := fun haccept => by
    rw [hstack, if_pos haccept]
  have hloop : pool.accept = .pollEmpty ∨ pool.accept = .pollListen →
      pool.accept ≠ .running ∧ pool.accept ≠ .notStarted := by
    rintro (haccept | haccept) <;> simp [haccept]
  refine ⟨fun hlt haccept => ?_, fun hcnt haccept => ?_, fun haccept hempty kernel now hclock => ?_,
    fun haccept hsome kernel now hclock => ?_,
    fun haccept t tasks htasks fd hfresh kernel now hclock => ?_,
    fun haccept hpc events now hevents hgap => ?_, fun haccept now hpc => ?_⟩
  · -- `main` is alone on the call stack, so a new coroutine can be resumed
    have haccept : pool.accept = .notStarted := haccept
    have hmain := hmain (by simp [haccept])
    have hresume := coResume_of_short (s := env) (.task ⟨pool.started, hlt⟩) (by simp [hmain])
    exact ⟨_, _, hresume, rfl, .startTask hlt haccept hmain hresume rfl⟩
  · have haccept : pool.accept = .notStarted := haccept
    have hmain := hmain (by simp [haccept])
    have hresume := coResume_of_short (s := env) .accept (by simp [hmain])
    exact ⟨_, hresume, .startAccept hcnt haccept hmain hresume⟩
  · obtain ⟨env₁, hpoll⟩ := exists_waits hlib (hself haccept) kernel pollNone
      (by decide : (10 : Int) ≠ 0) hclock (.inr ⟨⟨-1, 0⟩, List.mem_singleton_self _, le_refl _⟩)
    exact ⟨env₁, hpoll, .sleep (hself haccept) hempty kernel now hclock hpoll⟩
  · obtain ⟨env₁, hpoll⟩ := exists_waits hlib (hself haccept) kernel (pollIn listenFd)
      (by decide : (1000 : Int) ≠ 0) hclock (.inl rfl)
    exact ⟨env₁, hpoll, .listen (hself haccept) hsome kernel now hclock hpoll⟩
  · exact hi.exists_hand (hself haccept) htasks hfresh kernel hclock
  · obtain ⟨hnot, hstarted⟩ := hloop haccept
    obtain ⟨env₁, hround, -, -, -, -, -, hpc₁, -⟩ := hlib.round hpc hevents hgap
    exact ⟨env₁, hround, hpc₁, .round hstarted (hmain hnot) hpc hevents hgap hround⟩
  · exact hi.exists_dispatch (hmain (hloop haccept).1) hpc

theorem process_not_stuck_serving :
    ∃ s : Process 1, s.pool.Serves 0 5 ∧ ∀ kernel,
      ∃ env₁, s.env.coPollInner kernel pollNone 10 s.env.pTimeout.ullStart true =
          some (.waits, env₁) ∧
        Step 3 s ⟨env₁, s.pool.acceptRound none⟩ := by
  obtain ⟨s, hreach, haccept, hempty, hserves⟩ := exists_serving
  exact ⟨s, hserves, fun kernel =>
    (process_not_stuck hreach).sleep haccept hempty kernel _ (le_refl _)⟩

end Process

end FastCgi
