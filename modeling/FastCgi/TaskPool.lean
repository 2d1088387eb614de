import Mathlib.Data.Fintype.Card
import Mathlib.Data.Fintype.Fin
import Mathlib.Data.Set.Card
import Mathlib.Logic.Relation
import FastCgi.Cocgi

/-! # The pool of coroutines

A process of `cocgi` runs one `accept_routine` and `cnt` coroutines of `readwrite_routine`, which
share the stack `g_readwrite` of idle tasks and, for each task, the descriptor `co->fd` that the one
writes and the other clears. `Step` is the code between the yield points of these coroutines, in any
order the event loop may resume them and with any outcomes of `co_accept` and `readData`.

The coroutine library is taken at its word: `co_resume` runs its target up to the next yield, a
coroutine parked by `co_yield_ct` is resumed by nobody but `co_resume`, and one that waits in
`co_poll` by nobody but the event loop. `owned_of_reachable` says what then holds of every reachable
state. -/

namespace FastCgi

namespace TaskPool

/-! ## States -/

/-- Where a coroutine of `readwrite_routine` is. -/
inductive Pc
  /-- Not resumed yet. -/
  | notStarted
  /-- At `co_yield_ct`, behind the push onto the stack. -/
  | parked
  /-- At `co_poll`, serving a descriptor, after a number of idle rounds. -/
  | polling (fd recycle : Nat)
  deriving DecidableEq, Repr

/-- `task_t`: the coroutine, and the descriptor handed to it (`-1` is `none`). -/
structure Task where
  pc : Pc
  fd : Option Nat
  deriving DecidableEq, Repr

/-- Where the coroutine of `accept_routine` is. -/
inductive AcceptPc
  | notStarted
  /-- At the head of its loop, with control. -/
  | running
  /-- At `poll`, since the stack was empty. -/
  | pollEmpty
  /-- At `co_poll`, since `co_accept` failed. -/
  | pollListen
  deriving DecidableEq, Repr

/-- What happens to descriptors and tasks. -/
inductive Event (cnt : Nat)
  /-- `co_accept` returned the descriptor. -/
  | accepted (fd : Nat)
  /-- `accept_routine` closed it again, since the stack was empty. -/
  | dropped (fd : Nat)
  /-- It was stored in the task, and the task was resumed. -/
  | handed (fd : Nat) (t : Fin cnt)
  /-- The task closed it. -/
  | closed (fd : Nat) (t : Fin cnt)
  /-- The task pushed itself onto the stack. -/
  | pushed (t : Fin cnt)
  deriving DecidableEq, Repr

/-- The state of a process. -/
structure Pool (cnt : Nat) where
  /-- How many tasks `main` has created and resumed. -/
  started : Nat
  tasks : Fin cnt → Task
  /-- `g_readwrite`, the top first. -/
  stack : List (Fin cnt)
  accept : AcceptPc
  openFds : Finset Nat
  log : List (Event cnt)

variable {cnt : Nat}

/-- The state in which `main` starts to create tasks. -/
def init (cnt : Nat) : Pool cnt := ⟨0, fun _ => ⟨.notStarted, none⟩, [], .notStarted, ∅, []⟩

namespace Pool

variable (p : Pool cnt)

/-- Put a task into a new state. -/
def setTask (t : Fin cnt) (task : Task) : Pool cnt :=
  { p with tasks := Function.update p.tasks t task }

/-- Note an event. -/
def record (e : Event cnt) : Pool cnt := { p with log := p.log ++ [e] }

/-- `readwrite_routine` from the head of its outer loop up to the next yield: without a descriptor
the task pushes and parks itself, else it takes the descriptor and polls it. -/
def enter (t : Fin cnt) : Pool cnt :=
  match (p.tasks t).fd with
  | none => { p.setTask t ⟨.parked, none⟩ with stack := t :: p.stack }.record (.pushed t)
  | some fd => p.setTask t ⟨.polling fd 0, none⟩

/-- `main` creates the next task and resumes it. -/
def startTask (t : Fin cnt) : Pool cnt :=
  { p.setTask t ⟨.notStarted, none⟩ with started := p.started + 1 }.enter t

/-- `accept_routine` stores a descriptor in the task on top of the stack, pops it and resumes it. -/
def hand (fd : Nat) (t : Fin cnt) (rest : List (Fin cnt)) : Pool cnt :=
  ({ p.setTask t { p.tasks t with fd := some fd } with stack := rest }.record
    (.handed fd t)).enter t

/-- One round of the loop of `accept_routine`, with the outcome of `co_accept`. -/
def acceptRound (outcome : Option Nat) : Pool cnt :=
  if p.stack.isEmpty then { p with accept := .pollEmpty }
  else
    match outcome with
    | none => { p with accept := .pollListen }
    | some fd =>
      let p := { p with openFds := insert fd p.openFds }.record (.accepted fd)
      match p.stack with
      -- the second test of the stack, behind `co_accept`
      | [] => { p with openFds := p.openFds.erase fd }.record (.dropped fd)
      | t :: rest => p.hand fd t rest

/-- A task that polls `fd` is resumed, and `readData` returns `ret`: it goes on polling, or closes
the descriptor and is back at the head of its outer loop. -/
def resumeTask (t : Fin cnt) (fd recycle : Nat) (ret : ErrorCode) : Pool cnt :=
  match Cocgi.nextRecycle ret recycle with
  | some recycle => p.setTask t ⟨.polling fd recycle, (p.tasks t).fd⟩
  | none => ({ p with openFds := p.openFds.erase fd }.record (.closed fd t)).enter t

end Pool

/-- The **steps** of a process. -/
inductive Step : Pool cnt → Pool cnt → Prop
  /-- `main` creates and resumes the next task. -/
  | startTask {p : Pool cnt} (h : p.started < cnt) (haccept : p.accept = .notStarted) :
      Step p (p.startTask ⟨p.started, h⟩)
  /-- `main` creates and resumes `accept_routine`. -/
  | startAccept {p : Pool cnt} (h : p.started = cnt) (haccept : p.accept = .notStarted) :
      Step p { p with accept := .running }
  /-- `accept_routine` makes a round; a descriptor it gets is not open. -/
  | acceptRound {p : Pool cnt} (haccept : p.accept = .running) (outcome : Option Nat)
      (hfresh : ∀ fd, outcome = some fd → fd ∉ p.openFds) : Step p (p.acceptRound outcome)
  /-- The event loop resumes `accept_routine`. -/
  | resumeAccept {p : Pool cnt} (haccept : p.accept = .pollEmpty ∨ p.accept = .pollListen) :
      Step p { p with accept := .running }
  /-- The event loop resumes a task. -/
  | resumeTask {p : Pool cnt} (haccept : p.accept = .pollEmpty ∨ p.accept = .pollListen)
      {t : Fin cnt} {fd recycle : Nat} (hpc : (p.tasks t).pc = .polling fd recycle)
      (ret : ErrorCode) : Step p (p.resumeTask t fd recycle ret)

/-- The states a process can get into. -/
def Reachable (p : Pool cnt) : Prop := Relation.ReflTransGen Step (init cnt) p

/-! ## What is to hold -/

/-- A task serves a descriptor. -/
def Pool.Serves (p : Pool cnt) (t : Fin cnt) (fd : Nat) : Prop :=
  ∃ recycle, (p.tasks t).pc = .polling fd recycle

/-- The events that concern a descriptor. -/
def Event.concerns (fd : Nat) : Event cnt → Bool
  | .accepted fd' | .dropped fd' | .handed fd' _ | .closed fd' _ => fd' = fd
  | .pushed _ => false

/-- What happened to a descriptor. -/
def history (fd : Nat) (log : List (Event cnt)) : List (Event cnt) := log.filter (Event.concerns fd)

/-- Complete lives of a descriptor: each time it was accepted, handed to one task, and closed by
that task. -/
inductive Lived (fd : Nat) : List (Event cnt) → Prop
  | nil : Lived fd []
  | life {past : List (Event cnt)} (t : Fin cnt) : Lived fd past →
      Lived fd (past ++ [.accepted fd, .handed fd t, .closed fd t])

/-- Every task that closed its descriptor has then returned to the stack at once. -/
def Returned : List (Event cnt) → Prop
  | [] => True
  | .closed _ t :: log => log.head? = some (.pushed t) ∧ Returned log
  | _ :: log => Returned log

/-- **Ownership** in a pool. -/
structure Owned (p : Pool cnt) : Prop where
  /-- The stack holds no task twice. -/
  stack_nodup : p.stack.Nodup
  /-- A task is on the stack iff it is parked without a descriptor. -/
  mem_stack_iff : ∀ t, t ∈ p.stack ↔ (p.tasks t).pc = .parked ∧ (p.tasks t).fd = none
  /-- Every other task that was started serves an open descriptor. -/
  serves_of_started : ∀ t : Fin cnt, t < p.started → t ∉ p.stack →
    ∃ fd, p.Serves t fd ∧ fd ∈ p.openFds
  /-- No two tasks serve the same descriptor. -/
  serves_injective : ∀ t t' fd, p.Serves t fd → p.Serves t' fd → t = t'
  /-- Once all tasks are started, each of them is idle or serving. -/
  count : p.started = cnt → p.stack.length + {t | ∃ fd, p.Serves t fd}.ncard = cnt
  /-- Every descriptor has lived complete lives, and then is not open, or is served by the task it
  was last handed to. -/
  history_lived : ∀ fd,
    (fd ∉ p.openFds ∧ Lived fd (history fd p.log)) ∨
      ∃ t past, p.Serves t fd ∧ Lived fd past ∧
        history fd p.log = past ++ [.accepted fd, .handed fd t]
  /-- A task that closed its descriptor has returned to the stack. -/
  returned : Returned p.log
  /-- No descriptor was accepted and then closed for want of a task. -/
  not_dropped : ∀ fd, .dropped fd ∉ p.log

/-! ## The moves of a pool

Under the invariant a step makes one of four moves. -/

/-- The **invariant** of a pool. -/
structure Inv (p : Pool cnt) : Prop where
  stack_nodup : p.stack.Nodup
  mem_stack : ∀ t, t ∈ p.stack ↔ (p.tasks t).pc = .parked
  fd_none : ∀ t, (p.tasks t).fd = none
  notStarted_iff : ∀ t : Fin cnt, (p.tasks t).pc = .notStarted ↔ p.started ≤ t
  serves_open : ∀ t fd, p.Serves t fd → fd ∈ p.openFds
  serves_injective : ∀ t t' fd, p.Serves t fd → p.Serves t' fd → t = t'
  history_lived : ∀ fd,
    (fd ∉ p.openFds ∧ Lived fd (history fd p.log)) ∨
      ∃ t past, p.Serves t fd ∧ Lived fd past ∧
        history fd p.log = past ++ [.accepted fd, .handed fd t]
  returned : Returned p.log

/-- A task has parked itself. -/
def Pool.park (p : Pool cnt) (t : Fin cnt) : Pool cnt :=
  { p with
    tasks := Function.update p.tasks t ⟨.parked, none⟩
    stack := t :: p.stack
    log := p.log ++ [.pushed t] }

/-- A task has been taken off the stack and serves a descriptor. -/
def Pool.employ (p : Pool cnt) (fd : Nat) (t : Fin cnt) (rest : List (Fin cnt)) : Pool cnt :=
  { p with
    tasks := Function.update p.tasks t ⟨.polling fd 0, none⟩
    stack := rest
    openFds := insert fd p.openFds
    log := p.log ++ [.accepted fd, .handed fd t] }

/-- A task has closed its descriptor and parked itself. -/
def Pool.retire (p : Pool cnt) (fd : Nat) (t : Fin cnt) : Pool cnt :=
  { p with
    tasks := Function.update p.tasks t ⟨.parked, none⟩
    stack := t :: p.stack
    openFds := p.openFds.erase fd
    log := p.log ++ [.closed fd t, .pushed t] }

theorem startTask_eq (p : Pool cnt) (t : Fin cnt) :
    p.startTask t = { p.park t with started := p.started + 1 } := by
  simp [Pool.startTask, Pool.enter, Pool.setTask, Pool.record, Pool.park]

theorem resumeTask_eq_retire {p : Pool cnt} (hinv : Inv p) {t : Fin cnt} {fd recycle : Nat}
    {ret : ErrorCode} (h : Cocgi.nextRecycle ret recycle = none) :
    p.resumeTask t fd recycle ret = p.retire fd t := by
  simp [Pool.resumeTask, h, Pool.enter, Pool.record, hinv.fd_none, Pool.setTask, Pool.retire]

theorem resumeTask_eq_setTask {p : Pool cnt} (hinv : Inv p) {t : Fin cnt} {fd recycle next : Nat}
    {ret : ErrorCode} (h : Cocgi.nextRecycle ret recycle = some next) :
    p.resumeTask t fd recycle ret = p.setTask t ⟨.polling fd next, none⟩ := by
  simp only [Pool.resumeTask, h, hinv.fd_none]

theorem acceptRound_cases (p : Pool cnt) (outcome : Option Nat) :
    (∃ accept, p.acceptRound outcome = { p with accept }) ∨
      ∃ fd t rest, outcome = some fd ∧ p.stack = t :: rest ∧
        p.acceptRound outcome = p.employ fd t rest := by
  cases hstack : p.stack with
  | nil => exact .inl ⟨.pollEmpty, by simp [Pool.acceptRound, hstack]⟩
  | cons t rest =>
      cases outcome with
      | none => exact .inl ⟨.pollListen, by simp [Pool.acceptRound, hstack]⟩
      | some fd =>
          -- the stack is as it was before the descriptor was accepted, so it is not empty
          refine .inr ⟨fd, t, rest, rfl, rfl, ?_⟩
          simp [Pool.acceptRound, Pool.record, hstack, Pool.hand, Pool.enter, Pool.setTask,
            Pool.employ]

/-! ## The invariant is kept -/

theorem returned_append {log log' : List (Event cnt)} (h : Returned log) (h' : Returned log') :
    Returned (log ++ log') := by
  induction log with
  | nil => exact h'
  | cons e log ih =>
      cases e with
      | closed fd t =>
          obtain ⟨hhead, hrest⟩ := h
          refine ⟨?_, ih hrest⟩
          cases log with
          | nil => cases hhead
          | cons e' log => exact hhead
      | accepted | dropped | handed | pushed => exact ih h

theorem inv_init : Inv (init cnt) where
  stack_nodup := List.nodup_nil
  mem_stack := by simp [init]
  fd_none _ := rfl
  notStarted_iff := by simp [init]
  serves_open := by
    rintro t fd ⟨recycle, h⟩
    cases h
  serves_injective := by
    rintro t t' fd ⟨recycle, h⟩
    cases h
  history_lived _ := .inl ⟨by simp [init], .nil⟩
  returned := trivial

/-- Which descriptors a task serves does not depend on the other tasks. -/
theorem serves_update_of_ne {p q : Pool cnt} {t t' : Fin cnt} {task : Task}
    (hq : q.tasks = Function.update p.tasks t task) (hne : t' ≠ t) (fd : Nat) :
    q.Serves t' fd ↔ p.Serves t' fd := by
  simp only [Pool.Serves, hq, Function.update_of_ne hne]

/-- When a task parks, whatever is served is served by another task, as it was before. -/
theorem serves_of_update_parked {p q : Pool cnt} {t t' : Fin cnt}
    (hq : q.tasks = Function.update p.tasks t ⟨.parked, none⟩) {fd : Nat} (hs : q.Serves t' fd) :
    t' ≠ t ∧ p.Serves t' fd := by
  have hne : t' ≠ t := by
    rintro rfl
    obtain ⟨recycle, h⟩ := hs
    rw [hq, Function.update_self] at h
    cases h
  exact ⟨hne, (serves_update_of_ne hq hne fd).mp hs⟩

/-- A task that polls nothing serves nothing. -/
theorem not_serves_of_pc {p : Pool cnt} {t : Fin cnt} {pc : Pc} (hpc : (p.tasks t).pc = pc)
    (hne : ∀ fd recycle, pc ≠ .polling fd recycle) (fd : Nat) : ¬ p.Serves t fd := by
  rintro ⟨recycle, h⟩
  exact hne fd recycle (hpc.symm.trans h)

/-- The tasks that serve something go on doing so when another task moves. -/
theorem history_lived_of_update {p q : Pool cnt} (hinv : Inv p) {t : Fin cnt} {task : Task}
    (hq : q.tasks = Function.update p.tasks t task) {fd : Nat} (hfd : ¬ p.Serves t fd)
    (hopen : fd ∈ q.openFds ↔ fd ∈ p.openFds) (hlog : history fd q.log = history fd p.log) :
    (fd ∉ q.openFds ∧ Lived fd (history fd q.log)) ∨
      ∃ t past, q.Serves t fd ∧ Lived fd past ∧
        history fd q.log = past ++ [.accepted fd, .handed fd t] := by
  rw [hlog, hopen]
  obtain h | ⟨t', past, hserves, hpast⟩ := hinv.history_lived fd
  · exact .inl h
  · have hne : t' ≠ t := by
      rintro rfl
      exact hfd hserves
    exact .inr ⟨t', past, (serves_update_of_ne hq hne fd).mpr hserves, hpast⟩

theorem inv_startTask {p : Pool cnt} (hinv : Inv p) (h : p.started < cnt) :
    Inv (p.startTask ⟨p.started, h⟩) := by
  have hpc := (hinv.notStarted_iff ⟨p.started, h⟩).mpr le_rfl
  rw [startTask_eq]
  constructor
  case stack_nodup =>
    refine List.nodup_cons.mpr ⟨?_, hinv.stack_nodup⟩
    intro hmem
    rw [hinv.mem_stack, hpc] at hmem
    cases hmem
  case mem_stack =>
    intro t
    by_cases ht : t = ⟨p.started, h⟩
    · simp [Pool.park, ht]
    · simp [Pool.park, ht, hinv.mem_stack t]
  case fd_none =>
    intro t
    by_cases ht : t = ⟨p.started, h⟩
    · simp [Pool.park, ht]
    · simp [Pool.park, ht, hinv.fd_none t]
  case notStarted_iff =>
    intro t
    by_cases ht : t = ⟨p.started, h⟩
    · simp [Pool.park, ht]
    · -- the task that was started is the one with the number `p.started`
      have hne : (t : Nat) ≠ p.started := fun heq => ht (Fin.ext heq)
      simp only [Pool.park, Function.update_of_ne ht, hinv.notStarted_iff t]
      omega
  case serves_open =>
    intro t fd hs
    exact hinv.serves_open t fd (serves_of_update_parked rfl hs).2
  case serves_injective =>
    intro t t' fd hs hs'
    exact hinv.serves_injective t t' fd (serves_of_update_parked rfl hs).2
      (serves_of_update_parked rfl hs').2
  case history_lived =>
    intro fd
    exact history_lived_of_update hinv rfl (not_serves_of_pc hpc (by simp) fd) Iff.rfl
      (by simp [Pool.park, history, Event.concerns])
  case returned => exact returned_append hinv.returned trivial

theorem inv_setAccept {p : Pool cnt} (hinv : Inv p) (accept : AcceptPc) :
    Inv { p with accept } :=
  ⟨hinv.stack_nodup, hinv.mem_stack, hinv.fd_none, hinv.notStarted_iff, hinv.serves_open,
    hinv.serves_injective, hinv.history_lived, hinv.returned⟩

/-- A task that is employed serves the new descriptor, the others what they served before. -/
theorem serves_employ {p : Pool cnt} {fd : Nat} {t : Fin cnt} {rest : List (Fin cnt)}
    {t' : Fin cnt} {fd' : Nat} :
    (p.employ fd t rest).Serves t' fd' ↔ (t' = t ∧ fd' = fd) ∨ (t' ≠ t ∧ p.Serves t' fd') := by
  by_cases ht : t' = t
  · subst ht
    simp [Pool.Serves, Pool.employ, eq_comm]
  · have hothers : (p.employ fd t rest).tasks
        = Function.update p.tasks t ⟨.polling fd 0, none⟩ := rfl
    rw [serves_update_of_ne hothers ht]
    simp [ht]

theorem inv_employ {p : Pool cnt} (hinv : Inv p) {fd : Nat} {t : Fin cnt} {rest : List (Fin cnt)}
    (hstack : p.stack = t :: rest) (hfresh : fd ∉ p.openFds) : Inv (p.employ fd t rest) := by
  have hnodup := hinv.stack_nodup
  rw [hstack, List.nodup_cons] at hnodup
  have hpc : (p.tasks t).pc = .parked := (hinv.mem_stack t).mp (by rw [hstack]; simp)
  constructor
  case stack_nodup => exact hnodup.2
  case mem_stack =>
    intro t'
    by_cases ht : t' = t
    · -- the task was on the stack once, so it is not on the rest of it
      subst ht
      simp [Pool.employ, hnodup.1]
    · have hmem := hinv.mem_stack t'
      rw [hstack, List.mem_cons] at hmem
      simpa [Pool.employ, ht] using hmem
  case fd_none =>
    intro t'
    by_cases ht : t' = t
    · simp [Pool.employ, ht]
    · simp [Pool.employ, ht, hinv.fd_none t']
  case notStarted_iff =>
    intro t'
    by_cases ht : t' = t
    · subst ht
      have hstarted := hinv.notStarted_iff t'
      rw [hpc] at hstarted
      simpa [Pool.employ] using hstarted
    · simpa [Pool.employ, ht] using hinv.notStarted_iff t'
  case serves_open =>
    intro t' fd' hs
    obtain ⟨-, rfl⟩ | ⟨-, hs⟩ := serves_employ.mp hs
    · exact Finset.mem_insert_self _ _
    · exact Finset.mem_insert_of_mem (hinv.serves_open t' fd' hs)
  case serves_injective =>
    -- the new descriptor was not open, so no task served it before
    intro t' t'' fd' hs hs'
    obtain ⟨rfl, rfl⟩ | ⟨-, hold⟩ := serves_employ.mp hs
    · obtain ⟨rfl, -⟩ | ⟨-, hold'⟩ := serves_employ.mp hs'
      · rfl
      · exact absurd (hinv.serves_open _ _ hold') hfresh
    · obtain ⟨rfl, rfl⟩ | ⟨-, hold'⟩ := serves_employ.mp hs'
      · exact absurd (hinv.serves_open _ _ hold) hfresh
      · exact hinv.serves_injective t' t'' fd' hold hold'
  case history_lived =>
    intro fd'
    by_cases hfd : fd' = fd
    · -- the descriptor was not open, so its lives so far are complete and a new one begins
      subst hfd
      obtain ⟨-, hlived⟩ | ⟨t', past, hserves, -⟩ := hinv.history_lived fd'
      · refine .inr ⟨t, history fd' p.log, serves_employ.mpr (.inl ⟨rfl, rfl⟩), hlived, ?_⟩
        simp [Pool.employ, history, Event.concerns]
      · exact absurd (hinv.serves_open t' fd' hserves) hfresh
    · exact history_lived_of_update hinv rfl (not_serves_of_pc hpc (by simp) fd')
        (by simp [Pool.employ, hfd]) (by simp [Pool.employ, history, Event.concerns, Ne.symm hfd])
  case returned => exact returned_append hinv.returned trivial

/-- Closing the descriptor completes its current life. -/
theorem lived_retire {p : Pool cnt} (hinv : Inv p) {fd : Nat} {t : Fin cnt}
    (hserves : p.Serves t fd) : Lived fd (history fd (p.retire fd t).log) := by
  obtain ⟨hclosed, -⟩ | ⟨t', past, hserves', hlived, hhist⟩ := hinv.history_lived fd
  · exact absurd (hinv.serves_open t fd hserves) hclosed
  · obtain rfl := hinv.serves_injective t' t fd hserves' hserves
    have hlog : history fd (p.retire fd t').log
        = past ++ [.accepted fd, .handed fd t', .closed fd t'] := by
      rw [Pool.retire, history, List.filter_append, ← history, hhist]
      simp [Event.concerns]
    rw [hlog]
    exact .life t' hlived

theorem inv_retire {p : Pool cnt} (hinv : Inv p) {fd : Nat} {t : Fin cnt}
    (hserves : p.Serves t fd) : Inv (p.retire fd t) := by
  obtain ⟨recycle, hpc⟩ := id hserves
  constructor
  case stack_nodup =>
    refine List.nodup_cons.mpr ⟨?_, hinv.stack_nodup⟩
    intro hmem
    rw [hinv.mem_stack, hpc] at hmem
    cases hmem
  case mem_stack =>
    intro t'
    by_cases ht : t' = t
    · simp [Pool.retire, ht]
    · simp [Pool.retire, ht, hinv.mem_stack t']
  case fd_none =>
    intro t'
    by_cases ht : t' = t
    · simp [Pool.retire, ht]
    · simp [Pool.retire, ht, hinv.fd_none t']
  case notStarted_iff =>
    intro t'
    by_cases ht : t' = t
    · subst ht
      have hstarted := hinv.notStarted_iff t'
      rw [hpc] at hstarted
      simpa [Pool.retire] using hstarted
    · simpa [Pool.retire, ht] using hinv.notStarted_iff t'
  case serves_open =>
    -- the other tasks serve other descriptors, which stay open
    intro t' fd' hs
    obtain ⟨hne, hold⟩ := serves_of_update_parked (p := p) rfl hs
    refine Finset.mem_erase.mpr ⟨?_, hinv.serves_open t' fd' hold⟩
    rintro rfl
    exact hne (hinv.serves_injective t' t fd' hold hserves)
  case serves_injective =>
    intro t' t'' fd' hs hs'
    exact hinv.serves_injective t' t'' fd' (serves_of_update_parked rfl hs).2
      (serves_of_update_parked rfl hs').2
  case history_lived =>
    intro fd'
    by_cases hfd : fd' = fd
    · subst hfd
      exact .inl ⟨Finset.notMem_erase _ _, lived_retire hinv hserves⟩
    · have hother : ¬ p.Serves t fd' := by
        rintro ⟨recycle', hpc'⟩
        rw [hpc] at hpc'
        exact hfd (Pc.polling.inj hpc').1.symm
      exact history_lived_of_update hinv rfl hother (by simp [Pool.retire, hfd])
        (by simp [Pool.retire, history, Event.concerns, Ne.symm hfd])
  case returned => exact returned_append hinv.returned ⟨rfl, trivial⟩

/-- A task that goes on polling. -/
theorem inv_setTask {p : Pool cnt} (hinv : Inv p) {fd recycle : Nat} {t : Fin cnt}
    (hpc : (p.tasks t).pc = .polling fd recycle) (next : Nat) :
    Inv (p.setTask t ⟨.polling fd next, none⟩) := by
  have hserves : ∀ t' fd', (p.setTask t ⟨.polling fd next, none⟩).Serves t' fd' ↔
      p.Serves t' fd' := by
    intro t' fd'
    by_cases ht : t' = t
    · subst ht
      simp [Pool.Serves, Pool.setTask, hpc]
    · exact serves_update_of_ne rfl ht fd'
  constructor
  case stack_nodup => exact hinv.stack_nodup
  case mem_stack =>
    intro t'
    by_cases ht : t' = t
    · subst ht
      simpa [Pool.setTask, hpc] using hinv.mem_stack t'
    · simpa [Pool.setTask, ht] using hinv.mem_stack t'
  case fd_none =>
    intro t'
    by_cases ht : t' = t
    · simp [Pool.setTask, ht]
    · simpa [Pool.setTask, ht] using hinv.fd_none t'
  case notStarted_iff =>
    intro t'
    by_cases ht : t' = t
    · subst ht
      simpa [Pool.setTask, hpc] using hinv.notStarted_iff t'
    · simpa [Pool.setTask, ht] using hinv.notStarted_iff t'
  case serves_open =>
    simp only [hserves]
    exact hinv.serves_open
  case serves_injective =>
    simp only [hserves]
    exact hinv.serves_injective
  case history_lived =>
    simp only [hserves]
    exact hinv.history_lived
  case returned => exact hinv.returned

/-- **One step** keeps the invariant. -/
theorem inv_step {p q : Pool cnt} (hstep : Step p q) (hinv : Inv p) : Inv q := by
  cases hstep with
  | startTask h _ => exact inv_startTask hinv h
  | startAccept _ _ => exact inv_setAccept hinv _
  | acceptRound _ outcome hfresh =>
      obtain ⟨accept, heq⟩ | ⟨fd, t, rest, hout, hstack, heq⟩ := acceptRound_cases p outcome
      · rw [heq]
        exact inv_setAccept hinv accept
      · rw [heq]
        exact inv_employ hinv hstack (hfresh fd hout)
  | resumeAccept _ => exact inv_setAccept hinv _
  | @resumeTask _ t fd recycle hpc ret =>
      cases hnext : Cocgi.nextRecycle ret recycle with
      | none =>
          rw [resumeTask_eq_retire hinv hnext]
          exact inv_retire hinv ⟨recycle, hpc⟩
      | some next =>
          rw [resumeTask_eq_setTask hinv hnext]
          exact inv_setTask hinv hpc next

/-- **Every reachable state** satisfies the invariant. -/
theorem inv_of_reachable {p : Pool cnt} (h : Reachable p) : Inv p := by
  induction h with
  | refl => exact inv_init
  | tail _ hstep ih => exact inv_step hstep ih

/-! ## Ownership -/

theorem Inv.serves_of_started {p : Pool cnt} (hinv : Inv p) {t : Fin cnt} (hstarted : t < p.started)
    (hstack : t ∉ p.stack) : ∃ fd, p.Serves t fd := by
  cases hpc : (p.tasks t).pc with
  | notStarted =>
      have hle := (hinv.notStarted_iff t).mp hpc
      omega
  | parked => exact absurd ((hinv.mem_stack t).mpr hpc) hstack
  | polling fd recycle => exact ⟨fd, recycle, hpc⟩

theorem Inv.count {p : Pool cnt} (hinv : Inv p) (hall : p.started = cnt) :
    p.stack.length + {t | ∃ fd, p.Serves t fd}.ncard = cnt := by
  -- once all tasks are started, the serving ones are those that are not on the stack
  have hserving : {t | ∃ fd, p.Serves t fd}
      = ((p.stack.toFinsetᶜ : Finset (Fin cnt)) : Set (Fin cnt)) := by
    ext t
    simp only [Set.mem_ofPred_eq, Finset.coe_compl, Set.mem_compl_iff, Finset.mem_coe,
      List.mem_toFinset]
    constructor
    · rintro ⟨fd, recycle, hpc⟩ hmem
      rw [hinv.mem_stack, hpc] at hmem
      cases hmem
    · exact hinv.serves_of_started (by rw [hall]; exact t.isLt)
  rw [hserving, Set.ncard_coe_finset, Finset.card_compl, Fintype.card_fin,
    List.toFinset_card_of_nodup hinv.stack_nodup]
  have hle : p.stack.length ≤ cnt := by
    rw [← List.toFinset_card_of_nodup hinv.stack_nodup]
    exact (Finset.card_le_univ _).trans_eq (Fintype.card_fin cnt)
  omega

theorem Lived.not_dropped {fd : Nat} {past : List (Event cnt)} (h : Lived fd past) :
    .dropped fd ∉ past := by
  induction h with
  | nil => simp
  | life t _ ih => simpa using ih

theorem Inv.not_dropped {p : Pool cnt} (hinv : Inv p) (fd : Nat) : .dropped fd ∉ p.log := by
  intro hmem
  have hhist : .dropped fd ∈ history fd p.log :=
    List.mem_filter.mpr ⟨hmem, by simp [Event.concerns]⟩
  obtain ⟨-, hlived⟩ | ⟨t, past, -, hlived, heq⟩ := hinv.history_lived fd
  · exact hlived.not_dropped hhist
  · rw [heq] at hhist
    exact hlived.not_dropped (by simpa using hhist)

/-- **Ownership holds in every reachable state**, whatever the order of resumptions and the outcomes
of `co_accept` and `readData`. -/
theorem owned_of_reachable {p : Pool cnt} (h : Reachable p) : Owned p := by
  have hinv := inv_of_reachable h
  constructor
  case stack_nodup => exact hinv.stack_nodup
  case mem_stack_iff =>
    intro t
    rw [hinv.mem_stack]
    exact ⟨fun hpc => ⟨hpc, hinv.fd_none t⟩, fun hpc => hpc.1⟩
  case serves_of_started =>
    intro t hstarted hstack
    obtain ⟨fd, hserves⟩ := hinv.serves_of_started hstarted hstack
    exact ⟨fd, hserves, hinv.serves_open t fd hserves⟩
  case serves_injective => exact hinv.serves_injective
  case count => exact hinv.count
  case history_lived => exact hinv.history_lived
  case returned => exact hinv.returned
  case not_dropped => exact hinv.not_dropped

/-- One task, which has been handed the descriptor 7. -/
theorem owned_serving : ∃ p : Pool 1, Reachable p ∧ p.Serves 0 7 ∧ Owned p := by
  have h₁ : Step (init 1) ((init 1).startTask 0) := .startTask (by decide) rfl
  have h₂ : Step ((init 1).startTask 0) { (init 1).startTask 0 with accept := .running } :=
    .startAccept rfl rfl
  have h₃ : Step { (init 1).startTask 0 with accept := .running }
      ({ (init 1).startTask 0 with accept := .running }.acceptRound (some 7)) :=
    .acceptRound rfl (some 7) (by intro fd _; exact Finset.notMem_empty fd)
  have hreach : Reachable ({ (init 1).startTask 0 with accept := .running }.acceptRound (some 7)) :=
    .tail (.tail (.tail .refl h₁) h₂) h₃
  exact ⟨_, hreach, ⟨0, rfl⟩, owned_of_reachable hreach⟩

end TaskPool

end FastCgi
