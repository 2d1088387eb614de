import FastCgi.TaskPool

/-! # The hooked system calls

libco puts its own `read`, `write`, `fcntl` and `close` in front of the system's. For a descriptor
that it knows, from `co_accept`, it notes which flags the program has set. If the program has not
made it non-blocking, the hooked calls let it look as if it blocked, and wait in `co_poll`; else
they are the system's calls.

A task of the pool takes the latter for granted: between two waits of its own loop it never yields.
`served_calls_plain` says that it can, for each descriptor it serves, and `hooked_iff` that the
notes are those on the open descriptors. `write_blocks` is what the hooks make of the other
descriptors. -/

namespace FastCgi

namespace Libco

/-- `O_NONBLOCK`. -/
def oNonblock : BitVec 32 := 0x800

/-- `O_RDWR`, the flags of a socket from `accept`. -/
def oRdwr : BitVec 32 := 2

/-- `struct timeval`. -/
structure Timeval where
  sec : Nat
  usec : Nat
  deriving DecidableEq, Repr

/-- The milliseconds that the hooks wait. -/
def Timeval.ms (t : Timeval) : Nat := t.sec * 1000 + t.usec / 1000

/-- `rpchook_t`, without what `socket` and `connect` note. -/
structure RpcHook where
  userFlag : BitVec 32
  readTimeout : Timeval
  writeTimeout : Timeval
  deriving DecidableEq, Repr

/-- What `alloc_by_fd` makes. -/
def RpcHook.new : RpcHook := ⟨0, ⟨1, 0⟩, ⟨1, 0⟩⟩

/-- The length of `g_rpchook_socket_fd`. -/
def maxHooked : Nat := 102400

/-- The notes on descriptors, and what the system knows of them. -/
structure Hooks where
  /-- `g_rpchook_socket_fd`. -/
  socketFd : Nat → Option RpcHook
  /-- The flags of the open descriptors. -/
  flags : Nat → Option (BitVec 32)

/-- A call of the system. -/
inductive Sys
  | read
  /-- The bytes from an offset on. -/
  | write (offset : Nat)
  /-- `poll` for one descriptor, which is the hooked one: the coroutine waits. -/
  | poll (events : BitVec 16) (timeout : Nat)
  deriving DecidableEq, Repr

/-- What the caller of a hooked `read` or `write` gets, and the calls that were made for it. -/
structure Hooked where
  calls : List Sys
  ret : Int
  deriving DecidableEq, Repr

namespace Hooks

/-- No descriptors. -/
def init : Hooks := ⟨fun _ => none, fun _ => none⟩

variable (h : Hooks)

/-- `get_by_fd`. -/
def getByFd (fd : Nat) : Option RpcHook := if fd < maxHooked then h.socketFd fd else none

/-- `alloc_by_fd`. -/
def allocByFd (fd : Nat) : Hooks :=
  if fd < maxHooked then { h with socketFd := Function.update h.socketFd fd (some .new) } else h

/-- `free_by_fd`. -/
def freeByFd (fd : Nat) : Hooks :=
  if fd < maxHooked then { h with socketFd := Function.update h.socketFd fd none } else h

/-- `co_accept`, with the descriptor from `accept`. -/
def coAccept (fd : Nat) : Hooks :=
  { h with flags := Function.update h.flags fd (some oRdwr) }.allocByFd fd

/-- `fcntl` with `F_GETFL`. -/
def getfl (fd : Nat) : BitVec 32 := (h.flags fd).getD (-1)

/-- `fcntl` with `F_SETFL`, in a coroutine that has enabled the hooks. -/
def setfl (fd : Nat) (param : BitVec 32) : Hooks :=
  match h.flags fd with
  | none => h
  | some _ =>
    match h.getByFd fd with
    | none => { h with flags := Function.update h.flags fd (some param) }
    | some lp => { h with
        flags := Function.update h.flags fd (some (param ||| oNonblock))
        socketFd := Function.update h.socketFd fd (some { lp with userFlag := param }) }

/-- `SetNonBlock`; `O_NDELAY` is the same flag. -/
def setNonBlock (fd : Nat) : Hooks := h.setfl fd (h.getfl fd ||| oNonblock ||| oNonblock)

/-- The hooked `close`. -/
def close (fd : Nat) : Hooks :=
  let h := h.freeByFd fd
  { h with flags := Function.update h.flags fd none }

/-- The hooked `read`, with what the system's returns; what `poll` returns is only logged. -/
def read (fd : Nat) (readret : Int) : Hooked :=
  match h.getByFd fd with
  | none => ⟨[.read], readret⟩
  | some lp =>
    if oNonblock &&& lp.userFlag ≠ 0 then ⟨[.read], readret⟩
    else ⟨[.poll (0x001 ||| 0x008 ||| 0x010) lp.readTimeout.ms, .read], readret⟩

/-- What `write` returns in the end. -/
def wroteRet (writeret : Int) (wrotelen : Nat) : Int :=
  if writeret ≤ 0 ∧ wrotelen = 0 then writeret else wrotelen

/-- The loop of `write`, over what the system's `write` returns. -/
def writeLoop (timeout nbyte : Nat) (wrotelen : Nat) (writeret : Int) :
    List Int → Option Hooked
  | [] => if wrotelen < nbyte then none else some ⟨[], wroteRet writeret wrotelen⟩
  | r :: results =>
    if wrotelen < nbyte then
      let calls := [.poll (0x004 ||| 0x008 ||| 0x010) timeout, .write wrotelen]
      if r ≤ 0 then some ⟨calls, wroteRet r wrotelen⟩
      else
        (writeLoop timeout nbyte (wrotelen + r.toNat) r results).map fun w =>
          { w with calls := calls ++ w.calls }
    else some ⟨[], wroteRet writeret wrotelen⟩

/-- The hooked `write`, as far as the system has returned from its own. -/
def write (fd nbyte : Nat) : List Int → Option Hooked
  | [] => none
  | r :: results =>
    match h.getByFd fd with
    | none => some ⟨[.write 0], r⟩
    | some lp =>
      if oNonblock &&& lp.userFlag ≠ 0 then some ⟨[.write 0], r⟩
      else if r = 0 then some ⟨[.write 0], r⟩
      else
        (writeLoop lp.writeTimeout.ms nbyte r.toNat r results).map fun w =>
          { w with calls := .write 0 :: w.calls }

/-! ## One descriptor -/

/-- What is known of a descriptor. -/
def view (fd : Nat) : Option RpcHook × Option (BitVec 32) := (h.getByFd fd, h.flags fd)

variable {h} {h' : Hooks} {fd fd' : Nat}

theorem view_coAccept_self :
    (h.coAccept fd).view fd = (if fd < maxHooked then some .new else none, some oRdwr) := by
  by_cases hlt : fd < maxHooked <;>
    simp [view, coAccept, allocByFd, getByFd, hlt]

theorem view_coAccept_of_ne (hne : fd' ≠ fd) : (h.coAccept fd).view fd' = h.view fd' := by
  by_cases hlt : fd < maxHooked <;>
    simp [view, coAccept, allocByFd, getByFd, hlt, hne]

theorem view_close_self : (h.close fd).view fd = (none, none) := by
  by_cases hlt : fd < maxHooked <;>
    simp [view, close, freeByFd, getByFd, hlt]

theorem view_close_of_ne (hne : fd' ≠ fd) : (h.close fd).view fd' = h.view fd' := by
  by_cases hlt : fd < maxHooked <;>
    simp [view, close, freeByFd, getByFd, hlt, hne]

theorem view_setNonBlock_of_ne (hne : fd' ≠ fd) :
    (h.setNonBlock fd).view fd' = h.view fd' := by
  rw [setNonBlock, setfl]
  split
  · rfl
  · split <;> simp [view, getByFd, hne]

/-- A descriptor that has just been accepted is made non-blocking. -/
theorem view_setNonBlock_self
    (hview : h.view fd = (if fd < maxHooked then some .new else none, some oRdwr)) :
    (h.setNonBlock fd).view fd =
      (if fd < maxHooked then some { RpcHook.new with userFlag := oRdwr ||| oNonblock } else none,
        some (oRdwr ||| oNonblock)) := by
  have hhook : h.getByFd fd = if fd < maxHooked then some .new else none :=
    congrArg Prod.fst hview
  have hflags : h.flags fd = some oRdwr := congrArg Prod.snd hview
  rw [setNonBlock, setfl, getfl, hflags, hhook]
  by_cases hlt : fd < maxHooked
  · simp only [if_pos hlt, view, getByFd, Function.update_self]
    rfl
  · simp only [if_neg hlt, view, getByFd, Function.update_self]
    rfl

/-! ## The descriptors of the pool -/

variable {cnt : Nat}

/-- What an event of the pool does to the descriptors. -/
def apply (h : Hooks) : TaskPool.Event cnt → Hooks
  | .accepted fd => h.coAccept fd
  | .dropped fd => h.close fd
  | .handed fd _ => h.setNonBlock fd
  | .closed fd _ => h.close fd
  | .pushed _ => h

/-- The descriptors behind a log. -/
def after (log : List (TaskPool.Event cnt)) : Hooks := log.foldl apply init

theorem after_append (log log' : List (TaskPool.Event cnt)) :
    after (log ++ log') = log'.foldl apply (after log) := List.foldl_append

/-- What is known of a descriptor that is served. -/
def servedView (fd : Nat) : Option RpcHook × Option (BitVec 32) :=
  (if fd < maxHooked then some { RpcHook.new with userFlag := oRdwr ||| oNonblock } else none,
    some (oRdwr ||| oNonblock))

/-- The notes agree with the pool. -/
def Agrees (p : TaskPool.Pool cnt) : Prop :=
  ∀ fd, (after p.log).view fd = if fd ∈ p.openFds then servedView fd else (none, none)

theorem agrees_init : Agrees (TaskPool.init cnt) := by
  intro fd
  have hnone : fd ∉ (TaskPool.init cnt).openFds := Finset.notMem_empty fd
  rw [if_neg hnone]
  simp [TaskPool.init, after, view, getByFd, init]

theorem Agrees.park {p : TaskPool.Pool cnt} (ha : Agrees p) (t : Fin cnt) : Agrees (p.park t) := by
  intro fd
  rw [TaskPool.Pool.park, after_append]
  exact ha fd

/-- A descriptor is accepted, made non-blocking and handed to a task. -/
theorem Agrees.employ {p : TaskPool.Pool cnt} (ha : Agrees p) (fd : Nat) (t : Fin cnt)
    (rest : List (Fin cnt)) : Agrees (p.employ fd t rest) := by
  intro fd'
  rw [TaskPool.Pool.employ, after_append]
  show (((after p.log).coAccept fd).setNonBlock fd).view fd' = _
  by_cases hfd : fd' = fd
  · subst hfd
    rw [if_pos (Finset.mem_insert_self _ _)]
    exact view_setNonBlock_self view_coAccept_self
  · rw [view_setNonBlock_of_ne hfd, view_coAccept_of_ne hfd, ha fd']
    simp only [Finset.mem_insert, hfd, false_or]

/-- A descriptor is closed. -/
theorem Agrees.retire {p : TaskPool.Pool cnt} (ha : Agrees p) (fd : Nat) (t : Fin cnt) :
    Agrees (p.retire fd t) := by
  intro fd'
  rw [TaskPool.Pool.retire, after_append]
  show ((after p.log).close fd).view fd' = _
  by_cases hfd : fd' = fd
  · subst hfd
    rw [if_neg (Finset.notMem_erase _ _)]
    exact view_close_self
  · rw [view_close_of_ne hfd, ha fd']
    simp only [Finset.mem_erase, ne_eq, hfd, not_false_eq_true, true_and]

theorem Agrees.step {p q : TaskPool.Pool cnt} (ha : Agrees p) (hinv : TaskPool.Inv p)
    (hstep : TaskPool.Step p q) : Agrees q := by
  cases hstep with
  | startTask hlt haccept =>
      rw [TaskPool.startTask_eq]
      exact ha.park _
  | startAccept hall haccept => exact ha
  | acceptRound haccept outcome hfresh =>
      obtain ⟨accept, heq⟩ | ⟨fd, t, rest, -, -, heq⟩ := TaskPool.acceptRound_cases p outcome
      · rw [heq]
        exact ha
      · rw [heq]
        exact ha.employ fd t rest
  | resumeAccept haccept => exact ha
  | @resumeTask haccept t fd recycle hpc ret =>
      cases hnext : Cocgi.nextRecycle ret recycle with
      | none =>
          rw [TaskPool.resumeTask_eq_retire hinv hnext]
          exact ha.retire fd t
      | some next =>
          rw [TaskPool.resumeTask_eq_setTask hinv hnext]
          exact ha

theorem agrees_of_reachable {p : TaskPool.Pool cnt} (hp : TaskPool.Reachable p) : Agrees p := by
  induction hp with
  | refl => exact agrees_init
  | tail hrun hstep ih => exact ih.step (TaskPool.inv_of_reachable hrun) hstep

/-- The hooks leave a descriptor to the system that they do not know, or that is non-blocking. -/
theorem write_of_plain {fd nbyte : Nat} {r : Int} {results : List Int}
    (hplain : ∀ lp, h.getByFd fd = some lp → oNonblock &&& lp.userFlag ≠ 0) :
    h.write fd nbyte (r :: results) = some ⟨[.write 0], r⟩ := by
  rw [write]
  cases hlp : h.getByFd fd with
  | none => rfl
  | some lp => exact if_pos (hplain lp hlp)

theorem read_of_plain {fd : Nat} {readret : Int}
    (hplain : ∀ lp, h.getByFd fd = some lp → oNonblock &&& lp.userFlag ≠ 0) :
    h.read fd readret = ⟨[.read], readret⟩ := by
  rw [read]
  cases hlp : h.getByFd fd with
  | none => rfl
  | some lp => exact if_pos (hplain lp hlp)

/-- A pool with one task, which serves the descriptor 7. -/
theorem exists_serving : ∃ p : TaskPool.Pool 1, TaskPool.Reachable p ∧ p.Serves 0 7 := by
  have hstart : TaskPool.Step (TaskPool.init 1) _ := .startTask Nat.one_pos rfl
  have haccept : TaskPool.Step ((TaskPool.init 1).startTask ⟨0, Nat.one_pos⟩) _ :=
    .startAccept rfl rfl
  have hround : TaskPool.Step
      { (TaskPool.init 1).startTask ⟨0, Nat.one_pos⟩ with accept := .running } _ :=
    .acceptRound rfl (some 7) fun fd _ => Finset.notMem_empty fd
  exact ⟨_, .tail (.tail (.tail .refl hstart) haccept) hround, 0, rfl⟩

/-- **A task never waits behind its back**: in every state of the pool, the hooked `read` and
`write` of a descriptor that a task serves are the system's, on a descriptor that does not block:
each makes one call, and returns what that returns. -/
theorem served_calls_plain {p : TaskPool.Pool cnt} (hp : TaskPool.Reachable p) {t : Fin cnt}
    {fd : Nat} (hs : p.Serves t fd) :
    (∃ flags, (after p.log).flags fd = some flags ∧ oNonblock &&& flags ≠ 0) ∧
    (∀ readret, (after p.log).read fd readret = ⟨[.read], readret⟩) ∧
    ∀ nbyte r results, (after p.log).write fd nbyte (r :: results) = some ⟨[.write 0], r⟩ := by
  have hopen := (TaskPool.inv_of_reachable hp).serves_open t fd hs
  have hview := agrees_of_reachable hp fd
  rw [if_pos hopen] at hview
  have hflags : (after p.log).flags fd = some (oRdwr ||| oNonblock) := congrArg Prod.snd hview
  have hplain : ∀ lp, (after p.log).getByFd fd = some lp → oNonblock &&& lp.userFlag ≠ 0 := by
    intro lp hlp
    have hhook : (after p.log).getByFd fd = (servedView fd).1 := congrArg Prod.fst hview
    rw [hhook, servedView] at hlp
    split at hlp
    · cases hlp
      decide
    · cases hlp
  exact ⟨⟨_, hflags, by decide⟩, fun readret => read_of_plain hplain, fun nbyte r results =>
    write_of_plain hplain⟩

theorem served_calls_plain_serving : ∃ p : TaskPool.Pool 1, p.Serves 0 7 ∧
    (∃ flags, (after p.log).flags 7 = some flags ∧ oNonblock &&& flags ≠ 0) ∧
    (∀ readret, (after p.log).read 7 readret = ⟨[.read], readret⟩) ∧
    ∀ nbyte r results, (after p.log).write 7 nbyte (r :: results) = some ⟨[.write 0], r⟩ := by
  obtain ⟨p, hp, hs⟩ := exists_serving
  exact ⟨p, hs, served_calls_plain hp hs⟩

/-- **The notes are on the open descriptors**: none is left behind when a descriptor is closed, to
be found when the number is used again, and none is lost. -/
theorem hooked_iff {p : TaskPool.Pool cnt} (hp : TaskPool.Reachable p) (fd : Nat) :
    ((after p.log).getByFd fd).isSome ↔ fd < maxHooked ∧ ∃ t, p.Serves t fd := by
  have hinv := TaskPool.inv_of_reachable hp
  have hview := agrees_of_reachable hp fd
  rcases hinv.history_lived fd with ⟨hclosed, -⟩ | ⟨t, -, hs, -, -⟩
  · rw [if_neg hclosed] at hview
    have hhook : (after p.log).getByFd fd = none := congrArg Prod.fst hview
    rw [hhook]
    constructor
    · intro hsome
      cases hsome
    · rintro ⟨-, t, hs⟩
      exact absurd (hinv.serves_open t fd hs) hclosed
  · rw [if_pos (hinv.serves_open t fd hs)] at hview
    have hhook : (after p.log).getByFd fd = (servedView fd).1 := congrArg Prod.fst hview
    rw [hhook, servedView]
    by_cases hlt : fd < maxHooked
    · simp only [if_pos hlt, Option.isSome_some, true_iff]
      exact ⟨hlt, t, hs⟩
    · simp [hlt]

theorem hooked_iff_serving : ∃ p : TaskPool.Pool 1, p.Serves 0 7 ∧
    (((after p.log).getByFd 7).isSome ↔ 7 < maxHooked ∧ ∃ t, p.Serves t 7) := by
  obtain ⟨p, hp, hs⟩ := exists_serving
  exact ⟨p, hs, hooked_iff hp 7⟩

/-! ## Descriptors that block -/

/-- The bytes that the system took. -/
def taken (answers : List Int) : Nat := (answers.map Int.toNat).sum

@[simp] theorem taken_nil : taken [] = 0 := rfl

@[simp] theorem taken_cons (r : Int) (answers : List Int) :
    taken (r :: answers) = r.toNat + taken answers := List.sum_cons

/-- The calls that `write` makes for these answers: it waits, and goes on where the system
stopped. -/
def waits (timeout : Nat) : Nat → List Int → List Sys
  | _, [] => []
  | offset, r :: answers =>
    .poll (0x004 ||| 0x008 ||| 0x010) timeout :: .write offset ::
      waits timeout (offset + r.toNat) answers

theorem wroteRet_cases {writeret : Int} {wrotelen : Nat} (hzero : wrotelen = 0 → writeret ≤ 0) :
    0 < wrotelen ∧ wroteRet writeret wrotelen = wrotelen ∨
      wrotelen = 0 ∧ wroteRet writeret wrotelen = writeret ∧ wroteRet writeret wrotelen ≤ 0 := by
  rcases Nat.eq_zero_or_pos wrotelen with h0 | hpos
  · have heq : wroteRet writeret wrotelen = writeret := if_pos ⟨hzero h0, h0⟩
    exact .inr ⟨h0, heq, heq.trans_le (hzero h0)⟩
  · exact .inl ⟨hpos, if_neg fun hboth => hpos.ne' hboth.2⟩

theorem writeLoop_spec {timeout nbyte wrotelen : Nat} {writeret : Int} {results : List Int}
    {w : Hooked} (hzero : wrotelen = 0 → writeret ≤ 0)
    (hw : writeLoop timeout nbyte wrotelen writeret results = some w) :
    ∃ answers, answers <+: results ∧ w.calls = waits timeout wrotelen answers ∧
      (0 < wrotelen + taken answers ∧ w.ret = (wrotelen + taken answers : Nat) ∨
        wrotelen + taken answers = 0 ∧ w.ret = answers.getLastD writeret ∧ w.ret ≤ 0) ∧
      (wrotelen + taken answers < nbyte → answers.getLastD writeret ≤ 0) := by
  induction results generalizing wrotelen writeret w with
  | nil =>
      rw [writeLoop] at hw
      split at hw
      · cases hw
      · rename_i hdone
        cases hw
        exact ⟨[], List.prefix_rfl, rfl, wroteRet_cases hzero, fun hlt => absurd hlt hdone⟩
  | cons r results ih =>
      rw [writeLoop] at hw
      split at hw
      · dsimp only at hw
        split at hw
        · -- the system takes nothing, and `write` gives up
          rename_i hr
          cases hw
          have h0 : r.toNat = 0 := Int.toNat_of_nonpos hr
          refine ⟨[r], List.prefix_append [r] results, rfl, ?_, fun _ => hr⟩
          rw [taken_cons, h0, taken_nil]
          exact wroteRet_cases fun _ => hr
        · rename_i hr
          -- some of it is taken, and the loop goes on with the rest
          obtain ⟨w', hw', rfl⟩ := Option.map_eq_some_iff.mp hw
          have hpos : 0 < wrotelen + r.toNat := by omega
          obtain ⟨answers, hprefix, hcalls, hend, hstop⟩ := ih
            (fun h0 => absurd h0 hpos.ne') hw'
          refine ⟨r :: answers, List.cons_prefix_cons.mpr ⟨rfl, hprefix⟩, ?_, ?_, ?_⟩
          · rw [hcalls]
            rfl
          · rw [taken_cons, ← Nat.add_assoc, List.getLastD_cons]
            exact hend
          · rw [taken_cons, ← Nat.add_assoc, List.getLastD_cons]
            exact hstop
      · rename_i hdone
        cases hw
        exact ⟨[], List.nil_prefix, rfl, wroteRet_cases hzero, fun hlt => absurd hlt hdone⟩

/-- `write` has not returned as long as the system took something each time, and not all. -/
theorem writeLoop_eq_none_iff {timeout nbyte wrotelen : Nat} {writeret : Int}
    {results : List Int} :
    writeLoop timeout nbyte wrotelen writeret results = none ↔
      (∀ r ∈ results, 0 < r) ∧ wrotelen + taken results < nbyte := by
  induction results generalizing wrotelen writeret with
  | nil =>
      rw [writeLoop]
      split <;> simp_all
  | cons r results ih =>
      rw [writeLoop, taken_cons, ← Nat.add_assoc]
      split
      · dsimp only
        split
        · rename_i hr
          simp only [reduceCtorEq, List.mem_cons, forall_eq_or_imp, false_iff]
          rintro ⟨⟨hpos, -⟩, -⟩
          omega
        · rename_i hr
          rw [Option.map_eq_none_iff, ih, List.forall_mem_cons, and_assoc]
          simp only [not_le.mp hr, true_and]
      · rename_i hdone
        simp only [reduceCtorEq, false_iff]
        rintro ⟨-, hlt⟩
        omega

/-- **A hooked `write` of a descriptor that is to block** goes on until the system has taken all, or
fails: it offers each byte where the last call stopped, waits in front of each further call, returns
how much was taken, and an error only if that is nothing. -/
theorem write_blocks {fd nbyte : Nat} {lp : RpcHook} (hlp : h.getByFd fd = some lp)
    (hblock : oNonblock &&& lp.userFlag = 0) (r : Int) (results : List Int) :
    (h.write fd nbyte (r :: results) = none ↔
      r ≠ 0 ∧ (∀ r' ∈ results, 0 < r') ∧ taken (r :: results) < nbyte) ∧
    ∀ w, h.write fd nbyte (r :: results) = some w → ∃ answers, answers <+: results ∧
      w.calls = .write 0 :: waits lp.writeTimeout.ms r.toNat answers ∧
      (0 < taken (r :: answers) ∧ w.ret = taken (r :: answers) ∨
        taken (r :: answers) = 0 ∧ w.ret = answers.getLastD r ∧ w.ret ≤ 0) ∧
      (taken (r :: answers) < nbyte → answers.getLastD r ≤ 0) := by
  have hwrite : h.write fd nbyte (r :: results) =
      if r = 0 then some ⟨[.write 0], r⟩
      else (writeLoop lp.writeTimeout.ms nbyte r.toNat r results).map fun w =>
        { w with calls := .write 0 :: w.calls } := by
    rw [write, hlp]
    exact if_neg (not_not.mpr hblock)
  rw [hwrite]
  by_cases hr : r = 0
  · subst hr
    simp only [if_pos, reduceCtorEq, ne_eq, not_true_eq_false, false_and, true_and]
    intro w hw
    cases hw
    exact ⟨[], List.nil_prefix, rfl, .inr ⟨rfl, rfl, le_rfl⟩, fun _ => le_rfl⟩
  · simp only [if_neg hr]
    constructor
    · rw [Option.map_eq_none_iff, writeLoop_eq_none_iff, taken_cons]
      exact ⟨fun hnone => ⟨hr, hnone⟩, fun hnone => hnone.2⟩
    · intro w hw
      obtain ⟨w', hw', rfl⟩ := Option.map_eq_some_iff.mp hw
      obtain ⟨answers, hprefix, hcalls, hend, hstop⟩ :=
        writeLoop_spec (fun h0 => Int.toNat_eq_zero.mp h0) hw'
      exact ⟨answers, hprefix, congrArg _ hcalls, hend, hstop⟩

/-- Of 10 bytes the system takes 4, and then fails. -/
theorem write_blocks_accepted :
    ∃ w, (init.coAccept 5).write 5 10 [4, -1] = some w ∧ ∃ answers, answers <+: [-1] ∧
      w.calls = .write 0 :: waits 1000 4 answers ∧
      (0 < taken (4 :: answers) ∧ w.ret = taken (4 :: answers) ∨
        taken (4 :: answers) = 0 ∧ w.ret = answers.getLastD 4 ∧ w.ret ≤ 0) ∧
      (taken (4 :: answers) < 10 → answers.getLastD 4 ≤ 0) :=
  ⟨⟨[.write 0, .poll 0x01c 1000, .write 4], 4⟩, rfl,
    (write_blocks (show (init.coAccept 5).getByFd 5 = some .new from rfl) rfl 4 [-1]).2 _ rfl⟩

end Hooks

end Libco

end FastCgi
