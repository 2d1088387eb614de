import FastCgi.Libco.Steps

/-! # What the scheduler of libco guarantees

The invariant of the scheduler holds at the start and is kept by each step (`Inv.step`), and so it
holds in all runs. From this follows what a coroutine may rely on. The loop never follows a stale
pointer, whatever the kernel reports (`scheduler_not_stuck`); each call of `poll` comes back once,
and no wait is over too early (`poll_returns_once`); and none is forgotten (`round_wakes_all`).

A step is also compared with what was there before: no item is lost before its call has come back,
which is `Progress`, and it is for `round_wakes_all` that runs are followed by it. -/

namespace FastCgi

namespace Libco

variable {κ : Type}

namespace Env

variable {s : Env κ} {lists : Place → List Nat}

/-! ## Runs -/

/-- The invariant holds before the first coroutine is resumed: there are no items, and all lists are
empty. -/
theorem inv_init {now : Nat} (hnow : 0 < now) : (init now : Env κ).Inv where
  lists := by
    refine ⟨fun _ => [], ⟨Heap.represents_zero, ⟨⟨?_, hnow, le_refl _⟩, fun i x hx => ?_⟩, ?_, ?_,
      rfl, ?_, ?_⟩, fun _ => rfl, fun now h => ?_⟩
    · show 0 < 60 * 1000
      omega
    · cases hx
    · simp [init]
    · simp [init]
    · simp
    · simp
    · cases h
  threads := by
    refine ⟨List.nodup_nil, fun co hco => ?_, fun x p hp => ?_, fun x y p q hp => ?_⟩
    · cases hco
    · cases hp
    · cases hp
  watched := ⟨fun r hr => (by cases hr), List.nodup_nil⟩
  history := by
    refine ⟨List.nodup_nil, ?_, fun r hr => ?_, fun r hr => ?_, fun x p hp => ?_, fun r hr => ?_⟩
    · simp [init]
    · cases hr
    · cases hr
    · cases hp
    · cases hr

/-- The call stack and the list of ended coroutines may change alone. -/
theorem Inv.threads_of (hi : s.Inv) {pCallStack ended : List κ}
    (ht : ({ s with pCallStack := pCallStack, ended := ended } : Env κ).Threads) :
    ({ s with pCallStack := pCallStack, ended := ended } : Env κ).Inv := by
  obtain ⟨lists, hl, hrounds⟩ := hi.lists
  refine ⟨⟨lists, ?_, hrounds.own, hrounds.dispatching⟩, ht, ?_, ?_⟩
  · exact ⟨hl.represents, hl.sound, hl.live, hl.bound, hl.timeout, hl.wheel, hl.active⟩
  · exact hi.watched.kept (.refl s) rfl
  · exact hi.history.kept (.refl s) hi.history.counted rfl rfl

/-- **Each step keeps the invariant**, and loses no item. -/
theorem Inv.step {s' : Env κ} (hi : s.Inv) (hstep : Step s s') : s'.Inv ∧ s.Progress s' := by
  have ht := hi.threads
  -- resuming, yielding, ending and closing do not touch the items
  have hsame : ∀ s' : Env κ, s'.mem = s.mem → s'.pTimeout = s.pTimeout →
      s'.returned = s.returned → s.Progress s' := by
    intro s' hmem htimeout hreturned
    exact .of_mem (by simp [hmem]) (by simp [htimeout]) (by simp [hreturned])
  cases hstep with
  | round hpc hmain hevents hgap h =>
      obtain ⟨s'', h', hi', hprog, -⟩ := hi.round hpc hevents hgap
      rw [h'] at h
      exact Option.some.inj h ▸ ⟨hi', hprog⟩
  | dispatch hpc hmain h =>
      obtain ⟨s'', h', hi', hprog⟩ := hi.dispatch hpc hmain
      rw [h'] at h
      exact Option.some.inj h ▸ ⟨hi', hprog⟩
  | poll kernel fds timeout now pollfunc h =>
      cases hstack : s.pCallStack with
      | nil =>
          -- without a running coroutine `poll` can only be passed on to the system
          simp only [Env.coPollInner, hstack] at h
          split at h
          · split at h
            · cases h
              exact ⟨hi, .refl s⟩
            · cases h
          · cases h
      | cons self rest =>
          -- the call has been made, so it had a function to call
          have hfunc : timeout = 0 → pollfunc = true := by
            intro hzero
            by_contra hno
            rw [Env.coPollInner, if_pos hzero, if_neg hno] at h
            cases h
          obtain ⟨how, s'', h', hi', hprog, -⟩ :=
            hi.coPollInner hstack kernel fds timeout now pollfunc hfunc
          rw [h'] at h
          cases h
          exact ⟨hi', hprog⟩
  | resume hco h =>
      rw [coResume] at h
      split at h
      · cases h
        -- what is resumed neither runs nor waits nor has ended
        refine ⟨hi.threads_of ⟨List.nodup_cons.mpr ⟨hco.notMem, ht.nodup⟩, fun co' hco' => ?_,
          fun x p hp => ⟨fun hmem => ?_, (ht.waiting x p hp).2⟩, ht.once⟩, hsame _ rfl rfl rfl⟩
        · obtain rfl | hco' := List.mem_cons.mp hco'
          · exact hco.notEnded
          · exact ht.running co' hco'
        · obtain heq | hmem := List.mem_cons.mp hmem
          · exact hco.notWaiting x p hp heq
          · exact (ht.waiting x p hp).1 hmem
      · cases h
  | yield h =>
      rw [coYieldEnv] at h
      split at h
      · cases h
      · rename_i hstack
        cases h
        -- the coroutine below it on the stack goes on
        have hsub : ∀ {co : κ}, co ∈ _ → co ∈ s.pCallStack := fun hco =>
          hstack ▸ List.mem_cons_of_mem _ hco
        refine ⟨hi.threads_of ⟨(List.nodup_cons.mp (hstack ▸ ht.nodup)).2,
          fun co hco => ht.running co (hsub hco), fun x p hp => ?_, ht.once⟩, hsame _ rfl rfl rfl⟩
        exact ⟨fun hmem => (ht.waiting x p hp).1 (hsub hmem), (ht.waiting x p hp).2⟩
  | ends h =>
      rw [coEnd] at h
      split at h
      · cases h
      · rename_i co rest hstack
        simp only [coYieldEnv, hstack, Option.some.injEq] at h
        subst h
        -- it is on the stack once, so it does not run any more when it has ended
        obtain ⟨hco, hnodup⟩ := List.nodup_cons.mp (hstack ▸ ht.nodup)
        have hsub : ∀ {co' : κ}, co' ∈ rest → co' ∈ s.pCallStack := fun h =>
          hstack ▸ List.mem_cons_of_mem _ h
        refine ⟨hi.threads_of ⟨hnodup, fun co' hco' hend => ?_, fun x p hp => ⟨fun hmem => ?_,
          fun hend => ?_⟩, ht.once⟩, hsame _ rfl rfl rfl⟩
        · obtain rfl | hend := List.mem_cons.mp hend
          · exact hco hco'
          · exact ht.running co' (hsub hco') hend
        · exact (ht.waiting x p hp).1 (hsub hmem)
        · obtain heq | hend := List.mem_cons.mp hend
          · exact (ht.waiting x p hp).1 (by simp [heq, hstack])
          · exact (ht.waiting x p hp).2 hend
  | close fd =>
      obtain ⟨lists, hl, hrounds⟩ := hi.lists
      refine ⟨⟨⟨lists, ?_, hrounds.own, hrounds.dispatching⟩, ?_, ⟨fun r hr => ?_, ?_⟩, ?_⟩,
        hsame _ rfl rfl rfl⟩
      · exact ⟨hl.represents, hl.sound, hl.live, hl.bound, hl.timeout, hl.wheel, hl.active⟩
      · exact ht.kept (.refl s) rfl rfl
      · exact hi.watched.item r (mem_coEpollCtlDel.mp hr).1
      · exact hi.watched.nodup.sublist (List.filter_sublist.map _)
      · exact hi.history.kept (.refl s) hi.history.counted rfl rfl

/-- **The invariant holds in all reachable states**, by induction on the run. -/
theorem inv_of_reachable (h : Reachable s) : s.Inv := by
  obtain ⟨now, hnow, hrun⟩ := h
  induction hrun with
  | refl => exact inv_init hnow
  | tail _ hstep ih => exact (ih.step hstep).1

/-- A whole run keeps the invariant, and loses no item: what its steps have done is put together by
`Progress.trans`. -/
theorem Inv.run {s' : Env κ} (hi : s.Inv) (hrun : Relation.ReflTransGen Step s s') :
    s'.Inv ∧ s.Progress s' := by
  induction hrun with
  | refl => exact ⟨hi, .refl s⟩
  | tail _ hstep ih =>
      obtain ⟨hi', hprog⟩ := ih.1.step hstep
      exact ⟨hi', ih.2.trans hprog⟩

end Env

/-! ## Results -/

variable {s : Env κ}

/-- **The scheduler is never stuck**: in no reachable state does it follow a null pointer or one to
an item that was freed, violate an assertion, run around a list for ever or overflow the call stack,
whatever `epoll_wait` reports and however a coroutine calls `poll`; but `co_poll` is not to be
called with a timeout of zero, as it has no function of the system's to call then. -/
theorem scheduler_not_stuck (h : Reachable s) :
    (s.pc = .own → s.pCallStack = [] → ∀ events now, Delivered s.epoll events →
      now - s.pTimeout.ullStart + 1 < 2 ^ 31 → (s.round events now).isSome) ∧
    (∀ now, s.pc = .dispatching now → s.pCallStack = [] → (s.dispatch now).isSome) ∧
    (s.pCallStack ≠ [] → ∀ kernel fds timeout now pollfunc, (timeout = 0 → pollfunc = true) →
      (s.coPollInner kernel fds timeout now pollfunc).isSome) := by
  have hi := Env.inv_of_reachable h
  refine ⟨fun hpc _ events now hevents hgap => ?_, fun now hpc hmain => ?_,
    fun hstack kernel fds timeout now pollfunc hfunc => ?_⟩
  · obtain ⟨s', hround, -⟩ := hi.round hpc hevents hgap
    rw [hround]
    rfl
  · obtain ⟨s', hdispatch, -⟩ := hi.dispatch hpc hmain
    rw [hdispatch]
    rfl
  · obtain ⟨self, rest, hself⟩ := List.exists_cons_of_ne_nil hstack
    obtain ⟨how, s', hpoll, -⟩ := hi.coPollInner hself kernel fds timeout now pollfunc hfunc
    rw [hpoll]
    rfl

/-- A thread in which a coroutine waits for the descriptor 3, for 5 milliseconds at most. -/
def oneWait : Env Nat :=
  { (Env.init 1).alloc (fun _ => none) (Poll.start [⟨3, 1⟩] 6 0) with
    heap := Heap.zero.addTail (Timeout.slot (Timeout.alloc (60 * 1000) 1) 5) 0 }

/-- The descriptor becomes readable. -/
def oneEvent : List (Registration × BitVec 32) := [(⟨3, 1, 0, 0⟩, 1)]

/-- A coroutine is resumed in a new thread, and calls `poll`. -/
theorem reachable_oneWait : Reachable oneWait := by
  refine ⟨1, Nat.one_pos, ?_⟩
  refine .tail (.tail .refl (.resume ⟨?_, ?_, ?_⟩ rfl))
    (.poll (fun _ => none) [⟨3, 1⟩] 5 1 true rfl)
  · exact List.not_mem_nil
  · intro x p hp
    cases hp
  · exact List.not_mem_nil

/-- The event is for a registration of the coroutine's item. -/
theorem delivered_oneEvent : Delivered oneWait.epoll oneEvent :=
  ⟨by decide, by decide, by decide⟩

/-- The round in which the event is reported can be made. -/
theorem scheduler_not_stuck_oneWait : (oneWait.round oneEvent 2).isSome :=
  (scheduler_not_stuck reachable_oneWait).1 rfl rfl _ _ delivered_oneEvent (by decide)

/-- **Each call of `poll` comes back once, and for a reason**: a call that was made waits or has
come back, and not both; a call that has come back has failed, or returned the number of its
descriptors with events, and that is not zero unless its time was over. -/
theorem poll_returns_once (h : Reachable s) :
    (s.returned.map Return.poll).Nodup ∧
    (∀ x, x < s.next ↔ ((s.mem x).isSome ∧ x ∉ s.returned.map Return.poll) ∨
      (s.mem x = none ∧ x ∈ s.returned.map Return.poll)) ∧
    ∀ r ∈ s.returned, r.ret = -1 ∨
      r.ret = (r.arg.revents.countP fun e => decide (e ≠ 0) : Nat) ∧
        (0 < r.ret ∨ r.arg.ullExpireTime ≤ r.now) := by
  have hh := (Env.inv_of_reachable h).history
  refine ⟨hh.nodup, fun x => ?_, fun r hr => ?_⟩
  · rw [hh.all, ← Option.isSome_iff_exists]
    constructor
    · rintro (hx | hx)
      · refine .inl ⟨hx, fun hmem => ?_⟩
        obtain ⟨r, hr, rfl⟩ := List.mem_map.mp hmem
        simp [hh.freed r hr] at hx
      · obtain ⟨r, hr, rfl⟩ := List.mem_map.mp hx
        exact .inr ⟨hh.freed r hr, hx⟩
    · exact Or.imp And.left And.right
  · obtain hret | ⟨hret, hreason⟩ := hh.ok r hr
    · exact .inl hret
    · refine .inr ⟨?_, hreason.imp (fun hpos => ?_) id⟩
      · rw [hret, (hh.returned r hr).2]
      · rw [hret]
        exact_mod_cast hpos

/-- The call has come back with one descriptor, after the round and an iteration over the active
items. -/
theorem poll_returns_once_oneWait :
    ∃ s : Env Nat, s.returned.map Return.ret = [1] ∧ (s.returned.map Return.poll).Nodup ∧
      ∀ r ∈ s.returned, r.ret = -1 ∨
        r.ret = (r.arg.revents.countP fun e => decide (e ≠ 0) : Nat) ∧
          (0 < r.ret ∨ r.arg.ullExpireTime ≤ r.now) := by
  obtain ⟨now, hnow, hrun⟩ := reachable_oneWait
  have hround : Step oneWait _ :=
    .round rfl rfl delivered_oneEvent (by decide : 2 - 1 + 1 < 2 ^ 31) rfl
  have hreach : Reachable _ := ⟨now, hnow, (hrun.tail hround).tail (.dispatch rfl rfl rfl)⟩
  exact ⟨_, rfl, (poll_returns_once hreach).1, (poll_returns_once hreach).2.2⟩

/-- **No wait is forgotten**: when the main coroutine is back from a round, each call of `poll`
whose time was over in that round, or which had an event in it, has come back. -/
theorem round_wakes_all (h : Reachable s) (hpc : s.pc = .own)
    {events : List (Registration × BitVec 32)} (hevents : Delivered s.epoll events) {now : Nat}
    (hgap : now - s.pTimeout.ullStart + 1 < 2 ^ 31) {s₁ s₂ : Env κ}
    (hround : s.round events now = some s₁) (hrun : Relation.ReflTransGen Step s₁ s₂)
    (hown : s₂.pc = .own) {x : Nat} {p : Poll κ} (hp : s.mem x = some p)
    (hdue : p.ullExpireTime ≤ now ∨ ∃ e ∈ events, e.1.poll = x) :
    ∃ r ∈ s₂.returned, r.poll = x ∧ r.arg.call = p.call := by
  have hi := Env.inv_of_reachable h
  obtain ⟨s', hround', hi₁, hprog₁, -, -, -, -, hnow, hdetached⟩ := hi.round hpc hevents hgap
  obtain rfl : s' = s₁ := Option.some.inj (hround'.symm.trans hround)
  obtain ⟨hi₂, hprog₂⟩ := hi₁.run hrun
  obtain ⟨q, hq, hcall, hdetach⟩ | ⟨r, hr, hx, hcall⟩ := (hprog₁.trans hprog₂).item x p hp
  · -- what is left between the rounds has neither expired nor an event
    obtain ⟨hpending, hlate⟩ := hi₂.pending hown hq
    exfalso
    obtain hexp | ⟨e, he, rfl⟩ := hdue
    · have hstart := hprog₂.start
      rw [(Prod.mk.inj (Prod.mk.inj hcall).2).1] at hlate
      omega
    · obtain ⟨p₁, hp₁, -⟩ | ⟨r, hr, hx, -⟩ := hprog₁.item _ p hp
      · obtain ⟨q', hq', -, hstay⟩ | ⟨r, hr, hx, -⟩ := hprog₂.item _ p₁ hp₁
        · rw [hq] at hq'
          cases hq'
          have := hstay (hdetached e he p₁ hp₁)
          rw [hpending.2.1] at this
          cases this
        · rw [← hx, hi₂.history.freed r hr] at hq
          cases hq
      · rw [← hx, hi₂.history.freed r (hprog₂.returned hr)] at hq
        cases hq
  · exact ⟨r, hr, hx, hcall⟩

/-- The coroutine is woken because of the event, before its time is over. -/
theorem round_wakes_all_oneWait :
    ∃ s₁ s₂, oneWait.round oneEvent 2 = some s₁ ∧ Relation.ReflTransGen Step s₁ s₂ ∧ s₂.pc = .own ∧
      ∃ r ∈ s₂.returned, r.poll = 0 ∧ r.arg.call = (Poll.start [⟨3, 1⟩] 6 0).call := by
  have hrun : Relation.ReflTransGen Step ((oneWait.round oneEvent 2).get rfl) _ :=
    .tail (.tail (.tail .refl (.dispatch rfl rfl rfl)) (.yield rfl)) (.dispatch rfl rfl rfl)
  exact ⟨_, _, rfl, hrun, rfl, round_wakes_all reachable_oneWait rfl delivered_oneEvent
    (by decide : 2 - 1 + 1 < 2 ^ 31) rfl hrun rfl rfl (.inr ⟨_, List.mem_singleton_self _, rfl⟩)⟩

end Libco

end FastCgi
