import Mathlib.Data.List.Perm.Subperm
import FastCgi.Libco.EventLoop

/-! # The items of the scheduler

`Env.Inv` is the invariant of the scheduler: each item is on one list, those to which nothing has
happened are on the wheel, and not later than they expire; each belongs to one coroutine, which
neither runs nor has ended; each registration points to an item.

The lemmas of this module are about the lists, in a round of the loop: `Lists.prepareAll` about the
items of its events, and `Lists.expireAll` about those whose time is over. -/

namespace FastCgi

namespace Libco

variable {κ : Type}

/-! ## The invariant -/

namespace Poll

variable (p : Poll κ)

/-- Nothing has happened to the item. -/
def Pending : Prop := p.bTimeout = false ∧ p.iAllEventDetach = false ∧ p.iRaiseCnt = 0

/-- A descriptor of the item has become ready. -/
def Raised : Prop := p.bTimeout = false ∧ p.iAllEventDetach = true ∧ 0 < p.iRaiseCnt

/-- The item was taken off the wheel. -/
def Expired : Prop := p.bTimeout = true ∧ p.iAllEventDetach = false ∧ p.iRaiseCnt = 0

/-- `iRaiseCnt` is the number of descriptors with events. -/
def Counted : Prop :=
  p.revents.length = p.fds.length ∧ p.iRaiseCnt = p.revents.countP fun e => decide (e ≠ 0)

/-- The call of `poll` that an item stands for. -/
def call : List PollFd × Nat × κ := (p.fds, p.ullExpireTime, p.pArg)

/-- What `OnPollPreparePfn` makes of an item. -/
def raise (i : Nat) (e : BitVec 32) : Poll κ :=
  { p with
    revents := p.revents.set i (epollEvent2Poll e)
    iRaiseCnt := p.iRaiseCnt + 1
    iAllEventDetach := true }

variable {p} in
/-- A new event is counted once more. -/
theorem Counted.raise (hp : p.Counted) {i : Nat} {e : BitVec 32}
    (hi : p.revents[i]? = some 0)
    (he : epollEvent2Poll e ≠ 0) :
    (p.raise i e).Counted := by
  obtain ⟨hlen, hcount⟩ := hp
  obtain ⟨hlt, hzero⟩ := List.getElem?_eq_some_iff.mp hi
  refine ⟨by simpa [Poll.raise] using hlen, ?_⟩
  simp only [Poll.raise, List.countP_set hlt, hzero]
  simpa [hcount] using he

end Poll

namespace Env

variable (s : Env κ)

def expire (x : Nat) : Nat := ((s.mem x).map Poll.ullExpireTime).getD 0

/-- The items are on lists: those to which nothing has happened on the wheel, and the others on the
list of active items. -/
structure Lists (lists : Place → List Nat) : Prop where
  represents : s.heap.Represents lists
  sound : s.pTimeout.Sound lists s.expire
  live : ∀ x, (∃ l, x ∈ lists l) ↔ ∃ p, s.mem x = some p
  bound : ∀ x p, s.mem x = some p → x < s.next
  timeout : lists .timeout = []
  wheel : ∀ i x p, x ∈ lists (.slot i) → s.mem x = some p →
    p.Pending ∧ s.pTimeout.ullStart < p.ullExpireTime
  active : ∀ x p, x ∈ lists .active → s.mem x = some p → p.Raised ∨ p.Expired

/-- The main coroutine is in the loop as long as there are active items, and those that were taken
off the wheel have been so in this round. -/
structure Rounds (lists : Place → List Nat) : Prop where
  own : s.pc = .own → lists .active = []
  dispatching : ∀ now, s.pc = .dispatching now → now ≤ s.pTimeout.ullStart ∧
    ∀ x p, x ∈ lists .active → s.mem x = some p → p.Expired → s.pTimeout.ullStart = now

/-- A coroutine waits once, and neither runs nor has ended. -/
structure Threads : Prop where
  nodup : s.pCallStack.Nodup
  running : ∀ co ∈ s.pCallStack, co ∉ s.ended
  waiting : ∀ x p, s.mem x = some p → p.pArg ∉ s.pCallStack ∧ p.pArg ∉ s.ended
  once : ∀ x y p q, s.mem x = some p → s.mem y = some q → p.pArg = q.pArg → x = y

/-- Registrations belong to items, and there is one at most for each descriptor. -/
structure Watched : Prop where
  item : ∀ r ∈ s.epoll, ∃ p f, s.mem r.poll = some p ∧ p.fds[r.i]? = some f ∧
    f.fd = r.fd ∧ -1 < f.fd ∧ r.events = pollEvent2Epoll f.events
  nodup : (s.epoll.map Registration.fd).Nodup

end Env

/-- A call of `poll` came back for a reason: one of its descriptors was ready, or its time was over,
or it failed. -/
def Return.Ok (r : Return κ) : Prop :=
  r.ret = -1 ∨ r.ret = r.arg.iRaiseCnt ∧ (0 < r.arg.iRaiseCnt ∨ r.arg.ullExpireTime ≤ r.now)

namespace Env

variable (s : Env κ)

/-- Each call of `poll` waits or has come back, once. -/
structure History : Prop where
  nodup : (s.returned.map Return.poll).Nodup
  all : ∀ x, x < s.next ↔ (∃ p, s.mem x = some p) ∨ x ∈ s.returned.map Return.poll
  freed : ∀ r ∈ s.returned, s.mem r.poll = none
  ok : ∀ r ∈ s.returned, r.Ok
  counted : ∀ x p, s.mem x = some p → p.Counted
  returned : ∀ r ∈ s.returned, r.arg.Counted

/-- The **invariant** of the scheduler. -/
structure Inv : Prop where
  lists : ∃ lists, s.Lists lists ∧ s.Rounds lists
  threads : s.Threads
  watched : s.Watched
  history : s.History

end Env

namespace Env

variable {s : Env κ} {lists : Place → List Nat}

/-! ## Items -/

@[simp] theorem setPoll_mem_self (x : Nat) (p : Poll κ) : (s.setPoll x p).mem x = some p :=
  Function.update_self ..

theorem setPoll_mem_of_ne {x y : Nat} (h : y ≠ x) (p : Poll κ) :
    (s.setPoll x p).mem y = s.mem y :=
  Function.update_of_ne h ..

/-- Lists are not longer than there are items. -/
theorem Lists.length_le (hl : s.Lists lists) (l : Place) : (lists l).length ≤ s.next := by
  have hsub : lists l ⊆ List.range s.next := by
    intro x hx
    obtain ⟨p, hp⟩ := (hl.live x).mp ⟨l, hx⟩
    exact List.mem_range.mpr (hl.bound x p hp)
  simpa using ((hl.represents.nodup l).subperm hsub).length_le

/-- One item is written and moved to another list. -/
theorem Lists.move (hl : s.Lists lists) {x : Nat} {p q : Poll κ} (hp : s.mem x = some p)
    (hexp : q.ullExpireTime = p.ullExpireTime) {heap : Heap Nat Place}
    {lists' : Place → List Nat} (hr : heap.Represents lists')
    (hsound : s.pTimeout.Sound lists' s.expire)
    (hother : ∀ y, y ≠ x → ∀ l, y ∈ lists' l ↔ y ∈ lists l) (hx : ∃ l, x ∈ lists' l)
    (htimeout : lists' .timeout = [])
    (hwheel : ∀ i, x ∈ lists' (.slot i) → q.Pending ∧ s.pTimeout.ullStart < q.ullExpireTime)
    (hactive : x ∈ lists' .active → q.Raised ∨ q.Expired) :
    ({ s.setPoll x q with heap := heap } : Env κ).Lists lists' where
  represents := hr
  sound := by
    -- the time of the item is as before, so the wheel is as right as it was
    have hexpire : ({ s.setPoll x q with heap := heap } : Env κ).expire = s.expire := by
      funext y
      by_cases hy : y = x
      · subst hy
        simp [expire, hp, hexp]
      · simp [expire, setPoll_mem_of_ne hy]
    rw [hexpire]
    exact hsound
  live y := by
    by_cases hy : y = x
    · subst hy
      simpa using hx
    · simp only [setPoll_mem_of_ne hy, ← hl.live y, hother y hy]
  bound y r hr := by
    by_cases hy : y = x
    · exact hy ▸ hl.bound x p hp
    · simp only [setPoll_mem_of_ne hy] at hr
      exact hl.bound y r hr
  timeout := htimeout
  wheel i y r hy hr := by
    by_cases hyx : y = x
    · subst hyx
      obtain rfl : q = r := by simpa using hr
      exact hwheel i hy
    · simp only [setPoll_mem_of_ne hyx] at hr
      exact hl.wheel i y r ((hother y hyx _).mp hy) hr
  active y r hy hr := by
    by_cases hyx : y = x
    · subst hyx
      obtain rfl : q = r := by simpa using hr
      exact hactive hy
    · simp only [setPoll_mem_of_ne hyx] at hr
      exact hl.active y r ((hother y hyx _).mp hy) hr

/-! ## The events of a round -/

/-- All active items are so because of an event. -/
def AllRaised (s : Env κ) (lists : Place → List Nat) : Prop :=
  ∀ x p, x ∈ lists .active → s.mem x = some p → p.Raised

/-- `OnPollPreparePfn` moves the item to the active ones, unless it is there already. -/
theorem Lists.onPollPreparePfn (hl : s.Lists lists) (hraised : s.AllRaised lists)
    {e : Registration × BitVec 32} {p : Poll κ} (hp : s.mem e.1.poll = some p)
    (hi : e.1.i < p.revents.length) :
    ∃ heap lists', s.onPollPreparePfn e
        = some { s.setPoll e.1.poll (p.raise e.1.i e.2) with heap := heap } ∧
      ({ s.setPoll e.1.poll (p.raise e.1.i e.2) with heap := heap } : Env κ).Lists lists' ∧
      ({ s.setPoll e.1.poll (p.raise e.1.i e.2) with heap := heap } : Env κ).AllRaised lists' ∧
      lists .active ⊆ lists' .active ∧ e.1.poll ∈ lists' .active := by
  obtain ⟨l, hx⟩ := (hl.live e.1.poll).mpr ⟨p, hp⟩
  have hbt : p.bTimeout = false := by
    cases l with
    | slot i => exact (hl.wheel i _ p hx hp).1.1
    | timeout =>
        rw [hl.timeout] at hx
        cases hx
    | active => exact (hraised _ p hx hp).1
  have hraise : (p.raise e.1.i e.2).Raised := ⟨hbt, rfl, Nat.succ_pos _⟩
  have hall : ∀ {heap : Heap Nat Place} {lists' : Place → List Nat},
      (∀ y, y ≠ e.1.poll → y ∈ lists' .active → y ∈ lists .active) →
      ({ s.setPoll e.1.poll (p.raise e.1.i e.2) with heap := heap } : Env κ).AllRaised lists' := by
    intro heap lists' hsub y q hy hq
    by_cases hyx : y = e.1.poll
    · subst hyx
      obtain rfl : p.raise e.1.i e.2 = q := by simpa using hq
      exact hraise
    · simp only [setPoll_mem_of_ne hyx] at hq
      exact hraised y q (hsub y hyx hy) hq
  rw [Env.onPollPreparePfn, hp]
  simp only [Option.bind_eq_bind, Option.bind_some, if_pos hi]
  cases hdetach : p.iAllEventDetach with
  | true =>
      -- the item is active already
      have hactive : e.1.poll ∈ lists .active := by
        cases l with
        | slot i =>
            have := (hl.wheel i _ p hx hp).1.2.1
            simp [hdetach] at this
        | timeout =>
            rw [hl.timeout] at hx
            cases hx
        | active => exact hx
      have hpoll : (⟨p.fds, p.revents.set e.1.i (epollEvent2Poll e.2), p.ullExpireTime, p.bTimeout,
          p.pArg, true, p.iRaiseCnt + 1⟩ : Poll κ) = p.raise e.1.i e.2 := rfl
      simp only [if_true, hpoll]
      refine ⟨s.heap, lists, rfl, ?_, hall fun _ _ hy => hy, fun _ hy => hy, hactive⟩
      refine hl.move (q := p.raise e.1.i e.2) hp rfl hl.represents hl.sound (fun _ _ _ => Iff.rfl)
        ⟨_, hactive⟩ hl.timeout (fun i hi => ?_) fun _ => .inl hraise
      cases hl.represents.eq_of_mem hi hactive
  | false =>
      obtain ⟨heap, hremove, hr⟩ := hl.represents.removeFromLink e.1.poll
      have hnot : ∀ k, e.1.poll ∉ (lists k).erase e.1.poll := fun k hk =>
        ((hl.represents.nodup k).mem_erase_iff.mp hk).1 rfl
      have hr' := hr.addTail .active hnot
      have hslot : ∀ i, Place.slot i ≠ .active := fun i h => by cases h
      have hpoll : (⟨p.fds, p.revents.set e.1.i (epollEvent2Poll e.2), p.ullExpireTime, p.bTimeout,
          p.pArg, true, p.iRaiseCnt + 1⟩ : Poll κ) = p.raise e.1.i e.2 := rfl
      simp only [hremove, Option.bind_some, hpoll]
      refine ⟨heap.addTail .active e.1.poll,
        Function.update (fun k => (lists k).erase e.1.poll) .active
          ((lists .active).erase e.1.poll ++ [e.1.poll]),
        rfl, ?_, hall fun y hyx hy => ?_, fun y hy => ?_, ?_⟩
      · refine hl.move (q := p.raise e.1.i e.2) hp rfl hr' (hl.sound.mono fun i y hy => ?_)
          (fun y hy k => ?_) ⟨.active, by simp⟩ ?_ (fun i hi => ?_) fun _ => .inl hraise
        · rw [Function.update_of_ne (hslot i)] at hy
          exact List.mem_of_mem_erase hy
        · by_cases hk : k = .active
          · subst hk
            simp [hy, (hl.represents.nodup _).mem_erase_iff]
          · simp [Function.update_of_ne hk, hy, (hl.represents.nodup _).mem_erase_iff]
        · rw [Function.update_of_ne (by simp), hl.timeout]
          rfl
        · rw [Function.update_of_ne (hslot i)] at hi
          exact absurd hi (hnot _)
      · simp only [Function.update_self, List.mem_append, List.mem_singleton, hyx, or_false] at hy
        exact List.mem_of_mem_erase hy
      · by_cases hyx : y = e.1.poll
        · simp [hyx]
        · simp [hyx, (hl.represents.nodup _).mem_erase_iff, hy]
      · simp

/-- What the loop does not change in the items: they stay allocated, for the same call of the same
coroutine. -/
def Kept (s s' : Env κ) : Prop :=
  ∀ x, (s'.mem x).map Poll.call = (s.mem x).map Poll.call

theorem Kept.refl (s : Env κ) : s.Kept s := fun _ => rfl

theorem Kept.trans {s' s'' : Env κ} (h : s.Kept s') (h' : s'.Kept s'') : s.Kept s'' :=
  fun x => (h' x).trans (h x)

theorem Kept.symm {s' : Env κ} (h : s.Kept s') : s'.Kept s := fun x => (h x).symm

/-- An item of the one state in the other. -/
theorem Kept.exists {s' : Env κ} (h : s.Kept s') {x : Nat} {p' : Poll κ} (hp : s'.mem x = some p') :
    ∃ p, s.mem x = some p ∧ p'.call = p.call := by
  have hx := h x
  rw [hp] at hx
  cases hp' : s.mem x with
  | none => simp [hp'] at hx
  | some p => exact ⟨p, rfl, by simpa [hp'] using hx⟩

theorem kept_setPoll {x : Nat} {p q : Poll κ} (hp : s.mem x = some p) (hq : q.call = p.call) :
    s.Kept (s.setPoll x q) := by
  intro y
  by_cases hy : y = x
  · subst hy
    simp [hp, hq]
  · rw [setPoll_mem_of_ne hy]

/-- All descriptors with events are counted. -/
def AllCounted (s : Env κ) : Prop := ∀ x p, s.mem x = some p → p.Counted

/-- **The loop over the events of a round**: the items of the events become active. -/
theorem Lists.prepareAll {events : List (Registration × BitVec 32)} (hl : s.Lists lists)
    (hraised : s.AllRaised lists) (hcounted : s.AllCounted)
    (hevents : ∀ e ∈ events, epollEvent2Poll e.2 ≠ 0 ∧
      ∃ p, s.mem e.1.poll = some p ∧ p.revents[e.1.i]? = some 0)
    (hnodup : (events.map fun e => (e.1.poll, e.1.i)).Nodup) :
    ∃ heap mem lists', events.foldlM Env.onPollPreparePfn s
        = some { s with heap := heap, mem := mem } ∧
      ({ s with heap := heap, mem := mem } : Env κ).Lists lists' ∧
      ({ s with heap := heap, mem := mem } : Env κ).AllRaised lists' ∧
      ({ s with heap := heap, mem := mem } : Env κ).AllCounted ∧
      s.Kept { s with heap := heap, mem := mem } ∧ lists .active ⊆ lists' .active ∧
      ∀ e ∈ events, e.1.poll ∈ lists' .active := by
  induction events generalizing s lists with
  | nil =>
      exact ⟨s.heap, s.mem, lists, rfl, hl, hraised, hcounted, .refl s, fun _ hx => hx,
        fun e he => by cases he⟩
  | cons e events ih =>
      obtain ⟨hne, p, hp, hzero⟩ := hevents e List.mem_cons_self
      obtain ⟨hnot, hnodup⟩ := List.nodup_cons.mp hnodup
      have hi : e.1.i < p.revents.length := (List.getElem?_eq_some_iff.mp hzero).1
      obtain ⟨heap, lists', hstep, hl', hraised', hsub, hmem⟩ := hl.onPollPreparePfn hraised hp hi
      have hkept : s.Kept { s.setPoll e.1.poll (p.raise e.1.i e.2) with heap := heap } :=
        kept_setPoll hp rfl
      have hcounted' : ({ s.setPoll e.1.poll (p.raise e.1.i e.2) with heap := heap } : Env κ)
          |>.AllCounted := by
        intro y q hq
        by_cases hy : y = e.1.poll
        · subst hy
          obtain rfl : p.raise e.1.i e.2 = q := by simpa using hq
          exact (hcounted _ p hp).raise hzero hne
        · simp only [setPoll_mem_of_ne hy] at hq
          exact hcounted y q hq
      -- the other events are for other descriptors
      have hevents' : ∀ e' ∈ events, epollEvent2Poll e'.2 ≠ 0 ∧
          ∃ q, ({ s.setPoll e.1.poll (p.raise e.1.i e.2) with heap := heap } : Env κ).mem e'.1.poll
            = some q ∧ q.revents[e'.1.i]? = some 0 := by
        intro e' he'
        obtain ⟨hne', p', hp', hzero'⟩ := hevents e' (List.mem_cons_of_mem _ he')
        refine ⟨hne', ?_⟩
        by_cases hpoll : e'.1.poll = e.1.poll
        · have hidx : e.1.i ≠ e'.1.i := by
            intro heq
            exact hnot (List.mem_map.mpr ⟨e', he', Prod.ext hpoll heq.symm⟩)
          obtain rfl : p = p' := by
            rw [hpoll, hp] at hp'
            exact Option.some.inj hp'
          refine ⟨p.raise e.1.i e.2, by simp [hpoll], ?_⟩
          simp only [Poll.raise, List.getElem?_set_ne hidx, hzero']
        · exact ⟨p', by simpa only [setPoll_mem_of_ne hpoll] using hp', hzero'⟩
      obtain ⟨heap', mem', lists'', hfold, hl'', hraised'', hcounted'', hkept', hsub', hmem'⟩ :=
        ih hl' hraised' hcounted' hevents' hnodup
      refine ⟨heap', mem', lists'', ?_, hl'', hraised'', hcounted'', hkept.trans hkept',
        fun x hx => hsub' (hsub hx), fun e' he' => ?_⟩
      · rw [List.foldlM_cons, hstep]
        exact hfold
      · obtain rfl | he' := List.mem_cons.mp he'
        · exact hsub' hmem
        · exact hmem' e' he'

/-! ## The time of a round -/

/-- The items after those of a list were marked. -/
def marked (mem : Nat → Option (Poll κ)) (xs : List Nat) (x : Nat) : Option (Poll κ) :=
  if x ∈ xs then (mem x).map fun p => { p with bTimeout := true } else mem x

/-- The loop over the items whose time is over. -/
theorem markTimeout_ok {h : Heap Nat Place} {l : Place} {prev : Option Nat} {xs : List Nat}
    (hseg : h.Seg l prev xs none) (hnodup : xs.Nodup) {mem : Nat → Option (Poll κ)}
    (hmem : ∀ x ∈ xs, ∃ p, mem x = some p) {fuel : Nat} (hfuel : xs.length ≤ fuel) :
    markTimeout h.node fuel mem xs.head? = some (marked mem xs) := by
  induction xs generalizing prev mem fuel with
  | nil =>
      have hnone : marked mem [] = mem := by
        funext x
        rw [marked, if_neg (by simp)]
      rw [hnone, List.head?_nil]
      cases fuel <;> rfl
  | cons x xs ih =>
      obtain ⟨hx, hnodup⟩ := List.nodup_cons.mp hnodup
      obtain ⟨p, hp⟩ := hmem x List.mem_cons_self
      obtain ⟨hnode, hseg⟩ := hseg
      cases fuel with
      | zero => cases hfuel
      | succ fuel =>
          rw [List.head?_cons, markTimeout, hp, hnode, Option.or_none]
          simp only [Option.bind_eq_bind, Option.bind_some]
          rw [ih hseg hnodup (fun y hy => ?_) (by simpa using hfuel)]
          · congr 1
            funext y
            by_cases hy : y = x
            · subst hy
              simp [marked, hx, hp]
            · simp [marked, hy]
          · rw [Function.update_of_ne (ne_of_mem_of_not_mem hy hx)]
            exact hmem y (List.mem_cons_of_mem _ hy)

/-- `TakeAllTimeout` has taken items off the wheel: those that are left expire later. -/
structure Taken (s : Env κ) (lists : Place → List Nat) (now : Nat) (t : Timeout)
    (h : Heap Nat Place) (lists' : Place → List Nat) : Prop where
  represents : h.Represents lists'
  sound : t.Sound lists' s.expire
  active : lists' .active = lists .active
  slots : ∀ x, (∃ i, x ∈ lists (.slot i)) ↔ x ∈ lists' .timeout ∨ ∃ i, x ∈ lists' (.slot i)
  late : ∀ i x, x ∈ lists' (.slot i) → t.ullStart < s.expire x
  mono : s.pTimeout.ullStart ≤ t.ullStart
  now_le : now ≤ t.ullStart
  due : lists' .timeout ≠ [] → t.ullStart = now

/-- What `TakeAllTimeout` takes off the wheel, at any time: if the clock has been set back, nothing
is. -/
theorem Lists.takeAllTimeout (hl : s.Lists lists) {now : Nat}
    (hgap : now - s.pTimeout.ullStart + 1 < 2 ^ 31) :
    ∃ t h lists', s.pTimeout.takeAllTimeout s.next s.heap now .timeout = some (t, h) ∧
      s.Taken lists now t h lists' := by
  have hres : ∀ i, Place.timeout ≠ .slot i := fun i h => by cases h
  by_cases hstart : s.pTimeout.ullStart ≤ now
  · obtain ⟨t, h, lists', due, htake, hr, hsound, hnow, htimeout, hother, hslots, hlate⟩ :=
      hl.sound.takeAllTimeout hl.represents hres hl.length_le hstart hgap
    rw [hl.timeout, List.nil_append] at htimeout
    subst htimeout
    refine ⟨t, h, lists', htake, hr, hsound, hother _ (by simp) (by simp), hslots, ?_,
      hstart.trans hnow.ge, hnow.ge, fun _ => hnow⟩
    rw [hnow]
    exact hlate
  · refine ⟨s.pTimeout, s.heap, lists, ?_, hl.represents, hl.sound, rfl, fun x => ?_,
      fun i x hx => ?_, le_refl _, by omega, fun h => absurd hl.timeout h⟩
    · rw [Timeout.takeAllTimeout, hl.sound.running.start, if_pos (by omega)]
    · simp [hl.timeout]
    · obtain ⟨p, hp⟩ := (hl.live x).mp ⟨_, hx⟩
      have := (hl.wheel i x p hx hp).2
      rwa [expire, hp]

namespace Taken

variable {now : Nat} {t : Timeout} {h : Heap Nat Place} {lists' : Place → List Nat}

/-- What is on the lists are the items that were there. -/
theorem live (ht : s.Taken lists now t h lists') (hl : s.Lists lists) {l : Place} {x : Nat}
    (hx : x ∈ lists' l) : ∃ p, s.mem x = some p := by
  cases l with
  | slot i =>
      obtain ⟨j, hj⟩ := (ht.slots x).mpr (.inr ⟨i, hx⟩)
      exact (hl.live x).mp ⟨_, hj⟩
  | timeout =>
      obtain ⟨j, hj⟩ := (ht.slots x).mpr (.inl hx)
      exact (hl.live x).mp ⟨_, hj⟩
  | active => exact (hl.live x).mp ⟨_, ht.active ▸ hx⟩

theorem length_le (ht : s.Taken lists now t h lists') (hl : s.Lists lists) :
    (lists' .timeout).length ≤ s.next := by
  have hsub : lists' .timeout ⊆ List.range s.next := by
    intro x hx
    obtain ⟨p, hp⟩ := ht.live hl hx
    exact List.mem_range.mpr (hl.bound x p hp)
  simpa using ((ht.represents.nodup .timeout).subperm hsub).length_le

/-- The items of the other lists are not marked. -/
theorem marked_eq (ht : s.Taken lists now t h lists') {x : Nat} {l : Place} (hx : x ∈ lists' l)
    (hne : l ≠ .timeout) : marked s.mem (lists' .timeout) x = s.mem x := by
  rw [marked, if_neg fun hx' => hne (ht.represents.eq_of_mem hx hx')]

/-- Nothing has happened to those that are. -/
theorem expired (ht : s.Taken lists now t h lists') (hl : s.Lists lists) {x : Nat} {p : Poll κ}
    (hx : x ∈ lists' .timeout) (hp : marked s.mem (lists' .timeout) x = some p) : p.Expired := by
  obtain ⟨i, hi⟩ := (ht.slots x).mpr (.inl hx)
  obtain ⟨q, hq⟩ := ht.live hl hx
  obtain ⟨-, hdetach, hcnt⟩ := (hl.wheel i x q hi hq).1
  rw [marked, if_pos hx, hq] at hp
  cases hp
  exact ⟨rfl, hdetach, hcnt⟩

end Taken

/-- The lists after those whose time is over have become active. -/
def joined (lists : Place → List Nat) : Place → List Nat :=
  Function.update (Function.update lists .active (lists .active ++ lists .timeout)) .timeout []

@[simp] theorem mem_joined_slot {i : Int} {x : Nat} :
    x ∈ joined lists (.slot i) ↔ x ∈ lists (.slot i) := by
  simp [joined]

@[simp] theorem joined_timeout : joined lists .timeout = [] := Function.update_self ..

@[simp] theorem mem_joined_active {x : Nat} :
    x ∈ joined lists .active ↔ x ∈ lists .active ∨ x ∈ lists .timeout := by
  simp [joined]

/-- Nothing gets lost. -/
theorem exists_mem_joined {x : Nat} : (∃ l, x ∈ joined lists l) ↔ ∃ l, x ∈ lists l := by
  constructor
  · rintro ⟨l, hx⟩
    cases l with
    | slot i => exact ⟨.slot i, mem_joined_slot.mp hx⟩
    | timeout => simp at hx
    | active =>
        obtain hx | hx := mem_joined_active.mp hx
        · exact ⟨_, hx⟩
        · exact ⟨_, hx⟩
  · rintro ⟨l, hx⟩
    cases l with
    | slot i => exact ⟨.slot i, mem_joined_slot.mpr hx⟩
    | timeout => exact ⟨.active, mem_joined_active.mpr (.inr hx)⟩
    | active => exact ⟨.active, mem_joined_active.mpr (.inl hx)⟩

/-- Marking keeps the calls that the items stand for. -/
theorem kept_marked (xs : List Nat) (t : Timeout) (heap : Heap Nat Place) :
    s.Kept { s with pTimeout := t, heap := heap, mem := marked s.mem xs } := by
  intro x
  show (marked s.mem xs x).map _ = _
  rw [marked]
  split
  · cases s.mem x <;> rfl
  · rfl

/-- It keeps their times too. -/
theorem Kept.expire_eq {s' : Env κ} (hk : s.Kept s') : s'.expire = s.expire := by
  funext x
  have hcall := congrArg (Option.map fun c : List PollFd × Nat × κ => c.2.1) (hk x)
  simp only [Option.map_map] at hcall
  exact congrArg (Option.getD · 0) hcall

theorem AllCounted.marked (hcounted : s.AllCounted) {xs : List Nat} {x : Nat} {p : Poll κ}
    (hp : Env.marked s.mem xs x = some p) : p.Counted := by
  rw [Env.marked] at hp
  split at hp
  · obtain ⟨q, hq, rfl⟩ := Option.map_eq_some_iff.mp hp
    exact hcounted x q hq
  · exact hcounted x p hp

/-- The lists are in order after the items whose time is over have become active. -/
theorem Taken.lists_joined {now : Nat} {t : Timeout} {h heap : Heap Nat Place}
    {lists' : Place → List Nat} (ht : s.Taken lists now t h lists') (hl : s.Lists lists)
    (hraised : s.AllRaised lists) (hr : heap.Represents (joined lists')) :
    ({ s with pTimeout := t, heap := heap, mem := marked s.mem (lists' .timeout) } : Env κ).Lists
      (joined lists') := by
  have hkept := kept_marked (s := s) (lists' .timeout) t heap
  refine ⟨hr, ?_, fun x => ?_, fun x p hp => ?_, joined_timeout, fun i x p hx hp => ?_,
    fun x p hx hp => ?_⟩
  · rw [hkept.expire_eq]
    exact ht.sound.mono fun i x hx => mem_joined_slot.mp hx
  · rw [exists_mem_joined]
    constructor
    · rintro ⟨l, hx⟩
      -- marking and joining neither allocates nor frees items
      obtain ⟨p, hp⟩ := ht.live hl hx
      obtain ⟨q, hq, -⟩ := hkept.symm.exists hp
      exact ⟨q, hq⟩
    · rintro ⟨q, hq⟩
      obtain ⟨p, hp, -⟩ := hkept.exists hq
      obtain ⟨l, hx⟩ := (hl.live x).mpr ⟨p, hp⟩
      cases l with
      | slot i =>
          -- what was in a slot has been taken out or is still in one
          obtain hx | ⟨j, hx⟩ := (ht.slots x).mp ⟨i, hx⟩
          · exact ⟨.timeout, hx⟩
          · exact ⟨.slot j, hx⟩
      | timeout =>
          rw [hl.timeout] at hx
          cases hx
      | active => exact ⟨.active, ht.active ▸ hx⟩
  · obtain ⟨q, hq, -⟩ := hkept.exists hp
    exact hl.bound x q hq
  · replace hx := mem_joined_slot.mp hx
    have hmem : s.mem x = some p := (ht.marked_eq hx (by simp)).symm.trans hp
    obtain ⟨j, hj⟩ := (ht.slots x).mpr (.inr ⟨i, hx⟩)
    have hlate := ht.late i x hx
    rw [expire, hmem] at hlate
    exact ⟨(hl.wheel j x p hj hmem).1, hlate⟩
  · obtain hx | hx := mem_joined_active.mp hx
    · exact .inl (hraised x p (ht.active ▸ hx) ((ht.marked_eq hx (by simp)).symm.trans hp))
    · exact .inr (ht.expired hl hx hp)

/-- **The second half of a round**: the items whose time is over become active. -/
theorem Lists.expireAll (hl : s.Lists lists) (hraised : s.AllRaised lists)
    (hcounted : s.AllCounted) {now : Nat} (hgap : now - s.pTimeout.ullStart + 1 < 2 ^ 31) :
    ∃ t h mem heap lists', s.pTimeout.takeAllTimeout s.next s.heap now .timeout = some (t, h) ∧
      markTimeout h.node s.next s.mem (h.link .timeout).head = some mem ∧
      h.join s.next .active .timeout = some heap ∧
      ({ s with pTimeout := t, heap := heap, mem := mem } : Env κ).Lists lists' ∧
      ({ s with pTimeout := t, heap := heap, mem := mem } : Env κ).AllCounted ∧
      s.Kept { s with pTimeout := t, heap := heap, mem := mem } ∧
      (∀ x ∈ lists .active, mem x = s.mem x) ∧ s.pTimeout.ullStart ≤ t.ullStart ∧
      now ≤ t.ullStart ∧
      ∀ x p, x ∈ lists' .active → mem x = some p → p.Expired → t.ullStart = now := by
  obtain ⟨t, h, lists₁, htake, ht⟩ := hl.takeAllTimeout hgap
  have hholds := ht.represents.holds .timeout
  have hmark := markTimeout_ok hholds.seg (ht.represents.nodup _) (fun x => ht.live hl)
    (ht.length_le hl)
  rw [← hholds.head] at hmark
  obtain ⟨heap, hjoin, hr⟩ := ht.represents.join (show Place.active ≠ .timeout by simp)
    (ht.length_le hl)
  refine ⟨t, h, _, heap, joined lists₁, htake, hmark, hjoin, ht.lists_joined hl hraised hr,
    fun x p hp => hcounted.marked hp, kept_marked _ _ _,
    fun x hx => ht.marked_eq (ht.active ▸ hx) (by simp), ht.mono, ht.now_le,
    fun x p hx hp hexp => ?_⟩
  -- an active item that is marked has been taken off the wheel
  obtain hx | hx := mem_joined_active.mp hx
  · have hraised' := hraised x p (ht.active ▸ hx) ((ht.marked_eq hx (by simp)).symm.trans hp)
    rw [Poll.Raised, hexp.1] at hraised'
    cases hraised'.1
  · exact ht.due (List.ne_nil_of_mem hx)

end Env

end Libco

end FastCgi
