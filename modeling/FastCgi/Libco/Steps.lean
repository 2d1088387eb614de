import FastCgi.Libco.Items

/-! # The steps of the scheduler

One lemma for each operation says that it can be made in a state with the invariant, that it keeps
the invariant, and that it makes progress: no item is lost before its call has come back. The
operations are a round of `co_eventloop` up to its loop over the active items (`Inv.round`), one
iteration of this loop (`Inv.dispatch`), and a call of `co_poll_inner` (`Inv.coPollInner`).

Most of a state is untouched by most operations. `Kept` is what they share: the items stand for the
same calls of `poll`, whatever else has become of them, and from this the parts of the invariant
that are about coroutines, registrations and returns follow at once. -/

namespace FastCgi

namespace Libco

variable {κ : Type}

namespace Env

variable {s : Env κ} {lists : Place → List Nat}

/-! ## Rounds -/

/-- The same items are allocated. -/
theorem Kept.isSome {s' : Env κ} (h : s.Kept s') {x : Nat} :
    (∃ p, s'.mem x = some p) ↔ ∃ p, s.mem x = some p := by
  constructor
  · rintro ⟨p, hp⟩
    obtain ⟨q, hq, -⟩ := h.exists hp
    exact ⟨q, hq⟩
  · rintro ⟨p, hp⟩
    obtain ⟨q, hq, -⟩ := h.symm.exists hp
    exact ⟨q, hq⟩

/-- Where the items stand for the same calls, and the call stack and the list of ended coroutines
are the same, coroutines wait as before. -/
theorem Threads.kept {s' : Env κ} (ht : s.Threads) (h : s.Kept s')
    (hstack : s'.pCallStack = s.pCallStack) (hended : s'.ended = s.ended) : s'.Threads where
  nodup := hstack ▸ ht.nodup
  running := by
    rw [hstack, hended]
    exact ht.running
  waiting x p hp := by
    obtain ⟨q, hq, hcall⟩ := h.exists hp
    rw [hstack, hended, (Prod.mk.inj (Prod.mk.inj hcall).2).2]
    exact ht.waiting x q hq
  once x y p q hp hq heq := by
    obtain ⟨p', hp', hcall⟩ := h.exists hp
    obtain ⟨q', hq', hcall'⟩ := h.exists hq
    refine ht.once x y p' q' hp' hq' ?_
    rw [← (Prod.mk.inj (Prod.mk.inj hcall).2).2, ← (Prod.mk.inj (Prod.mk.inj hcall').2).2]
    exact heq

/-- The registrations still belong to items, as these have the same descriptors. -/
theorem Watched.kept {s' : Env κ} (hw : s.Watched) (h : s.Kept s') (hepoll : s'.epoll = s.epoll) :
    s'.Watched where
  nodup := hepoll ▸ hw.nodup
  item r hr := by
    obtain ⟨p, f, hp, hf, hrest⟩ := hw.item r (hepoll ▸ hr)
    obtain ⟨q, hq, hcall⟩ := h.symm.exists hp
    exact ⟨q, f, hq, (Prod.mk.inj hcall).1 ▸ hf, hrest⟩

/-- The history is as before where no call has come back; the events that have been counted
meanwhile are the premise `hcounted`. -/
theorem History.kept {s' : Env κ} (hh : s.History) (h : s.Kept s') (hcounted : s'.AllCounted)
    (hreturned : s'.returned = s.returned) (hnext : s'.next = s.next) : s'.History where
  nodup := hreturned ▸ hh.nodup
  all x := by rw [hnext, hreturned, h.isSome, hh.all]
  freed r hr := by
    have hnone := hh.freed r (hreturned ▸ hr)
    cases hp : s'.mem r.poll with
    | none => rfl
    | some p =>
        obtain ⟨q, hq, -⟩ := h.exists hp
        rw [hnone] at hq
        cases hq
  ok := hreturned ▸ hh.ok
  counted := hcounted
  returned := hreturned ▸ hh.returned

/-- Between the rounds all items are on the wheel: nothing has happened to them, and they expire
later than the wheel has been read up to. -/
theorem Inv.pending (hi : s.Inv) (hpc : s.pc = .own) {x : Nat} {p : Poll κ}
    (hp : s.mem x = some p) : p.Pending ∧ s.pTimeout.ullStart < p.ullExpireTime := by
  obtain ⟨lists, hl, hrounds⟩ := hi.lists
  obtain ⟨l, hx⟩ := (hl.live x).mpr ⟨p, hp⟩
  cases l with
  | slot i => exact hl.wheel i x p hx hp
  | timeout =>
      rw [hl.timeout] at hx
      cases hx
  | active =>
      rw [hrounds.own hpc] at hx
      cases hx

/-- The events of a round are for descriptors that have none yet. -/
theorem Inv.delivered (hi : s.Inv) (hpc : s.pc = .own) {events : List (Registration × BitVec 32)}
    (hevents : Delivered s.epoll events) :
    (∀ e ∈ events, epollEvent2Poll e.2 ≠ 0 ∧
      ∃ p, s.mem e.1.poll = some p ∧ p.revents[e.1.i]? = some 0) ∧
    (events.map fun e => (e.1.poll, e.1.i)).Nodup := by
  constructor
  · intro e he
    obtain ⟨p, f, hp, hf, -, -, hmask⟩ := hi.watched.item e.1 (hevents.registered e he)
    obtain ⟨hne, hsub⟩ := hevents.masked e he
    rw [hmask] at hsub
    refine ⟨epollEvent2Poll_ne_zero hne hsub, p, hp, ?_⟩
    -- no event has been counted for it, so none of its descriptors has one
    have hzero : p.iRaiseCnt = 0 := (hi.pending hpc hp).1.2.2
    obtain ⟨hlen, hcount⟩ := hi.history.counted _ p hp
    have hlt : e.1.i < p.revents.length := hlen ▸ (List.getElem?_eq_some_iff.mp hf).1
    rw [hzero] at hcount
    have hall := List.countP_eq_zero.mp hcount.symm
    rw [List.getElem?_eq_getElem hlt]
    simpa using hall _ (List.getElem_mem hlt)
  · have hmap : (events.map fun e => (e.1.poll, e.1.i))
        = (events.map Prod.fst).map fun r => (r.poll, r.i) := by
      rw [List.map_map]
      rfl
    rw [hmap]
    refine hevents.nodup.map_on fun r hr r' hr' heq => ?_
    obtain ⟨e, he, rfl⟩ := List.mem_map.mp hr
    obtain ⟨e', he', rfl⟩ := List.mem_map.mp hr'
    obtain ⟨hpoll, hidx⟩ := Prod.mk.inj heq
    obtain ⟨p, f, hp, hf, hfd, -⟩ := hi.watched.item e.1 (hevents.registered e he)
    obtain ⟨p', f', hp', hf', hfd', -⟩ := hi.watched.item e'.1 (hevents.registered e' he')
    rw [hpoll, hp'] at hp
    cases hp
    rw [hidx, hf'] at hf
    cases hf
    exact List.inj_on_of_nodup_map hi.watched.nodup (hevents.registered e he)
      (hevents.registered e' he') (hfd.symm.trans hfd')

/-- What a step does to the items: each stays allocated for the same call, and what has become
active by an event stays so, or else the call has come back. The wheel goes on. -/
structure Progress (s s' : Env κ) : Prop where
  start : s.pTimeout.ullStart ≤ s'.pTimeout.ullStart
  returned : s.returned ⊆ s'.returned
  item : ∀ x p, s.mem x = some p →
    (∃ q, s'.mem x = some q ∧ q.call = p.call ∧
      (p.iAllEventDetach = true → q.iAllEventDetach = true)) ∨
    ∃ r ∈ s'.returned, r.poll = x ∧ r.arg.call = p.call

/-- A step that does not touch the items makes progress as soon as it does not set the wheel back
and forgets no return. -/
theorem Progress.of_mem {s' : Env κ} (hmem : ∀ x p, s.mem x = some p → s'.mem x = some p)
    (hstart : s.pTimeout.ullStart ≤ s'.pTimeout.ullStart) (hreturned : s.returned ⊆ s'.returned) :
    s.Progress s' :=
  ⟨hstart, hreturned, fun x p hp => .inl ⟨p, hmem x p hp, rfl, id⟩⟩

/-- Nothing has happened. -/
theorem Progress.refl (s : Env κ) : s.Progress s :=
  .of_mem (fun _ _ h => h) (le_refl _) fun _ h => h

/-- Progress adds up: what the first run leaves of an item is what the second one starts from. -/
theorem Progress.trans {s' s'' : Env κ} (h : s.Progress s') (h' : s'.Progress s'') :
    s.Progress s'' where
  start := h.start.trans h'.start
  returned := fun r hr => h'.returned (h.returned hr)
  item x p hp := by
    obtain ⟨q, hq, hcall, hdetach⟩ | ⟨r, hr, hx, hcall⟩ := h.item x p hp
    · obtain ⟨q', hq', hcall', hdetach'⟩ | ⟨r, hr, hx, hcall'⟩ := h'.item x q hq
      · exact .inl ⟨q', hq', hcall'.trans hcall, fun hp => hdetach' (hdetach hp)⟩
      · exact .inr ⟨r, hr, hx, hcall'.trans hcall⟩
    · exact .inr ⟨r, h'.returned hr, hx, hcall⟩

/-- **A round can be made**, and keeps the invariant. The items of its events are active after it,
as are those whose time is over. -/
theorem Inv.round (hi : s.Inv) (hpc : s.pc = .own) {events : List (Registration × BitVec 32)}
    (hevents : Delivered s.epoll events) {now : Nat}
    (hgap : now - s.pTimeout.ullStart + 1 < 2 ^ 31) :
    ∃ s', s.round events now = some s' ∧ s'.Inv ∧ s.Progress s' ∧ s.Kept s' ∧
      s'.pCallStack = s.pCallStack ∧ s'.ended = s.ended ∧ s'.pc = .dispatching now ∧
      now ≤ s'.pTimeout.ullStart ∧
      ∀ e ∈ events, ∀ p, s'.mem e.1.poll = some p → p.iAllEventDetach = true := by
  obtain ⟨lists, hl, hrounds⟩ := hi.lists
  -- the list that the wheel is read into is empty already
  have hset : s.heap.setLink .timeout ⟨none, none⟩ = s.heap := by
    have hhold := hl.represents.holds .timeout
    rw [hl.timeout] at hhold
    have hlink : s.heap.link .timeout = ⟨none, none⟩ :=
      congrArg₂ Link.mk hhold.head hhold.tail
    rw [Heap.setLink, ← hlink, Function.update_eq_self]
  -- no item is active between the rounds
  have hraised : s.AllRaised lists := by
    intro x p hx
    rw [hrounds.own hpc] at hx
    cases hx
  -- first the events, then the wheel
  obtain ⟨hevs, hnodup⟩ := hi.delivered hpc hevents
  obtain ⟨heap₁, mem₁, lists₁, hfold, hl₁, hraised₁, hcounted₁, hkept₁, -, hactive₁⟩ :=
    hl.prepareAll hraised hi.history.counted hevs hnodup
  obtain ⟨t, h, mem, heap, lists', htake, hmark, hjoin, hl', hcounted', hkept', hsame, hmono, hnow,
    hexp⟩ := hl₁.expireAll hraised₁ hcounted₁ hgap
  have hkept : s.Kept { s with pTimeout := t, heap := heap, mem := mem, pc := .dispatching now } :=
    hkept₁.trans hkept'
  refine ⟨{ s with pTimeout := t, heap := heap, mem := mem, pc := .dispatching now }, ?_,
    ⟨⟨lists', ?_, ?_⟩, ?_, ?_, ?_⟩, ⟨hmono, fun _ hr => hr, fun x p hp => ?_⟩, hkept,
    rfl, rfl, rfl, hnow, fun e he p hp => ?_⟩
  · rw [Env.round, hset]
    simp only [Option.bind_eq_bind, hfold, Option.bind_some, htake, hmark, hjoin]
    rfl
  · exact ⟨hl'.represents, hl'.sound, hl'.live, hl'.bound, hl'.timeout, hl'.wheel, hl'.active⟩
  · refine ⟨fun h => (by cases h), fun now' h => ?_⟩
    cases h
    exact ⟨hnow, hexp⟩
  · exact hi.threads.kept hkept rfl rfl
  · exact hi.watched.kept hkept rfl
  · exact hi.history.kept hkept hcounted' rfl rfl
  · obtain ⟨q, hq, hcall⟩ := hkept.symm.exists hp
    refine .inl ⟨q, hq, hcall.symm, fun hdetach => ?_⟩
    rw [(hi.pending hpc hp).1.2.1] at hdetach
    cases hdetach
  · have hx := hactive₁ e he
    exact (hraised₁ _ p hx ((hsame _ hx).symm.trans hp)).2.1

/-! ## Registrations -/

/-- The kernel forgets the registrations of one descriptor, and no others. -/
theorem mem_coEpollCtlDel {epoll : List Registration} {fd : Int} {r : Registration} :
    r ∈ coEpollCtlDel epoll fd ↔ r ∈ epoll ∧ r.fd ≠ fd := by
  simp [coEpollCtlDel]

/-- A call of `poll` that comes back takes back the registrations of its own descriptors; negative
ones have none. -/
theorem mem_delItems {fds : List PollFd} {epoll : List Registration} {r : Registration} :
    r ∈ delItems fds epoll ↔ r ∈ epoll ∧ ∀ f ∈ fds, -1 < f.fd → r.fd ≠ f.fd := by
  induction fds generalizing epoll with
  | nil => simp [delItems]
  | cons f fds ih =>
      rw [delItems, List.foldl_cons, ← delItems, ih]
      split
      · rename_i hf
        simp [mem_coEpollCtlDel, hf, and_assoc]
      · rename_i hf
        simp [hf]

/-- Those that are left stay in their order. -/
theorem delItems_sublist (fds : List PollFd) (epoll : List Registration) :
    (delItems fds epoll).Sublist epoll := by
  induction fds generalizing epoll with
  | nil => exact List.Sublist.refl _
  | cons f fds ih =>
      rw [delItems, List.foldl_cons, ← delItems]
      refine (ih _).trans ?_
      split
      · exact List.filter_sublist
      · exact List.Sublist.refl _

/-- `co_epoll_ctl` with `EPOLL_CTL_ADD` adds the registration, or refuses it. -/
theorem coEpollCtlAdd_ok (kernel : Int → Option CtlError) (added : Registration)
    {epoll : List Registration} (hnodup : (epoll.map Registration.fd).Nodup) :
    ((coEpollCtlAdd kernel epoll added).map Registration.fd).Nodup ∧
    ∀ r ∈ coEpollCtlAdd kernel epoll added, r ∈ epoll ∨ r = added := by
  rw [coEpollCtlAdd]
  split
  · exact ⟨hnodup, fun r hr => .inl hr⟩
  · rename_i hnot
    simp only [not_or] at hnot
    refine ⟨?_, fun r hr => ?_⟩
    · -- the kernel has nothing for this descriptor yet
      rw [List.map_append]
      exact hnodup.append (List.nodup_singleton _) (by simpa using hnot.2)
    · exact (List.mem_append.mp hr).imp_right List.mem_singleton.mp

/-- The loop of `co_poll_inner` over the descriptors, which leaves out those that are negative. -/
theorem foldl_coEpollCtlAdd_ok (kernel : Int → Option CtlError) (x : Nat) (l : List (PollFd × Nat))
    {epoll : List Registration} (hnodup : (epoll.map Registration.fd).Nodup) :
    let epoll' := l.foldl (fun epoll f => if -1 < f.1.fd then
      coEpollCtlAdd kernel epoll ⟨f.1.fd, pollEvent2Epoll f.1.events, x, f.2⟩ else epoll) epoll
    (epoll'.map Registration.fd).Nodup ∧ ∀ r ∈ epoll', r ∈ epoll ∨ ∃ f ∈ l, -1 < f.1.fd ∧
      r = ⟨f.1.fd, pollEvent2Epoll f.1.events, x, f.2⟩ := by
  induction l generalizing epoll with
  | nil => exact ⟨hnodup, fun r hr => .inl hr⟩
  | cons f l ih =>
      simp only [List.foldl_cons]
      split
      · rename_i hf
        obtain ⟨hnodup', hadd⟩ :=
          coEpollCtlAdd_ok kernel ⟨f.1.fd, pollEvent2Epoll f.1.events, x, f.2⟩ hnodup
        obtain ⟨hnd, hmem⟩ := ih hnodup'
        refine ⟨hnd, fun r hr => ?_⟩
        rcases hmem r hr with hr | ⟨g, hg, h⟩
        · exact (hadd r hr).imp_right fun heq => ⟨f, List.mem_cons_self, hf, heq⟩
        · exact .inr ⟨g, List.mem_cons_of_mem _ hg, h⟩
      · obtain ⟨hnd, hmem⟩ := ih hnodup
        refine ⟨hnd, fun r hr => (hmem r hr).imp_right ?_⟩
        rintro ⟨g, hg, h⟩
        exact ⟨g, List.mem_cons_of_mem _ hg, h⟩

/-- The registrations of a new item are for its descriptors, and there is still one at most for
each. -/
theorem addItems_ok (kernel : Int → Option CtlError) (x : Nat) (fds : List PollFd)
    {epoll : List Registration} (hnodup : (epoll.map Registration.fd).Nodup) :
    ((addItems kernel x fds epoll).map Registration.fd).Nodup ∧
    ∀ r ∈ addItems kernel x fds epoll, r ∈ epoll ∨ r.poll = x ∧ ∃ f, fds[r.i]? = some f ∧
      f.fd = r.fd ∧ -1 < f.fd ∧ r.events = pollEvent2Epoll f.events := by
  obtain ⟨hnd, hmem⟩ := foldl_coEpollCtlAdd_ok kernel x fds.zipIdx hnodup
  refine ⟨hnd, fun r hr => (hmem r hr).imp id ?_⟩
  rintro ⟨⟨f, i⟩, hf, hfd, rfl⟩
  exact ⟨rfl, f, List.mk_mem_zipIdx_iff_getElem?.mp hf, rfl, hfd, rfl⟩

/-! ## The end of a wait -/

/-- The item of a call that comes back is freed, and is on no list any more. -/
theorem Lists.free (hl : s.Lists lists) {x : Nat} {s' : Env κ} {lists' : Place → List Nat}
    (hmem : s'.mem = Function.update s.mem x none) (htimeout : s'.pTimeout = s.pTimeout)
    (hnext : s'.next = s.next) (hr : s'.heap.Represents lists')
    (hlists : ∀ y l, y ∈ lists' l ↔ y ∈ lists l ∧ y ≠ x) : s'.Lists lists' := by
  have hother : ∀ {y : Nat}, y ≠ x → s'.mem y = s.mem y := by
    intro y hy
    rw [hmem, Function.update_of_ne hy]
  refine ⟨hr, ?_, fun y => ?_, fun y p hp => ?_, ?_, fun i y p hy hp => ?_, fun y p hy hp => ?_⟩
  · rw [htimeout]
    refine ⟨hl.sound.running, fun i y hy => ?_⟩
    obtain ⟨hy, hne⟩ := (hlists y _).mp hy
    rw [expire, hother hne]
    exact hl.sound.due i y hy
  · by_cases hy : y = x
    · subst hy
      simp [hlists, hmem]
    · simp only [hlists, hother hy, ← hl.live y, ne_eq, hy, not_false_iff, and_true]
  · by_cases hy : y = x
    · subst hy
      simp [hmem] at hp
    · rw [hnext]
      exact hl.bound y p (by rwa [hother hy] at hp)
  · refine List.eq_nil_iff_forall_not_mem.mpr fun y hy => ?_
    have := ((hlists y _).mp hy).1
    rw [hl.timeout] at this
    cases this
  · obtain ⟨hy, hne⟩ := (hlists y _).mp hy
    rw [hother hne] at hp
    rw [htimeout]
    exact hl.wheel i y p hy hp
  · obtain ⟨hy, hne⟩ := (hlists y _).mp hy
    rw [hother hne] at hp
    exact hl.active y p hy hp

/-- Its registrations are removed, so that none points to it: `epoll_wait` reports none of them
later. -/
theorem Watched.free (hw : s.Watched) {x : Nat} {p : Poll κ} (hp : s.mem x = some p) {s' : Env κ}
    (hmem : s'.mem = Function.update s.mem x none) (hepoll : s'.epoll = delItems p.fds s.epoll) :
    s'.Watched where
  nodup := by
    rw [hepoll]
    exact hw.nodup.sublist ((delItems_sublist _ _).map _)
  item r hr := by
    rw [hepoll, mem_delItems] at hr
    obtain ⟨q, f, hq, hf, hfd, hpos, hev⟩ := hw.item r hr.1
    -- a registration that is left is for none of the item's descriptors
    have hne : r.poll ≠ x := by
      rintro rfl
      obtain rfl : p = q := Option.some.inj (hp.symm.trans hq)
      exact hr.2 f (List.mem_of_getElem? hf) hpos hfd.symm
    refine ⟨q, f, ?_, hf, hfd, hpos, hev⟩
    rw [hmem, Function.update_of_ne hne]
    exact hq

/-- Its return is noted, for a reason, and it is the only one for this item. -/
theorem History.free (hh : s.History) {x : Nat} {p : Poll κ} (hp : s.mem x = some p) {s' : Env κ}
    (hmem : s'.mem = Function.update s.mem x none) (hnext : s'.next = s.next) {r : Return κ}
    (hx : r.poll = x) (harg : r.arg = p) (hok : r.Ok)
    (hreturned : s'.returned = s.returned ++ [r]) : s'.History := by
  -- the call has not come back before, as its item is still there
  have hnew : x ∉ s.returned.map Return.poll := by
    intro hx
    obtain ⟨r', hr', rfl⟩ := List.mem_map.mp hx
    rw [hh.freed r' hr'] at hp
    cases hp
  have hother : ∀ {y : Nat}, y ≠ x → s'.mem y = s.mem y := by
    intro y hy
    rw [hmem, Function.update_of_ne hy]
  refine ⟨?_, fun y => ?_, fun r' hr' => ?_, fun r' hr' => ?_, fun y q hq => ?_, fun r' hr' => ?_⟩
  · rw [hreturned, List.map_append]
    exact hh.nodup.append (List.nodup_singleton _) (by simpa [hx] using hnew)
  · rw [hnext, hreturned, hh.all, List.map_append, List.mem_append]
    by_cases hy : y = x
    · subst hy
      simp [hp, hx]
    · simp [hother hy, hx, hy]
  · rw [hreturned, List.mem_append, List.mem_singleton] at hr'
    obtain hr' | rfl := hr'
    · have hne : r'.poll ≠ x := fun h => hnew (List.mem_map.mpr ⟨r', hr', h⟩)
      rw [hother hne]
      exact hh.freed r' hr'
    · rw [hx, hmem, Function.update_self]
  · rw [hreturned, List.mem_append, List.mem_singleton] at hr'
    obtain hr' | rfl := hr'
    · exact hh.ok r' hr'
    · exact hok
  · by_cases hy : y = x
    · subst hy
      simp [hmem] at hq
    · exact hh.counted y q (by rwa [hother hy] at hq)
  · rw [hreturned, List.mem_append, List.mem_singleton] at hr'
    obtain hr' | rfl := hr'
    · exact hh.returned r' hr'
    · rw [harg]
      exact hh.counted x p hp

/-! ## The active items -/

/-- What it is to resume a coroutine whose wait is over. -/
theorem onPollProcessEvent_ok {x : Nat} {p : Poll κ} (hp : s.mem x = some p)
    (hr : s.heap.Represents lists) (hmain : s.pCallStack = []) (now : Nat) :
    ∃ heap, s.onPollProcessEvent x now = some { s with
        heap := heap
        epoll := delItems p.fds s.epoll
        mem := Function.update s.mem x none
        pCallStack := [p.pArg]
        returned := s.returned ++ [⟨x, p, now, p.iRaiseCnt⟩] } ∧
      heap.Represents fun l => (lists l).erase x := by
  obtain ⟨heap, hremove, hr'⟩ := hr.removeFromLink x
  refine ⟨heap, ?_, hr'⟩
  simp [onPollProcessEvent, coResume, clear, hmain, hp, hremove]

/-- The first active item, taken off its list by `PopHead`. -/
theorem Lists.popHead (hl : s.Lists lists) {x : Nat} {rest : List Nat}
    (hactive : lists .active = x :: rest) :
    (s.heap.popHead .active).Represents (Function.update lists .active rest) ∧
      ∀ y l, y ∈ Function.update lists .active rest l ↔ y ∈ lists l ∧ y ≠ x := by
  have hxmem : x ∈ lists .active := by simp [hactive]
  have hx : x ∉ rest := (List.nodup_cons.mp (hactive ▸ hl.represents.nodup .active)).1
  have hr := hl.represents.popHead .active
  rw [hactive, List.tail_cons] at hr
  refine ⟨hr, fun y l => ?_⟩
  by_cases hl' : l = .active
  · subst hl'
    rw [Function.update_self, hactive, List.mem_cons]
    constructor
    · exact fun hy => ⟨.inr hy, ne_of_mem_of_not_mem hy hx⟩
    · rintro ⟨rfl | hy, hne⟩
      · exact absurd rfl hne
      · exact hy
  · rw [Function.update_of_ne hl']
    refine ⟨fun hy => ⟨hy, ?_⟩, fun hy => hy.1⟩
    rintro rfl
    exact hl' (hl.represents.eq_of_mem hy hxmem)

/-- An item that was taken off the wheel too early goes back to it. -/
theorem Inv.dispatch_early (hi : s.Inv) (hl : s.Lists lists) (hrounds : s.Rounds lists) {now : Nat}
    (hpc : s.pc = .dispatching now) {x : Nat} {rest : List Nat}
    (hactive : lists .active = x :: rest) {p : Poll κ} (hp : s.mem x = some p)
    (hearly : p.bTimeout = true ∧ now < p.ullExpireTime) :
    ∃ s', s.dispatch now = some s' ∧ s'.Inv ∧ s.Progress s' := by
  have hxmem : x ∈ lists .active := by simp [hactive]
  obtain ⟨hr, hpop⟩ := hl.popHead hactive
  obtain ⟨-, hexp⟩ := hrounds.dispatching now hpc
  -- it is active because of the wheel, not because of an event
  have hexpired : p.Expired := by
    obtain h | h := hl.active x p hxmem hp
    · rw [h.1] at hearly
      cases hearly.1
    · exact h
  have hnow := hexp x p hxmem hp hexpired
  have hexpire : s.expire x = p.ullExpireTime := by
    rw [expire, hp]
    rfl
  have hsound : s.pTimeout.Sound (Function.update lists .active rest) s.expire :=
    hl.sound.mono fun i y hy => ((hpop y _).mp hy).1
  have hnot : ∀ l, x ∉ Function.update lists .active rest l := fun l h => ((hpop x l).mp h).2 rfl
  -- the wheel has been read up to `now`, so that the item can be added again
  obtain ⟨d, heap, hadd, hr', hsound'⟩ :=
    hsound.addTimeout hr hnot hnow.le (by rw [hexpire]; omega)
  rw [hexpire] at hadd
  have hkept : s.Kept ({ s with heap := heap }.setPoll x { p with bTimeout := false }) :=
    kept_setPoll hp rfl
  obtain ⟨lists', hself, hslot, hr', hsound'⟩ : ∃ lists' : Place → List Nat,
      lists' (s.pTimeout.slot d) = Function.update lists .active rest (s.pTimeout.slot d) ++ [x] ∧
      (∀ l, l ≠ s.pTimeout.slot d → lists' l = Function.update lists .active rest l) ∧
      heap.Represents lists' ∧ s.pTimeout.Sound lists' s.expire :=
    ⟨_, Function.update_self .., fun l h => Function.update_of_ne h .., hr', hsound'⟩
  have hne : ∀ {l : Place}, (∀ i, l ≠ .slot i) → l ≠ s.pTimeout.slot d := fun h => h _
  refine ⟨{ s with heap := heap }.setPoll x { p with bTimeout := false }, ?_,
    ⟨⟨lists', ?_, ?_⟩, ?_, ?_, ?_⟩, le_refl _, fun _ hr => hr, fun y q hq => .inl ?_⟩
  · rw [Env.dispatch, (hl.represents.holds .active).head, hactive]
    simp only [List.head?_cons, hp, Option.bind_eq_bind, Option.bind_some, if_pos hearly, hadd,
      if_true]
  · -- it moves from the list of active items to a slot, and is as before it was taken off
    refine hl.move (q := { p with bTimeout := false }) hp rfl hr' hsound' (fun y hy l => ?_)
      ⟨s.pTimeout.slot d, by simp [hself]⟩ ?_ (fun i _ => ?_) fun h => ?_
    · by_cases hlslot : l = s.pTimeout.slot d
      · subst hlslot
        simp [hself, hpop, hy]
      · simp [hslot l hlslot, hpop, hy]
    · rw [hslot _ (hne (by simp)), Function.update_of_ne (by simp), hl.timeout]
    · refine ⟨⟨rfl, hexpired.2⟩, ?_⟩
      show s.pTimeout.ullStart < p.ullExpireTime
      omega
    · rw [hslot _ (hne (by simp))] at h
      exact absurd h (hnot _)
  · -- the other active items stay where they are
    refine ⟨fun h => ?_, fun now' h => ?_⟩
    · rw [show s.pc = .own from h] at hpc
      cases hpc
    · obtain ⟨hstart, hexp'⟩ := hrounds.dispatching now' h
      refine ⟨hstart, fun y q hy hq hqe => ?_⟩
      rw [hslot _ (hne (by simp))] at hy
      obtain ⟨hy, hyx⟩ := (hpop y _).mp hy
      rw [setPoll_mem_of_ne hyx] at hq
      exact hexp' y q hy hq hqe
  · exact hi.threads.kept hkept rfl rfl
  · exact hi.watched.kept hkept rfl
  · refine hi.history.kept hkept (fun y q hq => ?_) rfl rfl
    by_cases hy : y = x
    · subst hy
      obtain rfl : { p with bTimeout := false } = q := by simpa using hq
      exact hi.history.counted y p hp
    · rw [setPoll_mem_of_ne hy] at hq
      exact hi.history.counted y q hq
  · by_cases hy : y = x
    · subst hy
      obtain rfl : p = q := Option.some.inj (hp.symm.trans hq)
      exact ⟨_, setPoll_mem_self .., rfl, id⟩
    · exact ⟨q, (setPoll_mem_of_ne hy _).trans hq, rfl, id⟩

/-- A wait that is over: the coroutine runs, and its call of `poll` has come back. -/
theorem Inv.dispatch_wake (hi : s.Inv) (hl : s.Lists lists) (hrounds : s.Rounds lists) {now : Nat}
    (hpc : s.pc = .dispatching now) (hmain : s.pCallStack = []) {x : Nat} {rest : List Nat}
    (hactive : lists .active = x :: rest) {p : Poll κ} (hp : s.mem x = some p)
    (hearly : ¬ (p.bTimeout = true ∧ now < p.ullExpireTime)) :
    ∃ s', s.dispatch now = some s' ∧ s'.Inv ∧ s.Progress s' := by
  have hxmem : x ∈ lists .active := by simp [hactive]
  obtain ⟨hr, hpop⟩ := hl.popHead hactive
  obtain ⟨heap, hprocess, hr'⟩ := onPollProcessEvent_ok
    (s := { s with heap := s.heap.popHead .active }) hp hr hmain now
  -- the reason of the return: an event, or the time of the call, which is over
  have hok : Return.Ok ⟨x, p, now, p.iRaiseCnt⟩ := by
    refine .inr ⟨rfl, ?_⟩
    obtain h | h := hl.active x p hxmem hp
    · exact .inl h.2.2
    · refine .inr (Nat.le_of_not_lt fun hlt => hearly ⟨h.1, hlt⟩)
  have hother : ∀ {y : Nat} {q : Poll κ}, Function.update s.mem x none y = some q →
      y ≠ x ∧ s.mem y = some q := by
    intro y q hq
    by_cases hy : y = x
    · subst hy
      simp at hq
    · rw [Function.update_of_ne hy] at hq
      exact ⟨hy, hq⟩
  -- the item is freed, and its coroutine is the only one that runs
  refine ⟨{ s with
      heap := heap
      epoll := delItems p.fds s.epoll
      mem := Function.update s.mem x none
      pCallStack := [p.pArg]
      returned := s.returned ++ [⟨x, p, now, p.iRaiseCnt⟩] }, ?_,
    ⟨⟨_, hl.free rfl rfl rfl hr' fun y l => ?_, ?_⟩, ?_, hi.watched.free hp rfl rfl,
      hi.history.free hp rfl rfl rfl rfl hok rfl⟩,
    le_refl _, List.subset_append_left _ _, fun y q hq => ?_⟩
  · rw [Env.dispatch, (hl.represents.holds .active).head, hactive]
    simp only [List.head?_cons, hp, Option.bind_eq_bind, Option.bind_some, if_neg hearly]
    exact hprocess
  · rw [List.erase_of_not_mem fun h => ((hpop x l).mp h).2 rfl, hpop]
  · refine ⟨fun h => ?_, fun now' h => ?_⟩
    · rw [show s.pc = .own from h] at hpc
      cases hpc
    · obtain ⟨hstart, hexp⟩ := hrounds.dispatching now' h
      refine ⟨hstart, fun y q hy hq hqe => ?_⟩
      exact hexp y q ((hpop y _).mp (List.mem_of_mem_erase hy)).1 (hother hq).2 hqe
  · -- a coroutine waits once, so the other items belong to others
    obtain ⟨hstack, hended⟩ := hi.threads.waiting x p hp
    refine ⟨List.nodup_singleton _, fun co hco => ?_, fun y q hq => ?_, fun y z q q' hq hq' => ?_⟩
    · rw [List.mem_singleton] at hco
      exact hco ▸ hended
    · obtain ⟨hy, hq⟩ := hother hq
      refine ⟨fun h => ?_, (hi.threads.waiting y q hq).2⟩
      rw [List.mem_singleton] at h
      exact hy (hi.threads.once y x q p hq hp h)
    · exact hi.threads.once y z q q' (hother hq).2 (hother hq').2
  · by_cases hy : y = x
    · subst hy
      obtain rfl : p = q := Option.some.inj (hp.symm.trans hq)
      exact .inr ⟨_, List.mem_append_right _ List.mem_cons_self, rfl, rfl⟩
    · exact .inl ⟨q, (Function.update_of_ne hy ..).trans hq, rfl, id⟩

/-- **An iteration of the loop over the active items can be made**, and keeps the invariant. -/
theorem Inv.dispatch (hi : s.Inv) {now : Nat} (hpc : s.pc = .dispatching now)
    (hmain : s.pCallStack = []) : ∃ s', s.dispatch now = some s' ∧ s'.Inv ∧ s.Progress s' := by
  obtain ⟨lists, hl, hrounds⟩ := hi.lists
  cases hactive : lists .active with
  | nil =>
      refine ⟨{ s with pc := .own }, ?_, ⟨⟨lists, ?_, fun _ => hactive, fun _ h => (by cases h)⟩,
        ?_, ?_, ?_⟩, .of_mem (fun _ _ h => h) (le_refl _) fun _ h => h⟩
      · rw [Env.dispatch, (hl.represents.holds .active).head, hactive]
        rfl
      · exact ⟨hl.represents, hl.sound, hl.live, hl.bound, hl.timeout, hl.wheel, hl.active⟩
      · exact hi.threads.kept (.refl s) rfl rfl
      · exact hi.watched.kept (.refl s) rfl
      · exact hi.history.kept (.refl s) hi.history.counted rfl rfl
  | cons x rest =>
      obtain ⟨p, hp⟩ := (hl.live x).mp ⟨.active, by simp [hactive]⟩
      by_cases hearly : p.bTimeout = true ∧ now < p.ullExpireTime
      · exact hi.dispatch_early hl hrounds hpc hactive hp hearly
      · exact hi.dispatch_wake hl hrounds hpc hmain hactive hp hearly

/-! ## The beginning of a wait -/

/-- The next address is free: items are allocated below it. -/
theorem Lists.mem_next (hl : s.Lists lists) : s.mem s.next = none := by
  cases h : s.mem s.next with
  | none => rfl
  | some p => exact absurd (hl.bound _ p h) (Nat.lt_irrefl _)

/-- The registrations of a new item point to it. -/
theorem Watched.alloc (hw : s.Watched) (hnext : s.mem s.next = none) {s' : Env κ} {arg : Poll κ}
    (hmem : s'.mem = Function.update s.mem s.next (some arg))
    (kernel : Int → Option CtlError) (hepoll : s'.epoll = addItems kernel s.next arg.fds s.epoll) :
    s'.Watched := by
  obtain ⟨hnodup, hitems⟩ := addItems_ok kernel s.next arg.fds hw.nodup
  refine ⟨fun r hr => ?_, hepoll ▸ hnodup⟩
  obtain hr | ⟨hpoll, f, hf, hrest⟩ := hitems r (hepoll ▸ hr)
  · obtain ⟨p, f, hp, hrest⟩ := hw.item r hr
    refine ⟨p, f, ?_, hrest⟩
    rw [hmem, Function.update_of_ne, hp]
    rintro heq
    rw [heq, hnext] at hp
    cases hp
  · refine ⟨arg, f, ?_, hf, hrest⟩
    rw [hmem, hpoll, Function.update_self]

/-- A new item has a new address: none of the calls that have come back had it. -/
theorem History.alloc (hh : s.History) {s' : Env κ} {arg : Poll κ} (harg : arg.Counted)
    (hmem : s'.mem = Function.update s.mem s.next (some arg)) (hnext : s'.next = s.next + 1)
    (hreturned : s'.returned = s.returned) : s'.History := by
  refine ⟨hreturned ▸ hh.nodup, fun x => ?_, fun r hr => ?_, hreturned ▸ hh.ok, fun x p hp => ?_,
    hreturned ▸ hh.returned⟩
  · rw [hnext, hreturned, hmem]
    by_cases hx : x = s.next
    · subst hx
      simp
    · rw [Function.update_of_ne hx, ← hh.all]
      omega
  · rw [hreturned] at hr
    have hlt := (hh.all r.poll).mpr (.inr (List.mem_map.mpr ⟨r, hr, rfl⟩))
    rw [hmem, Function.update_of_ne (by omega)]
    exact hh.freed r hr
  · rw [hmem] at hp
    by_cases hx : x = s.next
    · subst hx
      rw [Function.update_self] at hp
      exact Option.some.inj hp ▸ harg
    · rw [Function.update_of_ne hx] at hp
      exact hh.counted x p hp

/-- The item of a coroutine that waits is on the wheel. -/
theorem Lists.alloc (hl : s.Lists lists) {arg : Poll κ} (harg : arg.Pending) {now : Nat}
    (hstart : s.pTimeout.ullStart ≤ now) (hexp : now < arg.ullExpireTime) :
    ∃ heap lists', s.pTimeout.addTimeout s.heap s.next arg.ullExpireTime now
        = (true, s.pTimeout, heap) ∧ lists' .active = lists .active ∧
      ∀ s' : Env κ, s'.pTimeout = s.pTimeout → s'.heap = heap →
        s'.mem = Function.update s.mem s.next (some arg) → s'.next = s.next + 1 →
        s'.Lists lists' := by
  have hnone := hl.mem_next
  have hnot : ∀ l, s.next ∉ lists l := by
    intro l hx
    obtain ⟨p, hp⟩ := (hl.live _).mp ⟨l, hx⟩
    rw [hnone] at hp
    cases hp
  -- the wheel does not know the new item yet
  have hsound : s.pTimeout.Sound lists (Function.update s.expire s.next arg.ullExpireTime) := by
    refine ⟨hl.sound.running, fun i x hx => ?_⟩
    rw [Function.update_of_ne (ne_of_mem_of_not_mem hx (hnot _))]
    exact hl.sound.due i x hx
  obtain ⟨d, heap, hadd, hr, hsound'⟩ := hsound.addTimeout hl.represents hnot hstart (by
    rw [Function.update_self]
    exact hexp.le)
  rw [Function.update_self] at hadd
  -- only the list of its slot becomes longer
  obtain ⟨lists', hself, hslot, hr, hsound'⟩ : ∃ lists' : Place → List Nat,
      lists' (s.pTimeout.slot d) = lists (s.pTimeout.slot d) ++ [s.next] ∧
      (∀ l, l ≠ s.pTimeout.slot d → lists' l = lists l) ∧ heap.Represents lists' ∧
      s.pTimeout.Sound lists' (Function.update s.expire s.next arg.ullExpireTime) :=
    ⟨_, Function.update_self .., fun l h => Function.update_of_ne h .., hr, hsound'⟩
  have hne : ∀ {l : Place}, (∀ i, l ≠ .slot i) → l ≠ s.pTimeout.slot d := fun h => h _
  have hother : ∀ {x : Nat} {l : Place}, x ≠ s.next → (x ∈ lists' l ↔ x ∈ lists l) := by
    intro x l hx
    by_cases hlslot : l = s.pTimeout.slot d
    · subst hlslot
      simp [hself, hx]
    · rw [hslot l hlslot]
  have hactive : lists' .active = lists .active := hslot _ (hne (by simp))
  refine ⟨heap, lists', hadd, hactive, fun s' htimeout hheap hmem hnext => ?_⟩
  have hmem' : ∀ {x : Nat}, x ≠ s.next → s'.mem x = s.mem x := by
    intro x hx
    rw [hmem, Function.update_of_ne hx]
  have hself' : s'.mem s.next = some arg := by rw [hmem, Function.update_self]
  -- each part of the invariant is the old one, but for the new item
  refine ⟨hheap ▸ hr, ?_, fun x => ?_, fun x p hp => ?_, ?_, fun i x p hx hp => ?_,
    fun x p hx hp => ?_⟩
  · have hexpire : s'.expire = Function.update s.expire s.next arg.ullExpireTime := by
      funext x
      by_cases hx : x = s.next
      · subst hx
        rw [expire, hself', Function.update_self]
        rfl
      · rw [expire, hmem' hx, Function.update_of_ne hx]
        rfl
    rw [htimeout, hexpire]
    exact hsound'
  · by_cases hx : x = s.next
    · subst hx
      exact ⟨fun _ => ⟨arg, hself'⟩, fun _ => ⟨s.pTimeout.slot d, by simp [hself]⟩⟩
    · simp only [hother hx, hmem' hx, hl.live x]
  · by_cases hx : x = s.next
    · omega
    · rw [hmem' hx] at hp
      have := hl.bound x p hp
      omega
  · rw [hslot _ (hne (by simp)), hl.timeout]
  · rw [htimeout]
    by_cases hxn : x = s.next
    · subst hxn
      obtain rfl : arg = p := Option.some.inj (hself'.symm.trans hp)
      exact ⟨harg, by omega⟩
    · rw [hmem' hxn] at hp
      exact hl.wheel i x p ((hother hxn).mp hx) hp
  · rw [hactive] at hx
    rw [hmem' (ne_of_mem_of_not_mem hx (hnot _))] at hp
    exact hl.active x p hx hp

/-- The running coroutine begins to wait: its item is on the wheel, and it leaves the call stack. -/
theorem Threads.wait (ht : s.Threads) {self : κ} {rest : List κ}
    (hstack : s.pCallStack = self :: rest) {s' : Env κ} {arg : Poll κ} (harg : arg.pArg = self)
    (hmem : s'.mem = Function.update s.mem s.next (some arg)) (hstack' : s'.pCallStack = rest)
    (hended : s'.ended = s.ended) : s'.Threads := by
  have hnodup := List.nodup_cons.mp (hstack ▸ ht.nodup)
  have hself : self ∈ s.pCallStack := by simp [hstack]
  -- the new item is the only one of this coroutine, which was running
  have hitem : ∀ {x : Nat} {p : Poll κ}, s'.mem x = some p →
      x = s.next ∧ p.pArg = self ∨ s.mem x = some p ∧ p.pArg ≠ self := by
    intro x p hp
    rw [hmem] at hp
    by_cases hx : x = s.next
    · subst hx
      rw [Function.update_self] at hp
      exact .inl ⟨rfl, Option.some.inj hp ▸ harg⟩
    · rw [Function.update_of_ne hx] at hp
      exact .inr ⟨hp, fun h => (ht.waiting x p hp).1 (h ▸ hself)⟩
  refine ⟨hstack' ▸ hnodup.2, fun co hco => ?_, fun x p hp => ?_, fun x y p q hp hq heq => ?_⟩
  · rw [hstack'] at hco
    rw [hended]
    exact ht.running co (by simp [hstack, hco])
  · rw [hstack', hended]
    obtain ⟨-, hp⟩ | ⟨hp, -⟩ := hitem hp
    · rw [hp]
      exact ⟨hnodup.1, ht.running self hself⟩
    · obtain ⟨hrun, hend⟩ := ht.waiting x p hp
      exact ⟨fun h => hrun (by simp [hstack, h]), hend⟩
  · obtain ⟨hx, hp⟩ | ⟨hp, hne⟩ := hitem hp
    · obtain ⟨hy, -⟩ | ⟨-, hne'⟩ := hitem hq
      · rw [hx, hy]
      · exact absurd (heq.symm.trans hp) hne'
    · obtain ⟨-, hq⟩ | ⟨hq, -⟩ := hitem hq
      · exact absurd (heq.trans hq) hne
      · exact ht.once x y p q hp hq heq

/-- A new item has no descriptors with events. -/
theorem counted_start (fds : List PollFd) (ullExpireTime : Nat) (self : κ) :
    (Poll.start fds ullExpireTime self).Counted := by
  refine ⟨by simp [Poll.start], (List.countP_eq_zero.mpr fun e he => ?_).symm⟩
  obtain ⟨-, -, rfl⟩ := List.mem_map.mp he
  simp

/-- A call that fails leaves nothing behind: its registrations are taken back, and its item is freed
before any list has it. -/
theorem Inv.refused (hi : s.Inv) (kernel : Int → Option CtlError) {arg : Poll κ}
    (harg : arg.Counted) (now : Nat) :
    ∃ s', (s.alloc kernel arg).clear s.next now (fun _ => -1) = some s' ∧ s'.Inv ∧
      s.Progress s' := by
  obtain ⟨lists, hl, hrounds⟩ := hi.lists
  have hnone := hl.mem_next
  have hx : (s.alloc kernel arg).mem s.next = some arg := setPoll_mem_self ..
  obtain ⟨heap, hremove, hr⟩ := hl.represents.removeFromLink s.next
  -- the item is on no list, so that taking it off its list does nothing
  have hsame : (fun l => (lists l).erase s.next) = lists := by
    funext l
    refine List.erase_of_not_mem fun hmem => ?_
    obtain ⟨p, hp⟩ := (hl.live _).mp ⟨l, hmem⟩
    rw [hnone] at hp
    cases hp
  rw [hsame] at hr
  have hmem : Function.update (s.alloc kernel arg).mem s.next none = s.mem := by
    rw [alloc, setPoll, Function.update_idem, ← hnone, Function.update_eq_self]
  have hwatched : (s.alloc kernel arg).Watched := hi.watched.alloc hnone rfl kernel rfl
  have hhistory : (s.alloc kernel arg).History := hi.history.alloc harg rfl rfl rfl
  refine ⟨{ s.alloc kernel arg with
      heap := heap
      epoll := delItems arg.fds (s.alloc kernel arg).epoll
      mem := Function.update (s.alloc kernel arg).mem s.next none
      returned := s.returned ++ [⟨s.next, arg, now, -1⟩] }, ?_, ⟨⟨lists, ?_, ?_⟩, ?_,
        hwatched.free hx rfl rfl, hhistory.free hx rfl rfl rfl rfl (.inl rfl) rfl⟩,
    .of_mem (fun y q hq => ?_) (le_refl _) (List.subset_append_left _ _)⟩
  · rw [clear, hx]
    simp only [Option.bind_eq_bind, Option.bind_some]
    rw [show (s.alloc kernel arg).heap = s.heap from rfl, hremove]
    rfl
  · rw [hmem]
    exact ⟨hr, hl.sound, hl.live, fun x p hp => Nat.lt_succ_of_lt (hl.bound x p hp), hl.timeout,
      hl.wheel, hl.active⟩
  · rw [hmem]
    exact ⟨hrounds.own, hrounds.dispatching⟩
  · rw [hmem]
    exact hi.threads.kept (.refl s) rfl rfl
  · rw [hmem]
    exact hq

/-- **A coroutine may call `poll` at any time**, with any arguments, but `co_poll` only with a
timeout that is not zero. The call fails only if the clock has been set back. -/
theorem Inv.coPollInner (hi : s.Inv) {self : κ} {rest : List κ}
    (hstack : s.pCallStack = self :: rest) (kernel : Int → Option CtlError) (fds : List PollFd)
    (timeout : Int) (now : Nat) (pollfunc : Bool) (hfunc : timeout = 0 → pollfunc = true) :
    ∃ how s', s.coPollInner kernel fds timeout now pollfunc = some (how, s') ∧ s'.Inv ∧
      s.Progress s' ∧ (how = .einval → now < s.pTimeout.ullStart) := by
  obtain ⟨lists, hl, hrounds⟩ := hi.lists
  have hnone := hl.mem_next
  rw [Env.coPollInner]
  by_cases hzero : timeout = 0
  · refine ⟨.direct, s, ?_, hi, .refl s, fun h => by cases h⟩
    rw [if_pos hzero, if_pos (hfunc hzero)]
  rw [if_neg hzero, hstack]
  simp only
  -- a negative timeout is the greatest one that there is
  obtain ⟨ms, hms, hpos⟩ :
      ∃ ms, (if timeout < 0 then 2 ^ 31 - 1 else timeout.toNat) = ms ∧ 0 < ms :=
    ⟨_, rfl, by split <;> omega⟩
  rw [hms]
  split
  · exact ⟨.direct, s, rfl, hi, .refl s, fun h => by cases h⟩
  · by_cases hstart : s.pTimeout.ullStart ≤ now
    · -- the item is put on the wheel, and the coroutine waits
      obtain ⟨heap, lists', hadd, hactive, hl'⟩ := hl.alloc
        (show (Poll.start fds (now + ms) self).Pending from ⟨rfl, rfl, rfl⟩) hstart
        (show now < now + ms by omega)
      rw [show s.pTimeout.addTimeout s.heap s.next (now + ms) now = _ from hadd]
      have hother : ∀ {x : Nat} {p : Poll κ}, s.mem x = some p → x ≠ s.next := by
        rintro x p hp rfl
        rw [hnone] at hp
        cases hp
      refine ⟨.waits, _, rfl, ⟨⟨lists', hl' _ rfl rfl rfl rfl, ?_⟩, ?_, ?_, ?_⟩,
        .of_mem (fun x p hp => (setPoll_mem_of_ne (hother hp) _).trans hp) (le_refl _) fun _ h => h,
        fun h => by cases h⟩
      · refine ⟨fun h => hactive.trans (hrounds.own h), fun now' h => ?_⟩
        obtain ⟨hle, hexp⟩ := hrounds.dispatching now' h
        refine ⟨hle, fun x p hx hp => ?_⟩
        rw [hactive] at hx
        obtain ⟨q, hq⟩ := (hl.live x).mp ⟨_, hx⟩
        exact hexp x p hx ((setPoll_mem_of_ne (hother hq) _).symm.trans hp)
      · exact hi.threads.wait hstack rfl rfl rfl rfl
      · exact hi.watched.alloc hnone rfl kernel rfl
      · exact hi.history.alloc (counted_start fds (now + ms) self) rfl rfl rfl
    · -- `AddTimeout` refuses a time before that of the wheel
      have hadd : s.pTimeout.addTimeout s.heap s.next (now + ms) now
          = (false, s.pTimeout, s.heap) := by
        rw [Timeout.addTimeout, hl.sound.running.start]
        simp only
        rw [if_pos (by omega)]
      rw [hadd]
      obtain ⟨s', hclear, hi', hprog⟩ := hi.refused kernel (counted_start fds (now + ms) self) now
      refine ⟨.einval, s', ?_, hi', hprog, fun _ => by omega⟩
      show (do return (PollStart.einval,
        ← (s.alloc kernel (Poll.start fds (now + ms) self)).clear s.next now fun _ => -1)) = _
      rw [hclear]
      rfl

end Env

end Libco

end FastCgi
