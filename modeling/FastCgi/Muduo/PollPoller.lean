import Mathlib.Data.List.Nodup
import FastCgi.Muduo.Poller

/-! # `PollPoller`

The poller that a loop uses if it is told to call `poll`. It keeps one `pollfd` for each channel, in
a vector, and each channel has its place there as its index. A channel that is updated to wait for
nothing keeps its place, with a descriptor that the kernel ignores; when it is removed, the last one
takes its place.

The owners of the channels may construct them for descriptors of their own, and then change what
they wait for, remove and destroy them in any order and interleaving. `poll_never_aborts` says which
of these calls fail an assertion: those on a channel that has been removed, and removing one that is
not disabled. `pollfds_exact` says what the kernel is asked for, and `fillActiveChannels_exact` that
the loop hears of exactly the channels that it has something to report on.

A disabled channel does not come back: `updateChannel` writes the new events of a channel to its
place, and leaves the descriptor there as it is, so that the kernel goes on to ignore it. -/

namespace FastCgi

namespace Muduo

/-- `struct pollfd`; `revents` is what the kernel reports. -/
structure PollFd where
  fd : Int
  events : Events
  deriving DecidableEq, Repr

/-- The descriptor, also if it is ignored. -/
def PollFd.descriptor (pfd : PollFd) : Int := if pfd.fd < 0 then -pfd.fd - 1 else pfd.fd

/-- What the kernel reports, from what it has for each descriptor. -/
def PollFd.revents (report : Nat → Nat) (pfd : PollFd) : Nat :=
  if pfd.fd < 0 then 0 else report pfd.fd.toNat

/-- A `PollPoller`; `κ` are the addresses of its channels. -/
structure PollPoller (κ : Type) where
  /-- `pollfds_`. -/
  pollfds : List PollFd
  /-- `channels_`. -/
  channels : Nat → Option κ
  /-- The channels that there are. -/
  chan : κ → Option Channel

namespace PollPoller

variable {κ : Type}

def new : PollPoller κ := ⟨[], fun _ => none, fun _ => none⟩

section Operations

variable [DecidableEq κ] (p : PollPoller κ) (c : κ)

/-- The channel at an address. -/
def deref : Except Failure Channel :=
  match p.chan c with
  | some ch => .ok ch
  | none => .error .abort

/-- The element of `pollfds_` at an index, which is asserted to be one. -/
def pollfdAt (idx : Int) : Except Failure PollFd := do
  assert (0 ≤ idx)
  match p.pollfds[idx.toNat]? with
  | some pfd => .ok pfd
  | none => .error .abort

/-- `updateChannel`. -/
def updateChannel : Except Failure (PollPoller κ) := do
  let ch ← p.deref c
  if ch.index < 0 then
    assert (p.channels ch.fd = none)
    return { p with
      pollfds := p.pollfds ++ [⟨ch.fd, ch.events⟩]
      channels := Function.update p.channels ch.fd (some c)
      chan := Function.update p.chan c (some { ch with index := p.pollfds.length }) }
  else
    assert (p.channels ch.fd = some c)
    let pfd ← p.pollfdAt ch.index
    assert (pfd.fd = ch.fd ∨ pfd.fd = -ch.fd - 1)
    let pfd : PollFd := ⟨if ch.isNoneEvent then -ch.fd - 1 else pfd.fd, ch.events⟩
    return { p with pollfds := p.pollfds.set ch.index.toNat pfd }

/-- `removeChannel`. -/
def removeChannel : Except Failure (PollPoller κ) := do
  let ch ← p.deref c
  assert (p.channels ch.fd = some c)
  assert (ch.isNoneEvent = true)
  let pfd ← p.pollfdAt ch.index
  assert (pfd.fd = -ch.fd - 1 ∧ pfd.events = ch.events)
  let p := { p with channels := Function.update p.channels ch.fd none }
  if ch.index = p.pollfds.length - 1 then
    return { p with pollfds := p.pollfds.dropLast }
  else do
    let last ← p.pollfdAt (p.pollfds.length - 1)
    match p.channels last.descriptor.toNat with
    | none => .error .abort
    | some c' => do
      let ch' ← p.deref c'
      return { p with
        pollfds := (p.pollfds.set ch.index.toNat last).dropLast
        chan := Function.update p.chan c' (some { ch' with index := ch.index }) }

/-- A channel is constructed for a descriptor. -/
def construct (fd : Nat) : PollPoller κ :=
  { p with chan := Function.update p.chan c (some (.new fd)) }

/-- `enableReading`, `disableAll` and so on: the events of the channel change, and it is updated. -/
def setEvents (events : Events) : Except Failure (PollPoller κ) := do
  let ch ← p.deref c
  let ch := { ch with events, addedToLoop := true }
  updateChannel { p with chan := Function.update p.chan c (some ch) } c

/-- `Channel::remove`. -/
def remove : Except Failure (PollPoller κ) := do
  let ch ← p.deref c
  assert (ch.isNoneEvent = true)
  let ch := { ch with addedToLoop := false }
  removeChannel { p with chan := Function.update p.chan c (some ch) } c

/-- `~Channel`, which asks the poller by `hasChannel`. -/
def destroy : Except Failure (PollPoller κ) := do
  let ch ← p.deref c
  assert (ch.addedToLoop = false)
  assert (p.channels ch.fd ≠ some c)
  return { p with chan := Function.update p.chan c none }

/-- The loop of `fillActiveChannels`. -/
def fillLoop (report : Nat → Nat) : List PollFd → Nat → Except Failure (List (κ × Nat))
  | [], _ => .ok []
  | pfd :: pollfds, numEvents =>
    if 0 < numEvents then
      if 0 < pfd.revents report then
        match p.channels pfd.fd.toNat with
        | none => .error .abort
        | some c => do
          let ch ← p.deref c
          assert ((ch.fd : Int) = pfd.fd)
          let active ← fillLoop report pollfds (numEvents - 1)
          return (c, pfd.revents report) :: active
      else fillLoop report pollfds numEvents
    else .ok []

/-- `fillActiveChannels`, with the number of events that `poll` returns. -/
def fillActiveChannels (report : Nat → Nat) : Except Failure (List (κ × Nat)) :=
  p.fillLoop report p.pollfds (p.pollfds.countP fun pfd => decide (0 < pfd.revents report))

end Operations

/-! ## What the owners of the channels do -/

/-- A poller, with what has happened to its channels. -/
structure Watched (κ : Type) where
  poller : PollPoller κ
  /-- The channels that were updated to wait for nothing when the poller had them already. -/
  disabled : κ → Bool

namespace Watched

variable [DecidableEq κ]

/-- Whether a channel has been disabled since the poller has it, when its events change: a channel
that the poller does not have yet is added with what it waits for, be it nothing. -/
def disabledBy (w : Watched κ) (c : κ) (ch : Channel) (events : Events) : Bool :=
  decide (w.poller.channels ch.fd = some c) && (w.disabled c || events == .none)

/-- An **action** of the owner of a channel, which does not end the process. -/
inductive Step : Watched κ → Watched κ → Prop
  /-- A channel is constructed; its descriptor is that of no other. -/
  | construct {w : Watched κ} {c : κ} {fd : Nat} (hnew : w.poller.chan c = none)
    (hfd : ∀ c' ch, w.poller.chan c' = some ch → ch.fd ≠ fd) :
    Step w ⟨w.poller.construct c fd, Function.update w.disabled c false⟩
  /-- A channel is to wait for some events, or for none. -/
  | setEvents {w : Watched κ} {p : PollPoller κ} {c : κ} {ch : Channel} {events : Events}
    (hc : w.poller.chan c = some ch) (hok : w.poller.setEvents c events = .ok p) :
    Step w ⟨p, Function.update w.disabled c (w.disabledBy c ch events)⟩
  /-- A channel is removed. -/
  | remove {w : Watched κ} {p : PollPoller κ} {c : κ} (hok : w.poller.remove c = .ok p) :
    Step w ⟨p, w.disabled⟩
  /-- A channel is destroyed. -/
  | destroy {w : Watched κ} {p : PollPoller κ} {c : κ} (hok : w.poller.destroy c = .ok p) :
    Step w ⟨p, w.disabled⟩

/-- The states that can be reached. -/
def Reachable (w : Watched κ) : Prop := Relation.ReflTransGen Step ⟨new, fun _ => false⟩ w

end Watched

/-! ## The places of the channels -/

/-- The `pollfd` of a channel. -/
def entryOf (disabled : Bool) (ch : Channel) : PollFd :=
  ⟨if disabled then -ch.fd - 1 else ch.fd, ch.events⟩

/-- The poller has the channel. -/
def Known (p : PollPoller κ) (c : κ) (ch : Channel) : Prop :=
  p.chan c = some ch ∧ p.channels ch.fd = some c

/-- The state of the poller, if `disabled` says what has happened to its channels. -/
structure Inv (p : PollPoller κ) (disabled : κ → Bool) : Prop where
  entry : ∀ (i : Nat) pfd, p.pollfds[i]? = some pfd ↔
    ∃ c ch, p.Known c ch ∧ ch.index = (i : Int) ∧ entryOf (disabled c) ch = pfd
  known : ∀ fd c, p.channels fd = some c → ∃ ch, p.chan c = some ch ∧ ch.fd = fd ∧ 0 ≤ ch.index
  index : ∀ c ch, p.chan c = some ch → -1 ≤ ch.index
  added : ∀ c ch, p.chan c = some ch → (ch.addedToLoop = true ↔ p.channels ch.fd = some c)
  fds : ∀ c c' ch ch', p.chan c = some ch → p.chan c' = some ch' → ch.fd = ch'.fd → c = c'

variable {p p' : PollPoller κ} {disabled disabled' : κ → Bool} {c c' : κ} {ch ch' : Channel}

@[simp] theorem descriptor_entryOf (b : Bool) : (entryOf b ch).descriptor = ch.fd := by
  rw [PollFd.descriptor, entryOf]
  cases b with
  | true =>
      have hneg : -(ch.fd : Int) - 1 < 0 := by omega
      simp only [if_true, if_pos hneg]
      omega
  | false => simp

/-- The kernel reports nothing for a disabled channel, and what it has for any other. -/
theorem revents_entryOf (report : Nat → Nat) (b : Bool) :
    (entryOf b ch).revents report = if b then 0 else report ch.fd := by
  rw [PollFd.revents, entryOf]
  cases b with
  | true =>
      have hneg : -(ch.fd : Int) - 1 < 0 := by omega
      simp only [if_true, if_pos hneg]
  | false => simp

/-- There is a channel at an address that can be used. -/
theorem exists_of_deref {α : Type} {k : Channel → Except Failure α} {a : α}
    (hok : p.deref c >>= k = .ok a) : ∃ ch, p.chan c = some ch := by
  obtain ⟨ch, hderef, -⟩ := exists_of_bind hok
  refine ⟨ch, ?_⟩
  rw [deref] at hderef
  split at hderef
  · rename_i hc
    cases hderef
    exact hc
  · cases hderef

/-- The descriptor says which channel is meant. -/
theorem Inv.eq_of_known (hi : p.Inv disabled) (hk : p.Known c ch) (hk' : p.Known c' ch')
    (h : ch.fd = ch'.fd) : c = c' ∧ ch = ch' := by
  obtain rfl := hi.fds c c' ch ch' hk.1 hk'.1 h
  exact ⟨rfl, Option.some.inj (hk.1.symm.trans hk'.1)⟩

/-- A channel that the poller has has a place. -/
theorem Inv.index_of_known (hi : p.Inv disabled) (hk : p.Known c ch) :
    ∃ i : Nat, ch.index = (i : Int) := by
  obtain ⟨ch₁, hc₁, -, hpos⟩ := hi.known _ _ hk.2
  obtain rfl := Option.some.inj (hk.1.symm.trans hc₁)
  exact Int.eq_ofNat_of_zero_le hpos

/-- Two channels are not at the same place. -/
theorem Inv.eq_of_index_eq (hi : p.Inv disabled) (hk : p.Known c ch) (hk' : p.Known c' ch')
    (h : ch.index = ch'.index) : c = c' ∧ ch = ch' := by
  obtain ⟨i, hi'⟩ := hi.index_of_known hk
  have hentry := (hi.entry i (entryOf (disabled c) ch)).mpr ⟨c, ch, hk, hi', rfl⟩
  have hentry' := (hi.entry i (entryOf (disabled c') ch')).mpr ⟨c', ch', hk', h ▸ hi', rfl⟩
  refine hi.eq_of_known hk hk' ?_
  -- one place holds one entry, and the entry names the descriptor
  have hfd := congrArg PollFd.descriptor (Option.some.inj (hentry.symm.trans hentry'))
  rw [descriptor_entryOf, descriptor_entryOf] at hfd
  exact Int.ofNat.inj hfd

/-- The place of a channel. -/
theorem Inv.pollfdAt_index (hi : p.Inv disabled) (hk : p.Known c ch) :
    p.pollfdAt ch.index = .ok (entryOf (disabled c) ch) ∧
      ∃ i : Nat, ch.index = (i : Int) ∧ i < p.pollfds.length ∧
        p.pollfds[i]? = some (entryOf (disabled c) ch) := by
  obtain ⟨i, hi'⟩ := hi.index_of_known hk
  have hpos : 0 ≤ ch.index := by omega
  have hentry := (hi.entry i (entryOf (disabled c) ch)).mpr ⟨c, ch, hk, hi', rfl⟩
  have hlt : i < p.pollfds.length := (List.getElem?_eq_some_iff.mp hentry).1
  refine ⟨?_, i, hi', hlt, hentry⟩
  rw [pollfdAt, assert_ok hpos]
  simp only [bind, Except.bind, hi', Int.toNat_natCast, hentry]

/-- Every element of `pollfds_` belongs to a channel. -/
theorem Inv.exists_known (hi : p.Inv disabled) {pfd : PollFd} (h : pfd ∈ p.pollfds) :
    ∃ c ch, p.Known c ch ∧ entryOf (disabled c) ch = pfd := by
  obtain ⟨i, hi'⟩ := List.mem_iff_getElem?.mp h
  obtain ⟨c, ch, hk, -, heq⟩ := (hi.entry i pfd).mp hi'
  exact ⟨c, ch, hk, heq⟩

/-- Every channel that the poller has is in `pollfds_`. -/
theorem Inv.mem_pollfds (hi : p.Inv disabled) (hk : p.Known c ch) :
    entryOf (disabled c) ch ∈ p.pollfds := by
  obtain ⟨-, i, -, -, hentry⟩ := hi.pollfdAt_index hk
  exact List.mem_iff_getElem?.mpr ⟨i, hentry⟩

/-- No element occurs twice, as descriptors differ. -/
theorem Inv.nodup_pollfds (hi : p.Inv disabled) : p.pollfds.Nodup := by
  rw [List.nodup_iff_getElem?_ne_getElem?]
  intro i j hij hj heq
  have hentry : p.pollfds[j]? = some p.pollfds[j] := List.getElem?_eq_getElem hj
  obtain ⟨c, ch, hk, hci, hce⟩ := (hi.entry i _).mp (heq.trans hentry)
  obtain ⟨c', ch', hk', hcj, hce'⟩ := (hi.entry j _).mp hentry
  have hfd := congrArg PollFd.descriptor (hce.trans hce'.symm)
  rw [descriptor_entryOf, descriptor_entryOf] at hfd
  obtain ⟨-, rfl⟩ := hi.eq_of_known hk hk' (Int.ofNat.inj hfd)
  omega

/-! ## `fillActiveChannels` -/

/-- The channel that an element of `pollfds_` makes active. -/
def activeOf (p : PollPoller κ) (report : Nat → Nat) (pfd : PollFd) : Option (κ × Nat) :=
  if 0 < pfd.revents report then
    (p.channels pfd.fd.toNat).map (·, pfd.revents report)
  else none

/-- An element makes its channel active if that is not disabled and has events. -/
theorem activeOf_eq_some_iff (hk : p.Known c ch) (b : Bool) (report : Nat → Nat) (r : Nat) :
    p.activeOf report (entryOf b ch) = some (c', r) ↔
      c' = c ∧ b = false ∧ 0 < r ∧ r = report ch.fd := by
  rw [activeOf, revents_entryOf]
  cases b with
  | true => simp
  | false =>
      have hfd : (entryOf false ch).fd.toNat = ch.fd := by simp [entryOf]
      rw [hfd, hk.2]
      simp only [Bool.false_eq_true, if_false, true_and]
      split
      · rename_i hpos
        simp only [Option.map_some, Option.some.injEq, Prod.mk.injEq]
        constructor
        · rintro ⟨rfl, rfl⟩
          exact ⟨rfl, hpos, rfl⟩
        · rintro ⟨rfl, -, rfl⟩
          exact ⟨rfl, rfl⟩
      · simp only [reduceCtorEq, false_iff]
        rintro ⟨-, hpos, rfl⟩
        exact absurd hpos ‹_›

/-- The loop stops when all events are found, and misses none. -/
theorem fillLoop_eq (report : Nat → Nat) {l : List PollFd}
    (hl : ∀ pfd ∈ l, ∃ c ch b, p.Known c ch ∧ entryOf b ch = pfd) :
    p.fillLoop report l (l.countP fun pfd => decide (0 < pfd.revents report)) =
      .ok (l.filterMap (p.activeOf report)) := by
  induction l with
  | nil => rfl
  | cons pfd l ih =>
      have ih := ih fun pfd' h => hl pfd' (List.mem_cons_of_mem _ h)
      obtain ⟨c, ch, b, hk, rfl⟩ := hl pfd List.mem_cons_self
      rw [List.countP_cons, List.filterMap_cons, fillLoop]
      by_cases hpos : 0 < (entryOf b ch).revents report
      · -- the kernel reports nothing for a channel whose descriptor is negated
        have hlive : b = false := by
          rw [revents_entryOf] at hpos
          cases b with
          | true => exact absurd hpos (Nat.lt_irrefl 0)
          | false => rfl
        have hfd : (entryOf b ch).fd = ch.fd := by simp [entryOf, hlive]
        have hactive : p.activeOf report (entryOf b ch) =
            some (c, (entryOf b ch).revents report) := by
          rw [activeOf, if_pos hpos, hfd, Int.toNat_natCast, hk.2]
          rfl
        have hcount : 0 < (l.countP fun pfd => decide (0 < pfd.revents report)) + 1 :=
          Nat.succ_pos _
        simp only [hpos, decide_true, if_true, hcount, hactive]
        rw [hfd, Int.toNat_natCast, hk.2]
        simp only [deref, hk.1, bind, Except.bind, Nat.add_sub_cancel, ih]
        rw [assert_ok trivial]
        rfl
      · -- no events here, so the number of events still to be found is the same
        have hactive : p.activeOf report (entryOf b ch) = none := if_neg hpos
        simp only [hpos, decide_false, Bool.false_eq_true, if_false, Nat.add_zero, hactive]
        split
        · exact ih
        · rename_i hzero
          -- nothing is left to be found
          have hnone : ∀ pfd ∈ l, p.activeOf report pfd = none := by
            intro pfd' h
            have hall := List.countP_eq_zero.mp (Nat.eq_zero_of_not_pos hzero) pfd' h
            exact if_neg (by simpa using hall)
          rw [List.filterMap_eq_nil_iff.mpr hnone]

/-! ## `updateChannel` -/

/-- A new poller has no channels. -/
theorem inv_new (disabled : κ → Bool) : (new : PollPoller κ).Inv disabled where
  entry i pfd := by
    simp only [new, List.getElem?_nil, reduceCtorEq, false_iff]
    rintro ⟨c, ch, ⟨hc, -⟩, -⟩
    cases hc
  known fd c h := by cases h
  index c ch h := by cases h
  added c ch h := by cases h
  fds c c' ch ch' h := by cases h

/-- Channels still have different descriptors if all that there are were there with the same. -/
theorem Inv.fds_of_chan (hi : p.Inv disabled)
    (h : ∀ x y, p'.chan x = some y → ∃ z, p.chan x = some z ∧ z.fd = y.fd) (x x' : κ)
    (y y' : Channel) (hy : p'.chan x = some y) (hy' : p'.chan x' = some y') (heq : y.fd = y'.fd) :
    x = x' := by
  obtain ⟨z, hz, hzfd⟩ := h x y hy
  obtain ⟨z', hz', hzfd'⟩ := h x' y' hy'
  exact hi.fds x x' z z' hz hz' (by rw [hzfd, hzfd', heq])

/-- A channel has got a place or new events, and the poller has it. -/
theorem Inv.of_set [DecidableEq κ] (hi : p.Inv disabled) (hc : p.chan c = some ch) (ch₁ : Channel)
    (b : Bool) (hfd : ch₁.fd = ch.fd) (hindex : 0 ≤ ch₁.index) (hadded : ch₁.addedToLoop = true)
    (hchan : p'.chan = Function.update p.chan c (some ch₁))
    (hchannels : p'.channels = Function.update p.channels ch.fd (some c))
    (hentry : ∀ (i : Nat) pfd, p'.pollfds[i]? = some pfd ↔
      (ch₁.index = (i : Int) ∧ entryOf b ch₁ = pfd) ∨
        ∃ x y, x ≠ c ∧ p.Known x y ∧ y.index = (i : Int) ∧ entryOf (disabled x) y = pfd) :
    p'.Inv (Function.update disabled c b) := by
  have hself : p'.chan c = some ch₁ := by rw [hchan, Function.update_self]
  have hother : ∀ x ≠ c, p'.chan x = p.chan x := fun x hx => by
    rw [hchan, Function.update_of_ne hx]
  have hkself : p'.channels ch₁.fd = some c := by rw [hfd, hchannels, Function.update_self]
  -- the descriptor that now belongs to `c` is that of no other channel
  have hkother : ∀ x y, x ≠ c → p.chan x = some y → p'.channels y.fd = p.channels y.fd := by
    intro x y hx hy
    rw [hchannels, Function.update_of_ne]
    intro heq
    exact hx (hi.fds x c y ch hy hc heq)
  refine ⟨fun i pfd => ?_, fun fd x hx => ?_, fun x y hy => ?_, fun x y hy => ?_,
    hi.fds_of_chan fun x y hy => ?_⟩
  · rw [hentry]
    constructor
    · rintro (⟨hi', rfl⟩ | ⟨x, y, hx, ⟨hy, hknown⟩, hi', rfl⟩)
      · exact ⟨c, ch₁, ⟨hself, hkself⟩, hi', by rw [Function.update_self]⟩
      · exact ⟨x, y, ⟨(hother x hx).trans hy, (hkother x y hx hy).trans hknown⟩, hi',
          by rw [Function.update_of_ne hx]⟩
    · rintro ⟨x, y, ⟨hy, hknown⟩, hi', rfl⟩
      by_cases hx : x = c
      · subst hx
        obtain rfl := Option.some.inj (hself.symm.trans hy)
        exact .inl ⟨hi', by rw [Function.update_self]⟩
      · rw [hother x hx] at hy
        exact .inr ⟨x, y, hx, ⟨hy, (hkother x y hx hy).symm.trans hknown⟩, hi',
          by rw [Function.update_of_ne hx]⟩
  · rw [hchannels] at hx
    by_cases hf : fd = ch.fd
    · subst hf
      rw [Function.update_self] at hx
      cases hx
      exact ⟨ch₁, hself, hfd, hindex⟩
    · rw [Function.update_of_ne hf] at hx
      obtain ⟨y, hy, hyfd, hpos⟩ := hi.known fd x hx
      have hne : x ≠ c := by
        rintro rfl
        obtain rfl := Option.some.inj (hc.symm.trans hy)
        exact hf hyfd.symm
      exact ⟨y, (hother x hne).trans hy, hyfd, hpos⟩
  · by_cases hx : x = c
    · subst hx
      obtain rfl := Option.some.inj (hself.symm.trans hy)
      omega
    · exact hi.index x y ((hother x hx).symm.trans hy)
  · by_cases hx : x = c
    · subst hx
      obtain rfl := Option.some.inj (hself.symm.trans hy)
      exact ⟨fun _ => hkself, fun _ => hadded⟩
    · have hy := (hother x hx).symm.trans hy
      rw [hkother x y hx hy]
      exact hi.added x y hy
  · by_cases hx : x = c
    · subst hx
      obtain rfl := Option.some.inj (hself.symm.trans hy)
      exact ⟨ch, hc, hfd.symm⟩
    · exact ⟨y, (hother x hx).symm.trans hy, rfl⟩

/-- A new channel is not known, and neither is another one with its descriptor. -/
theorem Inv.channels_of_new (hi : p.Inv disabled) (hc : p.chan c = some ch)
    (hnew : ch.index < 0) : p.channels ch.fd = none := by
  by_contra hsome
  obtain ⟨x, hx⟩ := Option.ne_none_iff_exists'.mp hsome
  -- what the poller has under a descriptor has an index, and a new channel has none
  obtain ⟨y, hy, hyfd, hpos⟩ := hi.known _ x hx
  obtain rfl := hi.fds x c y ch hy hc hyfd
  rw [hc] at hy
  cases hy
  omega

section Update

variable [DecidableEq κ]

/-- `updateChannel` adds a new channel at the end, with what it waits for. -/
theorem Inv.add (hi : p.Inv disabled) (hc : p.chan c = some ch) (hnew : ch.index < 0)
    (events : Events) :
    ∃ p', p.setEvents c events = .ok p' ∧ p'.Inv (Function.update disabled c false) := by
  have hnone := hi.channels_of_new hc hnew
  have hunknown : ∀ y, ¬ p.Known c y := by
    rintro y ⟨hy, hknown⟩
    obtain rfl := Option.some.inj (hc.symm.trans hy)
    rw [hnone] at hknown
    cases hknown
  let added : Channel := ⟨ch.fd, events, p.pollfds.length, true⟩
  -- the channel gets the place behind all others
  refine ⟨⟨p.pollfds ++ [⟨ch.fd, events⟩], Function.update p.channels ch.fd (some c),
    Function.update p.chan c (some added)⟩, ?_, ?_⟩
  · rw [setEvents, deref, hc]
    simp only [bind, Except.bind, updateChannel, deref, Function.update_self, if_pos hnew]
    rw [assert_ok hnone]
    simp only [Function.update_idem, pure, Except.pure, added]
  · refine hi.of_set hc added false rfl (Int.natCast_nonneg _) rfl rfl rfl fun i pfd => ?_
    have hentry : entryOf false added = ⟨ch.fd, events⟩ := rfl
    rw [hentry]
    show (p.pollfds ++ [⟨ch.fd, events⟩])[i]? = some pfd ↔ _
    rw [List.getElem?_append]
    split
    · rename_i hlt
      rw [hi.entry]
      constructor
      · rintro ⟨x, y, hk, hi', rfl⟩
        refine .inr ⟨x, y, ?_, hk, hi', rfl⟩
        rintro rfl
        exact hunknown y hk
      · rintro (⟨hi', -⟩ | ⟨x, y, -, hk, hi', rfl⟩)
        · have heq : p.pollfds.length = i := Int.ofNat.inj hi'
          omega
        · exact ⟨x, y, hk, hi', rfl⟩
    · rename_i hge
      constructor
      · intro hsome
        obtain ⟨hlt, heq⟩ := List.getElem?_eq_some_iff.mp hsome
        have hi' : i = p.pollfds.length := by
          rw [List.length_singleton] at hlt
          omega
        subst hi'
        refine .inl ⟨rfl, ?_⟩
        simpa using heq
      · rintro (⟨hi', rfl⟩ | ⟨x, y, -, hk, hi', rfl⟩)
        · have heq : p.pollfds.length = i := Int.ofNat.inj hi'
          subst heq
          simp
        · obtain ⟨-, j, hj, hlt, -⟩ := hi.pollfdAt_index hk
          have heq : i = j := Int.ofNat.inj (hi'.symm.trans hj)
          omega

/-- `updateChannel` writes the events of a channel to its place. -/
theorem Inv.mod (hi : p.Inv disabled) (hk : p.Known c ch) (events : Events) :
    ∃ p', p.setEvents c events = .ok p' ∧
      p'.Inv (Function.update disabled c (disabled c || events == .none)) := by
  obtain ⟨hat, k, hk', hlt, hentry⟩ := hi.pollfdAt_index hk
  have hfd : (entryOf (disabled c) ch).fd = ch.fd ∨ (entryOf (disabled c) ch).fd = -ch.fd - 1 := by
    rw [entryOf]
    cases disabled c with
    | true => exact .inr rfl
    | false => exact .inl rfl
  let changed : Channel := { ch with events, addedToLoop := true }
  -- disabling negates the descriptor, and nothing makes it positive again
  have hnew : entryOf (disabled c || events == .none) changed =
      ⟨if changed.isNoneEvent then -ch.fd - 1 else (entryOf (disabled c) ch).fd, events⟩ := by
    rw [entryOf, entryOf, Channel.isNoneEvent]
    cases disabled c with
    | true => cases events == .none <;> simp [changed]
    | false => cases events == .none <;> simp [changed]
  have hpos : ¬ ch.index < 0 := by omega
  refine ⟨⟨p.pollfds.set k (entryOf (disabled c || events == .none) changed), p.channels,
    Function.update p.chan c (some changed)⟩, ?_, ?_⟩
  · have hat' : pollfdAt { p with chan := Function.update p.chan c (some changed) } ch.index =
        .ok (entryOf (disabled c) ch) := hat
    rw [setEvents, deref, hk.1]
    simp only [bind, Except.bind, updateChannel, deref, Function.update_self, if_neg hpos]
    rw [assert_ok hk.2]
    simp only [changed] at hat'
    simp only [hat']
    have hplace : ch.index.toNat = k := by omega
    rw [assert_ok hfd, hnew, hplace]
    rfl
  · refine hi.of_set hk.1 changed _ rfl (by show 0 ≤ ch.index; omega) rfl
      rfl (Function.update_eq_self_iff.mpr hk.2.symm).symm fun i pfd => ?_
    show (p.pollfds.set k (entryOf _ changed))[i]? = some pfd ↔ (ch.index = i ∧ _) ∨ _
    rw [List.getElem?_set, hk']
    split
    · rename_i heq
      subst heq
      constructor
      · intro hsome
        exact .inl ⟨rfl, Option.some.inj hsome⟩
      · rintro (⟨-, rfl⟩ | ⟨x, y, hx, hky, hi', rfl⟩)
        · rfl
        · exact absurd (hi.eq_of_index_eq hky hk (hi'.trans hk'.symm)).1 hx
    · rename_i hne
      rw [hi.entry]
      constructor
      · rintro ⟨x, y, hky, hi', rfl⟩
        refine .inr ⟨x, y, ?_, hky, hi', rfl⟩
        rintro rfl
        obtain rfl := Option.some.inj (hky.1.symm.trans hk.1)
        exact hne (Int.ofNat.inj (hk'.symm.trans hi'))
      · rintro (⟨hi', -⟩ | ⟨x, y, -, hky, hi', rfl⟩)
        · exact absurd (Int.ofNat.inj hi') hne
        · exact ⟨x, y, hky, hi', rfl⟩

/-- `updateChannel` succeeds on a new channel, and on one that the poller has. -/
theorem Inv.setEvents {w : Watched κ} (hi : w.poller.Inv w.disabled)
    (hc : w.poller.chan c = some ch) (h : ch.index = -1 ∨ w.poller.channels ch.fd = some c)
    (events : Events) : ∃ p', w.poller.setEvents c events = .ok p' ∧
      p'.Inv (Function.update w.disabled c (w.disabledBy c ch events)) := by
  rcases h with hnew | hknown
  · have hnone := hi.channels_of_new hc (by omega)
    have hb : w.disabledBy c ch events = false := by simp [Watched.disabledBy, hnone]
    rw [hb]
    exact hi.add hc (by omega) events
  · have hb : w.disabledBy c ch events = (w.disabled c || events == .none) := by
      simp [Watched.disabledBy, hknown]
    rw [hb]
    exact hi.mod ⟨hc, hknown⟩ events

/-- It fails on all others. -/
theorem known_of_setEvents (hc : p.chan c = some ch) {events : Events}
    (hok : p.setEvents c events = .ok p') : ch.index < 0 ∨ p.channels ch.fd = some c := by
  by_cases hnew : ch.index < 0
  · exact .inl hnew
  · rw [PollPoller.setEvents, deref, hc] at hok
    simp only [bind, Except.bind, updateChannel, deref, Function.update_self, if_neg hnew] at hok
    obtain ⟨u, hassert, -⟩ := exists_of_bind hok
    exact .inr (of_assert hassert)

end Update

/-! ## `removeChannel` -/

/-- Writing to a place and taking away the last one. -/
theorem getElem?_dropLast_set {α : Type} (l : List α) (x : α) {k : Nat} (hk : k < l.length)
    (i : Nat) : (l.set k x).dropLast[i]? =
      if i < l.length - 1 then if k = i then some x else l[i]? else none := by
  rw [List.getElem?_dropLast, List.length_set, List.getElem?_set, if_pos hk]

/-- The channel `c` has been removed, and `c'`, which was the last one, has its place now. They may
be the same. -/
structure Removed (p : PollPoller κ) (c : κ) (ch : Channel) (c' : κ) (ch' : Channel)
    (p' : PollPoller κ) : Prop where
  channels : p'.channels = Function.update p.channels ch.fd none
  self : p'.chan c = some { ch with addedToLoop := false }
  moved : c' ≠ c → p'.chan c' = some { ch' with index := ch.index }
  other : ∀ x, x ≠ c → x ≠ c' → p'.chan x = p.chan x

/-- The descriptors of the other channels belong to them as before. -/
theorem Removed.channels_eq (hr : p.Removed c ch c' ch' p') (hi : p.Inv disabled)
    (hc : p.chan c = some ch) {x : κ} {y : Channel} (hx : x ≠ c) (hy : p.chan x = some y) :
    p'.channels y.fd = p.channels y.fd := by
  rw [hr.channels, Function.update_of_ne]
  intro hf
  exact hx (hi.fds x c y ch hy hc hf)

section Remove

variable [DecidableEq κ]

/-- What has been there before is there, at another place at most. -/
theorem Removed.chan_eq_some (hr : p.Removed c ch c' ch' p') (hc' : p.chan c' = some ch') {x : κ}
    {y : Channel} (hx : x ≠ c) (hy : p.chan x = some y) :
    p'.chan x = some { y with index := if x = c' then ch.index else y.index } := by
  by_cases hx' : x = c'
  · subst hx'
    obtain rfl := Option.some.inj (hc'.symm.trans hy)
    rw [hr.moved hx, if_pos rfl]
  · rw [hr.other x hx hx', hy, if_neg hx']

/-- There are the channels that were there before. -/
theorem Removed.exists_chan (hr : p.Removed c ch c' ch' p') (hc : p.chan c = some ch)
    (hc' : p.chan c' = some ch') {x : κ} {y : Channel} (hy : p'.chan x = some y) :
    ∃ z, p.chan x = some z ∧ z.fd = y.fd := by
  by_cases hx : x = c
  · subst hx
    obtain rfl := Option.some.inj (hr.self.symm.trans hy)
    exact ⟨ch, hc, rfl⟩
  · by_cases hx' : x = c'
    · subst hx'
      obtain rfl := Option.some.inj ((hr.moved hx).symm.trans hy)
      exact ⟨ch', hc', rfl⟩
    · exact ⟨y, (hr.other x hx hx').symm.trans hy, rfl⟩

/-- Of the others, the poller has those that it had. -/
theorem Removed.known_iff (hr : p.Removed c ch c' ch' p') (hi : p.Inv disabled)
    (hc : p.chan c = some ch) (hc' : p.chan c' = some ch') (x : κ) (y : Channel) :
    p'.Known x y ↔ x ≠ c ∧
      ∃ z, p.Known x z ∧ y = { z with index := if x = c' then ch.index else z.index } := by
  constructor
  · rintro ⟨hy, hknown⟩
    -- the poller has `c` no more, as its descriptor was erased from the map
    have hx : x ≠ c := by
      rintro rfl
      obtain rfl := Option.some.inj (hr.self.symm.trans hy)
      rw [hr.channels, Function.update_self] at hknown
      cases hknown
    obtain ⟨z, hz, hzfd⟩ := hr.exists_chan hc hc' hy
    refine ⟨hx, z, ⟨hz, ?_⟩, Option.some.inj (hy.symm.trans (hr.chan_eq_some hc' hx hz))⟩
    rw [← hr.channels_eq hi hc hx hz, hzfd, hknown]
  · rintro ⟨hx, z, ⟨hz, hknown⟩, rfl⟩
    exact ⟨hr.chan_eq_some hc' hx hz, (hr.channels_eq hi hc hx hz).trans hknown⟩

/-- Every channel that is left has its place where its index says. -/
theorem Removed.entry (hr : p.Removed c ch c' ch' p') (hi : p.Inv disabled) (hk : p.Known c ch)
    (hk' : p.Known c' ch') (hlast : ch'.index = p.pollfds.length - 1) (i : Nat) (pfd : PollFd) :
    (p.pollfds.set ch.index.toNat (entryOf (disabled c') ch')).dropLast[i]? = some pfd ↔
      ∃ x y, p'.Known x y ∧ y.index = (i : Int) ∧ entryOf (disabled x) y = pfd := by
  obtain ⟨-, k, hindex, hlt, -⟩ := hi.pollfdAt_index hk
  -- the places of two channels differ
  have hplace : ∀ x y, p.Known x y → x ≠ c → y.index ≠ k := fun x y hy hx heq =>
    hx (hi.eq_of_index_eq hy hk (heq.trans hindex.symm)).1
  have hplace' : ∀ x y, p.Known x y → x ≠ c' → y.index ≠ p.pollfds.length - 1 :=
    fun x y hy hx heq => hx (hi.eq_of_index_eq hy hk' (heq.trans hlast.symm)).1
  have hk'' : ch.index.toNat = k := by omega
  rw [hk'', getElem?_dropLast_set _ _ hlt]
  constructor
  · intro hsome
    split at hsome
    · rename_i hi'
      split at hsome
      · rename_i hki
        -- the place `k` is still there, so the removed channel was not the last one
        have hne : c' ≠ c := by
          rintro rfl
          obtain rfl := Option.some.inj (hk.1.symm.trans hk'.1)
          omega
        refine ⟨c', _, (hr.known_iff hi hk.1 hk'.1 c' _).mpr ⟨hne, ch', hk', rfl⟩, ?_,
          Option.some.inj hsome⟩
        show (if c' = c' then ch.index else ch'.index) = i
        rw [if_pos rfl, hindex, hki]
      · rename_i hki
        -- any other place below the last one has the channel that it had
        obtain ⟨x, z, hz, hzi, rfl⟩ := (hi.entry i pfd).mp hsome
        have hx : x ≠ c := by
          rintro rfl
          obtain rfl := Option.some.inj (hk.1.symm.trans hz.1)
          omega
        have hx' : x ≠ c' := by
          rintro rfl
          obtain rfl := Option.some.inj (hk'.1.symm.trans hz.1)
          omega
        refine ⟨x, _, (hr.known_iff hi hk.1 hk'.1 x _).mpr ⟨hx, z, hz, rfl⟩, ?_, rfl⟩
        show (if x = c' then ch.index else z.index) = i
        rw [if_neg hx', hzi]
    · cases hsome
  · rintro ⟨x, y, hy, hyi, rfl⟩
    obtain ⟨hx, z, hz, rfl⟩ := (hr.known_iff hi hk.1 hk'.1 x y).mp hy
    have hyi : (if x = c' then ch.index else z.index) = i := hyi
    obtain ⟨-, j, hj, hjlt, hentry⟩ := hi.pollfdAt_index hz
    have hne := hplace x z hz hx
    by_cases hx' : x = c'
    · subst hx'
      obtain rfl := Option.some.inj (hk'.1.symm.trans hz.1)
      rw [if_pos rfl] at hyi
      have hik : k = i := Int.ofNat.inj (hindex.symm.trans hyi)
      have hlt' : i < p.pollfds.length - 1 := by omega
      rw [if_pos hlt', if_pos hik]
      rfl
    · rw [if_neg hx'] at hyi
      have hij : i = j := Int.ofNat.inj (hyi.symm.trans hj)
      have hil := hplace' x z hz hx'
      have hlt' : i < p.pollfds.length - 1 := by omega
      have hik : ¬ k = i := by omega
      rw [if_pos hlt', if_neg hik, hij, hentry]
      rfl

/-- `removeChannel` puts the last channel to the place of the removed one, which may be the last
itself. -/
theorem Removed.inv (hr : p.Removed c ch c' ch' p') (hi : p.Inv disabled) (hk : p.Known c ch)
    (hk' : p.Known c' ch') (hlast : ch'.index = p.pollfds.length - 1)
    (hpollfds : p'.pollfds =
      (p.pollfds.set ch.index.toNat (entryOf (disabled c') ch')).dropLast) : p'.Inv disabled := by
  have hpos : 0 ≤ ch.index := by
    obtain ⟨k, hindex⟩ := hi.index_of_known hk
    omega
  refine ⟨fun i pfd => ?_, fun fd x hx => ?_, fun x y hy => ?_, fun x y hy => ?_,
    hi.fds_of_chan fun x y hy => hr.exists_chan hk.1 hk'.1 hy⟩
  · rw [hpollfds]
    exact hr.entry hi hk hk' hlast i pfd
  · rw [hr.channels] at hx
    -- only the descriptor of `c` was erased, and what is left has a place
    by_cases hf : fd = ch.fd
    · rw [hf, Function.update_self] at hx
      cases hx
    · rw [Function.update_of_ne hf] at hx
      obtain ⟨z, hz, hzfd, hzpos⟩ := hi.known fd x hx
      have hne : x ≠ c := by
        rintro rfl
        obtain rfl := Option.some.inj (hk.1.symm.trans hz)
        exact hf hzfd.symm
      refine ⟨_, hr.chan_eq_some hk'.1 hne hz, hzfd, ?_⟩
      show 0 ≤ if x = c' then ch.index else z.index
      split
      · exact hpos
      · exact hzpos
  · by_cases hx : x = c
    · subst hx
      obtain rfl := Option.some.inj (hr.self.symm.trans hy)
      exact hi.index x ch hk.1
    · obtain ⟨z, hz, -⟩ := hr.exists_chan hk.1 hk'.1 hy
      obtain rfl := Option.some.inj ((hr.chan_eq_some hk'.1 hx hz).symm.trans hy)
      show -1 ≤ if x = c' then ch.index else z.index
      split
      · omega
      · exact hi.index x z hz
  · by_cases hx : x = c
    · subst hx
      obtain rfl := Option.some.inj (hr.self.symm.trans hy)
      rw [hr.channels, Function.update_self]
      simp
    · obtain ⟨z, hz, -⟩ := hr.exists_chan hk.1 hk'.1 hy
      obtain rfl := Option.some.inj ((hr.chan_eq_some hk'.1 hx hz).symm.trans hy)
      show z.addedToLoop = true ↔ p'.channels z.fd = some x
      rw [hr.channels_eq hi hk.1 hx hz]
      exact hi.added x z hz

/-- `Channel::remove` reaches the choice of `removeChannel`. -/
theorem remove_eq (hi : p.Inv disabled) (hk : p.Known c ch) (hnone : ch.isNoneEvent = true)
    (hmuted : disabled c = true) :
    p.remove c =
      (let p₁ : PollPoller κ := { p with
        channels := Function.update p.channels ch.fd none
        chan := Function.update p.chan c (some { ch with addedToLoop := false }) }
      if ch.index = p.pollfds.length - 1 then
        return { p₁ with pollfds := p.pollfds.dropLast }
      else do
        let last ← p₁.pollfdAt (p.pollfds.length - 1)
        match p₁.channels last.descriptor.toNat with
        | none => .error .abort
        | some c' => do
          let ch' ← p₁.deref c'
          return { p₁ with
            pollfds := (p.pollfds.set ch.index.toNat last).dropLast
            chan := Function.update p₁.chan c' (some { ch' with index := ch.index }) }) := by
  have hat := (hi.pollfdAt_index hk).1
  -- disabled and nothing else is what the second assertion of `removeChannel` asks for
  have hignored : (entryOf (disabled c) ch).fd = -ch.fd - 1 ∧
      (entryOf (disabled c) ch).events = ch.events := by
    rw [hmuted]
    exact ⟨rfl, rfl⟩
  rw [remove, deref, hk.1]
  simp only [bind, Except.bind]
  rw [assert_ok hnone]
  simp only [removeChannel, deref, Function.update_self, bind, Except.bind]
  rw [assert_ok hk.2]
  have hnone' : Channel.isNoneEvent { ch with addedToLoop := false } = true := hnone
  rw [assert_ok hnone']
  let removed : Channel := { ch with addedToLoop := false }
  have hat' : pollfdAt { p with chan := Function.update p.chan c (some removed) } ch.index =
      .ok (entryOf (disabled c) ch) := hat
  simp only [removed] at hat'
  simp only [hat']
  rw [assert_ok hignored]

/-- **`Channel::remove`** succeeds on a channel that the poller has and that has been disabled. -/
theorem Inv.remove (hi : p.Inv disabled) (hk : p.Known c ch) (hnone : ch.isNoneEvent = true)
    (hmuted : disabled c = true) : ∃ p', p.remove c = .ok p' ∧ p'.Inv disabled := by
  have hremove := remove_eq hi hk hnone hmuted
  obtain ⟨-, k, hindex, hlt, hentry⟩ := hi.pollfdAt_index hk
  let removed : Channel := { ch with addedToLoop := false }
  by_cases hend : ch.index = p.pollfds.length - 1
  · simp only [if_pos hend] at hremove
    -- the removed channel is the last one itself
    refine ⟨_, hremove, ?_⟩
    have hr : p.Removed c ch c ch ⟨p.pollfds.dropLast, Function.update p.channels ch.fd none,
        Function.update p.chan c (some removed)⟩ :=
      ⟨rfl, Function.update_self _ _ _, fun hne => absurd rfl hne,
        fun x hx _ => Function.update_of_ne hx _ _⟩
    refine hr.inv hi hk hk hend (congrArg List.dropLast ?_)
    obtain ⟨hk', heq⟩ := List.getElem?_eq_some_iff.mp hentry
    have hplace : ch.index.toNat = k := by omega
    rw [hplace, ← heq, List.set_getElem_self]
  · -- some other channel is the last
    have hback : p.pollfds.length - 1 < p.pollfds.length := by omega
    obtain ⟨c', ch', hk', hlast, hentry'⟩ :=
      (hi.entry (p.pollfds.length - 1) _).mp (List.getElem?_eq_getElem hback)
    have hlast' : ch'.index = p.pollfds.length - 1 := by omega
    have hne : c' ≠ c := by
      rintro rfl
      obtain rfl := Option.some.inj (hk.1.symm.trans hk'.1)
      exact hend hlast'
    -- so `removeChannel` finds the last channel in the map by its descriptor
    have hfd : ch'.fd ≠ ch.fd := fun hf => hne (hi.eq_of_known hk' hk hf).1
    let chan := Function.update p.chan c (some removed)
    have hchan : chan c' = some ch' := (Function.update_of_ne hne _ _).trans hk'.1
    have hchannels : Function.update p.channels ch.fd none ch'.fd = some c' :=
      (Function.update_of_ne hfd _ _).trans hk'.2
    have hat : pollfdAt ⟨p.pollfds, Function.update p.channels ch.fd none, chan⟩
        (p.pollfds.length - 1) = .ok (entryOf (disabled c') ch') := by
      rw [← hlast']
      exact (hi.pollfdAt_index hk').1
    simp only [chan, removed] at hat hchan
    simp only [if_neg hend, hat, bind, Except.bind, descriptor_entryOf, Int.toNat_natCast,
      hchannels, deref, hchan] at hremove
    refine ⟨_, hremove, ?_⟩
    have hr : p.Removed c ch c' ch'
        ⟨(p.pollfds.set ch.index.toNat (entryOf (disabled c') ch')).dropLast,
          Function.update p.channels ch.fd none,
          Function.update chan c' (some { ch' with index := ch.index })⟩ := by
      refine ⟨rfl, ?_, fun _ => Function.update_self _ _ _, fun x hx hx' => ?_⟩
      · exact (Function.update_of_ne hne.symm _ _).trans (Function.update_self _ _ _)
      · exact (Function.update_of_ne hx' _ _).trans (Function.update_of_ne hx _ _)
    exact hr.inv hi hk hk' hlast' rfl

/-- It fails on all others: the descriptor at the place of the channel is asserted to be ignored. -/
theorem Inv.of_remove (hi : p.Inv disabled) (hc : p.chan c = some ch) (hok : p.remove c = .ok p') :
    p.channels ch.fd = some c ∧ ch.isNoneEvent = true ∧ disabled c = true := by
  rw [PollPoller.remove, deref, hc] at hok
  obtain ⟨ch₁, hch, hok⟩ := exists_of_bind hok
  obtain rfl := Except.ok.inj hch
  obtain ⟨u, hnone, hok⟩ := exists_of_bind hok
  simp only [removeChannel, deref, Function.update_self, bind, Except.bind] at hok
  obtain ⟨u₁, hknown, hok⟩ := exists_of_bind hok
  obtain ⟨u₂, -, hok⟩ := exists_of_bind hok
  obtain ⟨pfd, hat, hok⟩ := exists_of_bind hok
  obtain ⟨u₃, hignored, -⟩ := exists_of_bind hok
  have hk : p.Known c ch := ⟨hc, of_assert hknown⟩
  refine ⟨of_assert hknown, of_assert hnone, ?_⟩
  have hat : p.pollfdAt ch.index = .ok pfd := hat
  obtain rfl := Except.ok.inj ((hi.pollfdAt_index hk).1.symm.trans hat)
  have hfd := (of_assert hignored).1
  -- an entry that is not ignored has the descriptor itself, which is not negative
  cases hmuted : disabled c with
  | true => rfl
  | false =>
      rw [hmuted] at hfd
      have hfd : (ch.fd : Int) = -ch.fd - 1 := hfd
      omega

end Remove

/-! ## Runs -/

section Runs

variable [DecidableEq κ]

/-- The places do not change when a channel is constructed. -/
theorem Inv.construct (hi : p.Inv disabled) {fd : Nat} (hnew : p.chan c = none)
    (hfd : ∀ c' ch, p.chan c' = some ch → ch.fd ≠ fd) :
    (p.construct c fd).Inv (Function.update disabled c false) := by
  have hself : (p.construct c fd).chan c = some (.new fd) := Function.update_self _ _ _
  have hother : ∀ x ≠ c, (p.construct c fd).chan x = p.chan x :=
    fun x hx => Function.update_of_ne hx _ _
  -- the poller has no channel at an address where there is none
  have hne : ∀ fd x, p.channels fd = some x → x ≠ c := by
    rintro fd' x hx rfl
    obtain ⟨y, hy, -⟩ := hi.known fd' x hx
    rw [hnew] at hy
    cases hy
  refine ⟨fun i pfd => ?_, fun fd' x hx => ?_, fun x y hy => ?_, fun x y hy => ?_,
    fun x x' y y' hy hy' heq => ?_⟩
  · show p.pollfds[i]? = some pfd ↔ _
    rw [hi.entry]
    constructor
    · rintro ⟨x, y, ⟨hy, hx⟩, hyi, rfl⟩
      exact ⟨x, y, ⟨(hother x (hne _ x hx)).trans hy, hx⟩, hyi,
        by rw [Function.update_of_ne (hne _ x hx)]⟩
    · rintro ⟨x, y, ⟨hy, hx⟩, hyi, rfl⟩
      exact ⟨x, y, ⟨(hother x (hne _ x hx)).symm.trans hy, hx⟩, hyi,
        by rw [Function.update_of_ne (hne _ x hx)]⟩
  · obtain ⟨y, hy, h⟩ := hi.known fd' x hx
    exact ⟨y, (hother x (hne _ x hx)).trans hy, h⟩
  · by_cases hx : x = c
    · subst hx
      obtain rfl := Option.some.inj (hself.symm.trans hy)
      exact Int.le_refl _
    · exact hi.index x y ((hother x hx).symm.trans hy)
  · by_cases hx : x = c
    · subst hx
      obtain rfl := Option.some.inj (hself.symm.trans hy)
      exact ⟨fun h => absurd h Bool.false_ne_true, fun h => absurd rfl (hne _ x h)⟩
    · exact hi.added x y ((hother x hx).symm.trans hy)
  · by_cases hx : x = c
    · by_cases hx' : x' = c
      · rw [hx, hx']
      · -- the new channel's descriptor is that of no other
        subst hx
        obtain rfl := Option.some.inj (hself.symm.trans hy)
        exact absurd heq.symm (hfd x' y' ((hother x' hx').symm.trans hy'))
    · by_cases hx' : x' = c
      · subst hx'
        obtain rfl := Option.some.inj (hself.symm.trans hy')
        exact absurd heq (hfd x y ((hother x hx).symm.trans hy))
      · exact hi.fds x x' y y' ((hother x hx).symm.trans hy) ((hother x' hx').symm.trans hy') heq

/-- The places do not change when a channel is destroyed that the poller does not have. -/
theorem Inv.erase (hi : p.Inv disabled) (hc : p.chan c = some ch)
    (hunknown : p.channels ch.fd ≠ some c) :
    Inv { p with chan := Function.update p.chan c none } disabled := by
  have hof : ∀ x y, Function.update p.chan c none x = some y → x ≠ c ∧ p.chan x = some y := by
    intro x y hy
    by_cases hx : x = c
    · rw [hx, Function.update_self] at hy
      cases hy
    · exact ⟨hx, (Function.update_of_ne hx _ _).symm.trans hy⟩
  have hne : ∀ x y, p.chan x = some y → p.channels y.fd = some x → x ≠ c := by
    rintro x y hy hx rfl
    obtain rfl := Option.some.inj (hc.symm.trans hy)
    exact hunknown hx
  refine ⟨fun i pfd => ?_, fun fd x hx => ?_, fun x y hy => hi.index x y (hof x y hy).2,
    fun x y hy => hi.added x y (hof x y hy).2,
    fun x x' y y' hy hy' heq => hi.fds x x' y y' (hof x y hy).2 (hof x' y' hy').2 heq⟩
  · rw [hi.entry]
    constructor
    · rintro ⟨x, y, ⟨hy, hx⟩, h⟩
      exact ⟨x, y, ⟨(Function.update_of_ne (hne x y hy hx) _ _).trans hy, hx⟩, h⟩
    · rintro ⟨x, y, ⟨hy, hx⟩, h⟩
      exact ⟨x, y, ⟨(hof x y hy).2, hx⟩, h⟩
  · obtain ⟨y, hy, rfl, hpos⟩ := hi.known fd x hx
    exact ⟨y, (Function.update_of_ne (hne x y hy hx) _ _).trans hy, rfl, hpos⟩

/-- **`~Channel`** succeeds on a channel that the poller does not have. -/
theorem Inv.destroy (hi : p.Inv disabled) (hc : p.chan c = some ch)
    (hunknown : p.channels ch.fd ≠ some c) : ∃ p', p.destroy c = .ok p' ∧ p'.Inv disabled := by
  refine ⟨_, ?_, hi.erase hc hunknown⟩
  -- a channel that the poller does not have was removed or never added
  have hadded : ch.addedToLoop = false :=
    Bool.eq_false_iff.mpr fun h => hunknown ((hi.added c ch hc).mp h)
  rw [PollPoller.destroy, deref, hc]
  simp only [bind, Except.bind]
  rw [assert_ok hadded, assert_ok hunknown]
  rfl

/-- It fails on all others, which `~Channel` asserts to be gone. -/
theorem unknown_of_destroy (hc : p.chan c = some ch) (hok : p.destroy c = .ok p') :
    p.channels ch.fd ≠ some c := by
  rw [PollPoller.destroy, deref, hc] at hok
  obtain ⟨ch₁, hch, hok⟩ := exists_of_bind hok
  obtain rfl := Except.ok.inj hch
  obtain ⟨u, -, hok⟩ := exists_of_bind hok
  obtain ⟨u₁, hunknown, -⟩ := exists_of_bind hok
  exact of_assert hunknown

namespace Watched

variable {w w' : Watched κ}

/-- **Every action keeps the places in order**. -/
theorem inv_step (hi : w.poller.Inv w.disabled) (hstep : Step w w') :
    w'.poller.Inv w'.disabled := by
  cases hstep with
  | construct hnew hfd => exact hi.construct hnew hfd
  | setEvents hc hok =>
      have hknown := known_of_setEvents hc hok
      have hindex := hi.index _ _ hc
      obtain ⟨q, hq, hi'⟩ := hi.setEvents hc (hknown.imp_left fun h => by omega) _
      obtain rfl := Except.ok.inj (hq.symm.trans hok)
      exact hi'
  | remove hok =>
      obtain ⟨ch, hc⟩ := exists_of_deref hok
      obtain ⟨hknown, hnone, hmuted⟩ := hi.of_remove hc hok
      obtain ⟨q, hq, hi'⟩ := hi.remove ⟨hc, hknown⟩ hnone hmuted
      obtain rfl := Except.ok.inj (hq.symm.trans hok)
      exact hi'
  | destroy hok =>
      obtain ⟨ch, hc⟩ := exists_of_deref hok
      obtain ⟨q, hq, hi'⟩ := hi.destroy hc (unknown_of_destroy hc hok)
      obtain rfl := Except.ok.inj (hq.symm.trans hok)
      exact hi'

/-- So does each run. -/
theorem Reachable.inv (h : w.Reachable) : w.poller.Inv w.disabled := by
  induction h with
  | refl => exact inv_new _
  | tail _ hstep ih => exact inv_step ih hstep

end Watched

end Runs

/-! ## Results -/

section Results

variable [DecidableEq κ] {w : Watched κ}

/-- Two channels, of which the first one has been disabled and is to wait for something again. -/
theorem exists_reenabled : ∃ w : Watched Nat, w.Reachable ∧
    w.poller.chan 0 = some ⟨7, ⟨true, false⟩, 0, true⟩ ∧
    w.poller.chan 1 = some ⟨8, ⟨true, false⟩, 1, true⟩ ∧
    w.poller.pollfds = [⟨-8, ⟨true, false⟩⟩, ⟨8, ⟨true, false⟩⟩] := by
  let start : Watched Nat := ⟨new, fun _ => false⟩
  let first : Watched Nat := ⟨start.poller.construct 0 7, Function.update start.disabled 0 false⟩
  let both : Watched Nat := ⟨first.poller.construct 1 8, Function.update first.disabled 1 false⟩
  have hfirst : Watched.Step start first := .construct rfl fun c' ch hc => by cases hc
  have hboth : Watched.Step first both := by
    refine .construct rfl fun c' ch hc => ?_
    by_cases hc' : c' = 0
    · subst hc'
      cases hc
      decide
    · rw [show first.poller.chan c' = none from Function.update_of_ne hc' _ _] at hc
      cases hc
  let reading : Events := ⟨true, false⟩
  let update := fun (p : PollPoller Nat) c events => (p.setEvents c events).toOption.getD p
  let p₁ := update both.poller 0 reading
  let p₂ := update p₁ 1 reading
  let p₃ := update p₂ 0 .none
  let p₄ := update p₃ 0 reading
  have hok₁ : both.poller.setEvents 0 reading = .ok p₁ := rfl
  have hok₂ : p₁.setEvents 1 reading = .ok p₂ := rfl
  have hok₃ : p₂.setEvents 0 .none = .ok p₃ := rfl
  have hok₄ : p₃.setEvents 0 reading = .ok p₄ := rfl
  have hc₀ : both.poller.chan 0 = some (.new 7) := rfl
  have hc₁ : p₁.chan 1 = some (.new 8) := rfl
  have hc₂ : p₂.chan 0 = some ⟨7, reading, 0, true⟩ := rfl
  have hc₃ : p₃.chan 0 = some ⟨7, .none, 0, true⟩ := rfl
  have hrun : Watched.Reachable both := .tail (.tail .refl hfirst) hboth
  have hrun := (((hrun.tail (.setEvents hc₀ hok₁)).tail (.setEvents hc₁ hok₂)).tail
    (.setEvents hc₂ hok₃)).tail (.setEvents hc₃ hok₄)
  exact ⟨_, hrun, rfl, rfl, rfl⟩

/-- **What the kernel is asked for**: the `pollfd`s are those of the channels that the poller has,
wherever they have been moved to, each one once, with the descriptor of the channel if it has not
been disabled, and with one that the kernel ignores if it has, whatever it waits for now. -/
theorem pollfds_exact (h : w.Reachable) :
    (∀ pfd, pfd ∈ w.poller.pollfds ↔
      ∃ c ch, w.poller.chan c = some ch ∧ w.poller.channels ch.fd = some c ∧
        pfd = ⟨if w.disabled c then -ch.fd - 1 else ch.fd, ch.events⟩) ∧
    w.poller.pollfds.Nodup := by
  have hi := h.inv
  refine ⟨fun pfd => ⟨fun hmem => ?_, ?_⟩, hi.nodup_pollfds⟩
  · obtain ⟨c, ch, hk, heq⟩ := hi.exists_known hmem
    exact ⟨c, ch, hk.1, hk.2, heq.symm⟩
  · rintro ⟨c, ch, hc, hknown, rfl⟩
    exact hi.mem_pollfds ⟨hc, hknown⟩

/-- Its descriptor stays negated. -/
theorem pollfds_exact_reenabled : ∃ w : Watched Nat,
    w.poller.pollfds = [⟨-8, ⟨true, false⟩⟩, ⟨8, ⟨true, false⟩⟩] ∧
    (∀ pfd, pfd ∈ w.poller.pollfds ↔
      ∃ c ch, w.poller.chan c = some ch ∧ w.poller.channels ch.fd = some c ∧
        pfd = ⟨if w.disabled c then -ch.fd - 1 else ch.fd, ch.events⟩) ∧
    w.poller.pollfds.Nodup := by
  obtain ⟨w, hw, -, -, hpollfds⟩ := exists_reenabled
  exact ⟨w, hpollfds, pollfds_exact hw⟩

/-- **The loop hears of exactly the channels that the poller has and that have not been disabled**,
and of which the kernel has something to report: each once, with what is reported for its own
descriptor. -/
theorem fillActiveChannels_exact (h : w.Reachable) (report : Nat → Nat) :
    ∃ active, w.poller.fillActiveChannels report = .ok active ∧ (active.map Prod.fst).Nodup ∧
      ∀ c r, (c, r) ∈ active ↔ ∃ ch, w.poller.chan c = some ch ∧
        w.poller.channels ch.fd = some c ∧ w.disabled c = false ∧ 0 < r ∧ r = report ch.fd := by
  have hi := h.inv
  have hall : ∀ pfd ∈ w.poller.pollfds, ∃ c ch b, w.poller.Known c ch ∧ entryOf b ch = pfd := by
    intro pfd hpfd
    obtain ⟨c, ch, hk, heq⟩ := hi.exists_known hpfd
    exact ⟨c, ch, _, hk, heq⟩
  refine ⟨w.poller.pollfds.filterMap (w.poller.activeOf report), fillLoop_eq report hall, ?_,
    fun c r => ?_⟩
  · rw [List.Nodup, List.pairwise_map, List.pairwise_filterMap]
    -- no element occurs twice, and two elements do not have one channel
    refine hi.nodup_pollfds.imp_of_mem fun {pfd pfd'} hpfd hpfd' hne => ?_
    obtain ⟨x, ch, hk, rfl⟩ := hi.exists_known hpfd
    obtain ⟨x', ch', hk', rfl⟩ := hi.exists_known hpfd'
    rintro ⟨c, r⟩ hr ⟨c', r'⟩ hr' heq
    obtain ⟨rfl, -⟩ := (activeOf_eq_some_iff hk _ report r).mp hr
    obtain ⟨rfl, -⟩ := (activeOf_eq_some_iff hk' _ report r').mp hr'
    obtain rfl : c = c' := heq
    obtain rfl := Option.some.inj (hk.1.symm.trans hk'.1)
    exact hne rfl
  · rw [List.mem_filterMap]
    constructor
    · rintro ⟨pfd, hpfd, hactive⟩
      obtain ⟨c', ch, hk, rfl⟩ := hi.exists_known hpfd
      obtain ⟨rfl, hlive, hpos, hr⟩ := (activeOf_eq_some_iff hk _ report r).mp hactive
      exact ⟨ch, hk.1, hk.2, hlive, hpos, hr⟩
    · rintro ⟨ch, hc, hknown, hlive, hpos, hr⟩
      have hk : w.poller.Known c ch := ⟨hc, hknown⟩
      exact ⟨_, hi.mem_pollfds hk, (activeOf_eq_some_iff hk _ report r).mpr
        ⟨rfl, hlive, hpos, hr⟩⟩

/-- Both channels have events, and the loop hears of the second one only. -/
theorem fillActiveChannels_exact_reenabled : ∃ w : Watched Nat,
    w.poller.pollfds = [⟨-8, ⟨true, false⟩⟩, ⟨8, ⟨true, false⟩⟩] ∧
    ∃ active, w.poller.fillActiveChannels (fun _ => 1) = .ok active ∧
      (active.map Prod.fst).Nodup ∧
      ∀ c r, (c, r) ∈ active ↔ ∃ ch, w.poller.chan c = some ch ∧
        w.poller.channels ch.fd = some c ∧ w.disabled c = false ∧ 0 < r ∧ r = 1 := by
  obtain ⟨w, hw, -, -, hpollfds⟩ := exists_reenabled
  exact ⟨w, hpollfds, fillActiveChannels_exact hw fun _ => 1⟩

end Results

end PollPoller

end Muduo

end FastCgi
