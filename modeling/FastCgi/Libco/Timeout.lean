import Mathlib.Algebra.Order.Group.Unbundled.Int
import Mathlib.Data.List.Flatten
import Mathlib.Data.List.Range
import Mathlib.Tactic.NormNum
import FastCgi.Libco.Link

/-! # The timing wheel of libco

`stTimeout_t` is an array of lists, one for each millisecond from `ullStart` on, that is used as a
ring: the list of the millisecond `ullStart + d` is number `llStartIdx + d` modulo `iItemSize`. An
item that expires later than the last of these milliseconds is put on the last list, and will be
taken off it too early.

`Timeout.Sound` says that no item is on a list later than it expires. `addTimeout_ok` and
`takeAllTimeout_ok` say that the operations keep it so, and that `TakeAllTimeout` therefore leaves
no item behind that has expired. -/

namespace FastCgi

namespace Libco

/-- The lists an item can be on: those of the wheel, and the two lists of `stCoEpoll_t`. -/
inductive Place
  /-- `pItems + i`, in or outside the array. -/
  | slot (i : Int)
  /-- `pstTimeoutList`. -/
  | timeout
  /-- `pstActiveList`. -/
  | active
  deriving DecidableEq, Repr

/-- A count that is stored in an `int`. -/
def toInt (n : Nat) : Int := Int.bmod n (2 ^ 32)

theorem toInt_of_lt {n : Nat} (h : n < 2 ^ 31) : toInt n = n :=
  Int.bmod_eq_of_le (by norm_num) (by norm_num; omega)

/-- `stTimeout_t`, without the lists. -/
structure Timeout where
  iItemSize : Nat
  ullStart : Nat
  llStartIdx : Int
  deriving DecidableEq, Repr

universe u

variable {ν : Type u} [DecidableEq ν]

namespace Timeout

/-- `AllocTimeout`, at the time `now`. -/
def alloc (iSize now : Nat) : Timeout := ⟨iSize, now, 0⟩

variable (t : Timeout)

/-- A wheel that has no start time yet is started. -/
def start (allNow : Nat) : Timeout :=
  if t.ullStart = 0 then { t with ullStart := allNow, llStartIdx := 0 } else t

/-- The list of the millisecond `ullStart + d`. -/
def slot (d : Nat) : Place := .slot ((t.llStartIdx + d).tmod t.iItemSize)

/-- `AddTimeout`, of an item that expires at `ullExpireTime`: whether it is accepted, the wheel, and
the lists. -/
def addTimeout (h : Heap ν Place) (apItem : ν) (ullExpireTime allNow : Nat) :
    Bool × Timeout × Heap ν Place :=
  let t := t.start allNow
  if allNow < t.ullStart then (false, t, h)
  else if ullExpireTime < allNow then (false, t, h)
  else
    let diff := ullExpireTime - t.ullStart
    -- what is beyond the wheel goes to its last list
    let diff := if t.iItemSize ≤ diff then t.iItemSize - 1 else diff
    (true, t, h.addTail (t.slot diff) apItem)

/-- The number of lists that have come due, computed in `int`. -/
def count (allNow : Nat) : Int :=
  let cnt := toInt (allNow - t.ullStart + 1)
  if (t.iItemSize : Int) < cnt then t.iItemSize else cnt

/-- `TakeAllTimeout`: the items of all lists that have come due go to `apResult`. -/
def takeAllTimeout (fuel : Nat) (h : Heap ν Place) (allNow : Nat) (apResult : Place) :
    Option (Timeout × Heap ν Place) :=
  let t := t.start allNow
  if allNow < t.ullStart then some (t, h)
  else if t.count allNow < 0 then some (t, h)
  else do
    let h ← (List.range (t.count allNow).toNat).foldlM
      (fun h i => h.join fuel apResult (t.slot i)) h
    return ({ t with ullStart := allNow, llStartIdx := t.llStartIdx + (t.count allNow - 1) }, h)

/-! ## Slots -/

/-- The wheel is in use: it has lists, a start time, and no negative index. -/
structure Running : Prop where
  size_pos : 0 < t.iItemSize
  start_pos : 0 < t.ullStart
  idx_nonneg : 0 ≤ t.llStartIdx

variable {t}

theorem Running.start (hrun : t.Running) (allNow : Nat) : t.start allNow = t := by
  rw [Timeout.start, if_neg hrun.start_pos.ne']

theorem slot_eq (hrun : t.Running) (d : Nat) :
    t.slot d = .slot ((t.llStartIdx + d) % t.iItemSize) := by
  rw [slot, Int.tmod_eq_emod_of_nonneg]
  have h := hrun.idx_nonneg
  omega

/-- Different milliseconds of the wheel have different lists. -/
theorem slot_injective (hrun : t.Running) {d d' : Nat} (hd : d < t.iItemSize)
    (hd' : d' < t.iItemSize) (h : t.slot d = t.slot d') : d = d' := by
  rw [slot_eq hrun, slot_eq hrun, Place.slot.injEq] at h
  have hdvd : (t.iItemSize : Int) ∣ (d : Int) - d' := by
    rw [Int.emod_eq_emod_iff_emod_sub_eq_zero, Int.add_sub_add_left] at h
    exact Int.dvd_of_emod_eq_zero h
  have habs : |(d : Int) - d'| < t.iItemSize := by
    rw [abs_lt]
    constructor <;> omega
  have hzero := Int.eq_zero_of_abs_lt_dvd hdvd habs
  omega

/-! ## What the operations do -/

/-- No item of the wheel is on a list of a later time than it expires. -/
structure Sound (t : Timeout) (lists : Place → List ν) (expire : ν → Nat) : Prop where
  running : t.Running
  due : ∀ i x, x ∈ lists (.slot i) →
    ∃ d < t.iItemSize, .slot i = t.slot d ∧ t.ullStart + d ≤ expire x

variable {h : Heap ν Place} {lists : Place → List ν} {expire : ν → Nat} {now : Nat}

omit [DecidableEq ν] in
/-- Items may be taken off the wheel. -/
theorem Sound.mono {lists' : Place → List ν} (hs : t.Sound lists expire)
    (h : ∀ i, lists' (.slot i) ⊆ lists (.slot i)) : t.Sound lists' expire :=
  ⟨hs.running, fun i x hx => hs.due i x (h i hx)⟩

/-- `AddTimeout` accepts an item that is not over yet, and puts it on a list of the wheel. -/
theorem Sound.addTimeout (hs : t.Sound lists expire) (hr : h.Represents lists) {x : ν}
    (hx : ∀ l, x ∉ lists l) (hstart : t.ullStart ≤ now) (hexp : now ≤ expire x) :
    ∃ d h', t.addTimeout h x (expire x) now = (true, t, h') ∧
      h'.Represents (Function.update lists (t.slot d) (lists (t.slot d) ++ [x])) ∧
      t.Sound (Function.update lists (t.slot d) (lists (t.slot d) ++ [x])) expire := by
  have hrun := hs.running
  rw [Timeout.addTimeout, hrun.start]
  simp only
  rw [if_neg (by omega), if_neg (by omega)]
  refine ⟨_, _, rfl, hr.addTail _ hx, hrun, fun i y hy => ?_⟩
  by_cases hi : .slot i = t.slot
      (if t.iItemSize ≤ expire x - t.ullStart then t.iItemSize - 1 else expire x - t.ullStart)
  · rw [hi, Function.update_self, List.mem_append, List.mem_singleton, ← hi] at hy
    obtain hy | rfl := hy
    · exact hs.due i y hy
    · have hpos := hrun.size_pos
      refine ⟨_, ?_, hi, ?_⟩
      · split <;> omega
      · split <;> omega
  · rw [Function.update_of_ne hi] at hy
    exact hs.due i y hy

/-- How many lists have come due, when the clock has not leapt by more than an `int` can count. -/
theorem count_eq (hgap : now - t.ullStart + 1 < 2 ^ 31) :
    t.count now = (min (now - t.ullStart + 1) t.iItemSize : Nat) := by
  simp only [count, toInt_of_lt hgap]
  split <;> omega

/-- The lists after the first `cnt` of the wheel have been joined to `apResult`. -/
def taken (t : Timeout) (lists : Place → List ν) (apResult : Place) (cnt : Nat) (p : Place) :
    List ν :=
  if p = apResult then lists apResult ++ (List.range cnt).flatMap fun i => lists (t.slot i)
  else if p ∈ (List.range cnt).map t.slot then [] else lists p

omit [DecidableEq ν] in
theorem taken_of_ne {p apResult : Place} (hp : p ≠ apResult) (cnt : Nat) :
    t.taken lists apResult cnt p
      = if p ∈ (List.range cnt).map t.slot then [] else lists p := by
  rw [taken, if_neg hp]

/-- The loop of `TakeAllTimeout`. -/
theorem foldlM_join (hrun : t.Running) (hr : h.Represents lists) {apResult : Place}
    (hres : ∀ i, apResult ≠ .slot i) {fuel : Nat} (hfuel : ∀ l, (lists l).length ≤ fuel) {cnt : Nat}
    (hcnt : cnt ≤ t.iItemSize) :
    ∃ h', (List.range cnt).foldlM (fun h i => h.join fuel apResult (t.slot i)) h = some h' ∧
      h'.Represents (t.taken lists apResult cnt) := by
  induction cnt with
  | zero =>
      refine ⟨h, rfl, ?_⟩
      have htaken : t.taken lists apResult 0 = lists := by
        funext p
        rw [taken]
        split
        · rename_i hp
          simp [hp]
        · simp
      rw [htaken]
      exact hr
  | succ cnt ih =>
      obtain ⟨h', hfold, hr'⟩ := ih (by omega)
      have hslot : t.slot cnt ≠ apResult := fun heq => hres _ heq.symm
      -- the next list has not been touched yet
      have hnew : t.slot cnt ∉ (List.range cnt).map t.slot := by
        intro hmem
        obtain ⟨i, hi, heq⟩ := List.mem_map.mp hmem
        rw [List.mem_range] at hi
        have := slot_injective hrun (by omega) (by omega) heq
        omega
      have hlist : t.taken lists apResult cnt (t.slot cnt) = lists (t.slot cnt) := by
        rw [taken_of_ne hslot, if_neg hnew]
      have hlen : (t.taken lists apResult cnt (t.slot cnt)).length ≤ fuel := by
        rw [hlist]
        exact hfuel _
      obtain ⟨h'', hjoin, hr''⟩ := hr'.join hslot.symm hlen
      refine ⟨h'', ?_, ?_⟩
      · rw [List.range_succ, List.foldlM_append, hfold]
        simp [hjoin]
      · have htaken : t.taken lists apResult (cnt + 1)
            = Function.update (Function.update (t.taken lists apResult cnt) apResult
                (t.taken lists apResult cnt apResult ++ t.taken lists apResult cnt (t.slot cnt)))
                (t.slot cnt) [] := by
          funext p
          rw [hlist]
          by_cases hp : p = t.slot cnt
          · rw [hp, Function.update_self, taken_of_ne hslot,
              if_pos (List.mem_map_of_mem (List.mem_range.mpr (Nat.lt_succ_self cnt)))]
          · rw [Function.update_of_ne hp]
            by_cases hpr : p = apResult
            · subst hpr
              rw [Function.update_self, taken, if_pos rfl, taken, if_pos rfl, List.range_succ,
                List.flatMap_append, List.flatMap_singleton, List.append_assoc]
            · rw [Function.update_of_ne hpr, taken_of_ne hpr, taken_of_ne hpr]
              refine if_congr ?_ rfl rfl
              rw [List.range_succ, List.map_append, List.mem_append]
              simp [hp]
        rw [htaken]
        exact hr''

/-- **`TakeAllTimeout` takes all items that have expired**: each item of the wheel is moved to
`apResult`, or stays on the wheel and has not expired. -/
theorem Sound.takeAllTimeout (hs : t.Sound lists expire) (hr : h.Represents lists)
    {apResult : Place} (hres : ∀ i, apResult ≠ .slot i) {fuel : Nat}
    (hfuel : ∀ l, (lists l).length ≤ fuel) (hstart : t.ullStart ≤ now)
    (hgap : now - t.ullStart + 1 < 2 ^ 31) :
    ∃ t' h' lists' due, t.takeAllTimeout fuel h now apResult = some (t', h') ∧
      h'.Represents lists' ∧ t'.Sound lists' expire ∧ t'.ullStart = now ∧
      lists' apResult = lists apResult ++ due ∧
      (∀ p, p ≠ apResult → (∀ i, p ≠ .slot i) → lists' p = lists p) ∧
      (∀ x, (∃ i, x ∈ lists (.slot i)) ↔ x ∈ due ∨ ∃ i, x ∈ lists' (.slot i)) ∧
      ∀ i x, x ∈ lists' (.slot i) → now < expire x := by
  have hrun := hs.running
  have hcount := count_eq hgap
  have hcnt : min (now - t.ullStart + 1) t.iItemSize ≤ t.iItemSize := min_le_right _ _
  obtain ⟨h', hfold, hr'⟩ := foldlM_join hrun hr hres hfuel hcnt
  have hslot : ∀ i, Place.slot i ≠ apResult := fun i => (hres i).symm
  -- an item that stays is on a list that has not come due
  have hstay : ∀ i x,
      x ∈ t.taken lists apResult (min (now - t.ullStart + 1) t.iItemSize) (.slot i) →
      x ∈ lists (.slot i) ∧ ∃ d < t.iItemSize, .slot i = t.slot d ∧ t.ullStart + d ≤ expire x ∧
        now - t.ullStart < d := by
    intro i x hx
    rw [taken_of_ne (hslot i)] at hx
    split at hx
    · cases hx
    · rename_i hnot
      obtain ⟨d, hd, hi, hexp⟩ := hs.due i x hx
      refine ⟨hx, d, hd, hi, hexp, ?_⟩
      by_contra hlt
      exact hnot (List.mem_map.mpr ⟨d, by rw [List.mem_range]; omega, hi.symm⟩)
  refine ⟨⟨t.iItemSize, now, t.llStartIdx + (t.count now - 1)⟩, h', _, _, ?_, hr',
    ⟨⟨hrun.size_pos, ?_, ?_⟩, ?_⟩, rfl, if_pos rfl, ?_, ?_, ?_⟩
  · rw [Timeout.takeAllTimeout, hrun.start]
    rw [if_neg (by omega), if_neg (by omega), hcount, Int.toNat_natCast, hfold]
    rfl
  · have hpos := hrun.start_pos
    show 0 < now
    omega
  · have hpos := hrun.size_pos
    have hidx := hrun.idx_nonneg
    show 0 ≤ t.llStartIdx + _
    omega
  · intro i x hx
    obtain ⟨-, d, hd, hi, hexp, hlt⟩ := hstay i x hx
    -- the lists are counted from the new start
    have hidx : t.llStartIdx + (t.count now - 1) + ((d - (now - t.ullStart) : Nat) : Int)
        = t.llStartIdx + d := by
      rw [hcount]
      omega
    refine ⟨d - (now - t.ullStart), Nat.lt_of_le_of_lt (Nat.sub_le _ _) hd, ?_, ?_⟩
    · rw [hi, slot, slot, hidx]
    · show now + (d - (now - t.ullStart)) ≤ expire x
      omega
  · intro p hp hpslot
    rw [taken_of_ne hp, if_neg]
    intro hmem
    obtain ⟨i, -, heq⟩ := List.mem_map.mp hmem
    exact hpslot _ heq.symm
  · intro x
    constructor
    · rintro ⟨i, hx⟩
      by_cases hmem : Place.slot i ∈
          (List.range (min (now - t.ullStart + 1) t.iItemSize)).map t.slot
      · obtain ⟨d, hd, heq⟩ := List.mem_map.mp hmem
        exact .inl (List.mem_flatMap.mpr ⟨d, hd, by rw [heq]; exact hx⟩)
      · refine .inr ⟨i, ?_⟩
        rw [taken_of_ne (hslot i), if_neg hmem]
        exact hx
    · rintro (hx | ⟨i, hx⟩)
      · obtain ⟨d, -, hx⟩ := List.mem_flatMap.mp hx
        exact ⟨_, hx⟩
      · exact ⟨i, (hstay i x hx).1⟩
  · intro i x hx
    obtain ⟨-, d, -, -, hexp, hlt⟩ := hstay i x hx
    omega

end Timeout

end Libco

end FastCgi
