import Mathlib.Data.List.Basic
import Mathlib.Data.List.Nodup
import Mathlib.Logic.Function.Basic
import Mathlib.Tactic.Common

/-! # The intrusive lists of libco

The scheduler of libco keeps its items on doubly linked lists whose pointers are members of the
items: each has a predecessor, a successor, and a pointer to the list it is on. The templates
`RemoveFromLink`, `AddTail`, `PopHead` and `Join` change these pointers in place.

A `Heap` holds the pointers of all nodes and lists, and the operations work on it as the source
does; they fail where the source dereferences a null pointer, violates its assertion, or follows
pointers without end. `Heap.Represents` says that the heap holds a family of lists without common
nodes, and each operation has one lemma that says what it does to the family. -/

namespace FastCgi

namespace Libco

universe u v

/-- The pointers of a node. -/
structure Node (ν : Type u) (ℓ : Type v) where
  pPrev : Option ν
  pNext : Option ν
  pLink : Option ℓ
  deriving DecidableEq, Repr

/-- The pointers of a list. -/
structure Link (ν : Type u) where
  head : Option ν
  tail : Option ν
  deriving DecidableEq, Repr

/-- The memory in which nodes and lists are kept. -/
structure Heap (ν : Type u) (ℓ : Type v) where
  node : ν → Node ν ℓ
  link : ℓ → Link ν

namespace Heap

variable {ν : Type u} {ℓ : Type v}

/-- Memory that is filled with zeros. -/
def zero : Heap ν ℓ := ⟨fun _ => ⟨none, none, none⟩, fun _ => ⟨none, none⟩⟩

variable (h : Heap ν ℓ)

section Operations

variable [DecidableEq ν] [DecidableEq ℓ]

/-- All pointers of a node are written. -/
def setNode (x : ν) (n : Node ν ℓ) : Heap ν ℓ := { h with node := Function.update h.node x n }

/-- `pPrev` of a node is written. -/
def setPrev (x : ν) (p : Option ν) : Heap ν ℓ := h.setNode x { h.node x with pPrev := p }

/-- `pNext` of a node is written. -/
def setNext (x : ν) (p : Option ν) : Heap ν ℓ := h.setNode x { h.node x with pNext := p }

/-- `pLink` of a node is written, the list that it is on. -/
def setPLink (x : ν) (p : Option ℓ) : Heap ν ℓ := h.setNode x { h.node x with pLink := p }

/-- The pointers of a list are written. -/
def setLink (l : ℓ) (k : Link ν) : Heap ν ℓ := { h with link := Function.update h.link l k }

/-! ## The operations -/

/-- The first half of `RemoveFromLink`: what is in front of the node gets a new successor. -/
def unlinkNext (lst : ℓ) (ap : ν) : Heap ν ℓ :=
  if (h.link lst).head = some ap then
    let h' := h.setLink lst { h.link lst with head := (h.node ap).pNext }
    match (h.node ap).pNext with
    | some n => h'.setPrev n none
    | none => h'
  else
    match (h.node ap).pPrev with
    | some p => h.setNext p (h.node ap).pNext
    | none => h

/-- The second half: what comes behind the node gets a new predecessor. -/
def unlinkPrev (lst : ℓ) (ap : ν) : Option (Heap ν ℓ) :=
  if (h.link lst).tail = some ap then
    let h' := h.setLink lst { h.link lst with tail := (h.node ap).pPrev }
    match (h.node ap).pPrev with
    | some p => some (h'.setNext p none)
    | none => some h'
  else
    match (h.node ap).pNext with
    | some n => some (h.setPrev n (h.node ap).pPrev)
    -- `ap->pNext->pPrev` through a null pointer
    | none => none

/-- `RemoveFromLink`. -/
def removeFromLink (ap : ν) : Option (Heap ν ℓ) :=
  match (h.node ap).pLink with
  | none => some h
  | some lst =>
    -- `assert( lst->head && lst->tail )`
    if (h.link lst).head.isSome ∧ (h.link lst).tail.isSome then do
      let h ← (h.unlinkNext lst ap).unlinkPrev lst ap
      return h.setNode ap ⟨none, none, none⟩
    else none

/-- `AddTail`. -/
def addTail (apLink : ℓ) (ap : ν) : Heap ν ℓ :=
  if (h.node ap).pLink.isSome then h
  else
    match (h.link apLink).tail with
    | some t =>
      ((h.setNext t (some ap)).setNode ap ⟨some t, none, some apLink⟩).setLink apLink
        { h.link apLink with tail := some ap }
    | none => (h.setNode ap ⟨none, none, some apLink⟩).setLink apLink ⟨some ap, some ap⟩

/-- `PopHead`. -/
def popHead (apLink : ℓ) : Heap ν ℓ :=
  match (h.link apLink).head with
  | none => h
  | some lp =>
    if (h.link apLink).head = (h.link apLink).tail then
      (h.setLink apLink ⟨none, none⟩).setNode lp ⟨none, none, none⟩
    else
      let h' := (h.setLink apLink { h.link apLink with head := (h.node lp).pNext }).setNode lp
        ⟨none, none, none⟩
      match (h.node lp).pNext with
      | some n => h'.setPrev n none
      | none => h'

/-- The loop of `Join`: all nodes from `lp` on are told which list they are on. -/
def relink (apLink : ℓ) : Nat → Heap ν ℓ → Option ν → Option (Heap ν ℓ)
  | _, h, none => some h
  | 0, _, some _ => none
  | fuel + 1, h, some lp => relink apLink fuel (h.setPLink lp (some apLink)) (h.node lp).pNext

/-- `Join`. The loop over the nodes of `apOther` is cut off after `fuel` rounds. -/
def join (fuel : Nat) (apLink apOther : ℓ) : Option (Heap ν ℓ) :=
  match (h.link apOther).head with
  | none => some h
  | some lp => do
    let h' ← relink apLink fuel h (some lp)
    let h' :=
      match (h.link apLink).tail with
      | some t =>
        ((h'.setNext t (some lp)).setPrev lp (some t)).setLink apLink
          { h.link apLink with tail := (h.link apOther).tail }
      | none => h'.setLink apLink (h.link apOther)
    return h'.setLink apOther ⟨none, none⟩

end Operations

/-! ## What a heap represents -/

/-- The nodes `xs` of the list `l` are linked to each other, to `prev` in front and to `next`
behind. -/
def Seg (l : ℓ) : Option ν → List ν → Option ν → Prop
  | _, [], _ => True
  | prev, x :: xs, next =>
    h.node x = ⟨prev, xs.head?.or next, some l⟩ ∧ Seg l (some x) xs next

/-- The list `l` has the nodes `xs`. -/
structure Holds (l : ℓ) (xs : List ν) : Prop where
  head : (h.link l).head = xs.head?
  tail : (h.link l).tail = xs.getLast?
  seg : h.Seg l none xs none

/-- The heap **represents** a family of lists: each list has its nodes, none of them twice, and all
other nodes are on no list. -/
structure Represents (lists : ℓ → List ν) : Prop where
  holds : ∀ l, h.Holds l (lists l)
  nodup : ∀ l, (lists l).Nodup
  free : ∀ x, (∀ l, x ∉ lists l) → (h.node x).pLink = none

/-- In memory filled with zeros all lists are empty. -/
theorem represents_zero : (zero : Heap ν ℓ).Represents fun _ => [] where
  holds _ := ⟨rfl, rfl, trivial⟩
  nodup _ := List.nodup_nil
  free _ _ := rfl

variable {h} {h' : Heap ν ℓ} {l : ℓ} {lists : ℓ → List ν}

/-- Segments depend on the pointers of their nodes only. -/
theorem Seg.congr {prev next : Option ν} {xs : List ν} (hs : h.Seg l prev xs next)
    (heq : ∀ x ∈ xs, h'.node x = h.node x) : h'.Seg l prev xs next := by
  induction xs generalizing prev with
  | nil => trivial
  | cons x xs ih =>
      obtain ⟨hx, hxs⟩ := hs
      exact ⟨(heq x List.mem_cons_self).trans hx,
        ih hxs fun y hy => heq y (List.mem_cons_of_mem _ hy)⟩

/-- A segment is put together from two. -/
theorem seg_append {prev next : Option ν} {xs ys : List ν} :
    h.Seg l prev (xs ++ ys) next ↔
      h.Seg l prev xs (ys.head?.or next) ∧ h.Seg l (xs.getLast?.or prev) ys next := by
  induction xs generalizing prev with
  | nil => simp [Seg]
  | cons x xs ih =>
      have hlast : ((x :: xs).getLast?).or prev = xs.getLast?.or (some x) := by
        cases xs with
        | nil => rfl
        | cons y ys => simp [List.getLast?_cons]
      have hhead : (xs ++ ys).head?.or next = xs.head?.or (ys.head?.or next) := by
        rw [List.head?_append, Option.or_assoc]
      rw [List.cons_append, hlast]
      simp only [Seg, ih, hhead, and_assoc]

/-- The nodes of a segment are on its list. -/
theorem Seg.pLink {prev next : Option ν} {xs : List ν} (hs : h.Seg l prev xs next) {x : ν}
    (hx : x ∈ xs) : (h.node x).pLink = some l := by
  induction xs generalizing prev with
  | nil => cases hx
  | cons y xs ih =>
      obtain ⟨hy, hxs⟩ := hs
      obtain rfl | hx := List.mem_cons.mp hx
      · rw [hy]
      · exact ih hxs hx

namespace Represents

/-- A node on a list points to it. -/
theorem pLink (hr : h.Represents lists) {x : ν} (hx : x ∈ lists l) :
    (h.node x).pLink = some l :=
  (hr.holds l).seg.pLink hx

/-- A node is on one list at most. -/
theorem eq_of_mem (hr : h.Represents lists) {l' : ℓ} {x : ν} (hx : x ∈ lists l)
    (hx' : x ∈ lists l') : l = l' :=
  Option.some.inj ((hr.pLink hx).symm.trans (hr.pLink hx'))

/-- The pointer of a node to its list tells whether it is on a list, and on which. -/
theorem pLink_eq_some_iff (hr : h.Represents lists) {x : ν} :
    (h.node x).pLink = some l ↔ x ∈ lists l := by
  constructor
  · intro hl
    by_contra hx
    by_cases hany : ∃ l', x ∈ lists l'
    · obtain ⟨l', hl'⟩ := hany
      rw [hr.pLink hl'] at hl
      cases hl
      exact hx hl'
    · rw [hr.free x fun l' hl' => hany ⟨l', hl'⟩] at hl
      cases hl
  · exact hr.pLink

end Represents

/-! ## Updates of single pointers -/

section Updates

variable [DecidableEq ν]

/-- The node that is written. -/
@[simp] theorem setNode_node_self (x : ν) (n : Node ν ℓ) : (h.setNode x n).node x = n :=
  Function.update_self ..

/-- The other nodes are left alone. -/
theorem setNode_node_of_ne {x y : ν} (hne : y ≠ x) (n : Node ν ℓ) :
    (h.setNode x n).node y = h.node y :=
  Function.update_of_ne hne ..

/-- Lists are left alone when a node is written. -/
@[simp] theorem setNode_link (x : ν) (n : Node ν ℓ) : (h.setNode x n).link = h.link := rfl

/-- They are so when its `pPrev` is. -/
@[simp] theorem setPrev_link (x : ν) (p : Option ν) : (h.setPrev x p).link = h.link := rfl

/-- They are so when its `pNext` is. -/
@[simp] theorem setNext_link (x : ν) (p : Option ν) : (h.setNext x p).link = h.link := rfl

/-- A node whose `pPrev` is written is the only one that changes. -/
theorem setPrev_node_of_ne {x y : ν} (hne : y ≠ x) (p : Option ν) :
    (h.setPrev x p).node y = h.node y :=
  setNode_node_of_ne hne _

/-- So is one whose `pNext` is written. -/
theorem setNext_node_of_ne {x y : ν} (hne : y ≠ x) (p : Option ν) :
    (h.setNext x p).node y = h.node y :=
  setNode_node_of_ne hne _

/-- The last node of a segment may be linked to another successor. -/
theorem Seg.setNext {prev next : Option ν} {xs : List ν} {x : ν}
    (hs : h.Seg l prev (xs ++ [x]) next) (hx : x ∉ xs) (next' : Option ν) :
    (h.setNext x next').Seg l prev (xs ++ [x]) next' := by
  rw [seg_append] at hs ⊢
  refine ⟨hs.1.congr fun y hy => ?_, ?_, trivial⟩
  · exact setNext_node_of_ne (ne_of_mem_of_not_mem hy hx) _
  · rw [Heap.setNext, setNode_node_self, hs.2.1]
    rfl

/-- The first node of a segment may be linked to another predecessor. -/
theorem Seg.setPrev {prev next : Option ν} {xs : List ν} {x : ν}
    (hs : h.Seg l prev (x :: xs) next) (hx : x ∉ xs) (prev' : Option ν) :
    (h.setPrev x prev').Seg l prev' (x :: xs) next := by
  refine ⟨?_, hs.2.congr fun y hy => ?_⟩
  · rw [Heap.setPrev, setNode_node_self, hs.1]
  · exact setPrev_node_of_ne (ne_of_mem_of_not_mem hy hx) _

end Updates

section LinkUpdates

variable [DecidableEq ℓ]

/-- Nodes are left alone when a list is written. -/
@[simp] theorem setLink_node (k : Link ν) : (h.setLink l k).node = h.node := rfl

/-- The list that is written. -/
@[simp] theorem setLink_link_self (k : Link ν) : (h.setLink l k).link l = k :=
  Function.update_self ..

/-- The other lists are left alone. -/
theorem setLink_link_of_ne {l' : ℓ} (hne : l' ≠ l) (k : Link ν) :
    (h.setLink l k).link l' = h.link l' :=
  Function.update_of_ne hne ..

/-- A heap in which one list was changed and the others were left alone represents the family with
that list changed. -/
theorem Represents.update (hr : h.Represents lists) {xs : List ν} (hxs : h'.Holds l xs)
    (hnodup : xs.Nodup) (hlink : ∀ l', l' ≠ l → h'.link l' = h.link l')
    (hnode : ∀ l', l' ≠ l → ∀ y ∈ lists l', h'.node y = h.node y)
    (hfree : ∀ y, y ∉ xs → (∀ l', l' ≠ l → y ∉ lists l') → (h'.node y).pLink = none) :
    h'.Represents (Function.update lists l xs) where
  holds l' := by
    by_cases hl : l' = l
    · subst hl
      rw [Function.update_self]
      exact hxs
    · rw [Function.update_of_ne hl]
      have hold := hr.holds l'
      exact ⟨(hlink l' hl ▸ hold.head :), (hlink l' hl ▸ hold.tail :),
        hold.seg.congr (hnode l' hl)⟩
  nodup l' := by
    by_cases hl : l' = l
    · subst hl
      rwa [Function.update_self]
    · rw [Function.update_of_ne hl]
      exact hr.nodup l'
  free y hy := by
    refine hfree y ?_ fun l' hl => ?_
    · simpa using hy l
    · simpa [Function.update_of_ne hl] using hy l'

end LinkUpdates

/-! ## What the operations do -/

section Specification

variable [DecidableEq ν] [DecidableEq ℓ]

/-- Appending a node that is on no list. -/
theorem Represents.addTail (hr : h.Represents lists) (l : ℓ) {x : ν} (hx : ∀ l', x ∉ lists l') :
    (h.addTail l x).Represents (Function.update lists l (lists l ++ [x])) := by
  have hold := hr.holds l
  have hother : ∀ {y : ν} {l' : ℓ}, y ∈ lists l' → y ≠ x := fun hy heq => hx _ (heq ▸ hy)
  have hnodup : (lists l ++ [x]).Nodup :=
    List.Nodup.append (hr.nodup l) (List.nodup_singleton x) (by simpa using hx l)
  rw [Heap.addTail, if_neg (by simp [hr.free x hx])]
  obtain hnil | ⟨xs, t, hxs⟩ := (lists l).eq_nil_or_concat'
  · -- the node becomes the only one of the list
    have htail : (h.link l).tail = none := by rw [hold.tail, hnil]; rfl
    rw [hnil] at hnodup ⊢
    simp only [htail]
    refine hr.update ⟨by simp, by simp, ?_, trivial⟩ hnodup (fun l' hl => ?_) (fun l' _ y hy => ?_)
      fun y hy hfree => ?_
    · simp
    · simp [setLink_link_of_ne hl]
    · simp [setNode_node_of_ne (hother hy)]
    · have hne : y ≠ x := by simpa using hy
      rw [setLink_node, setNode_node_of_ne hne]
      refine hr.free y fun l' hl' => ?_
      by_cases hl : l' = l
      · rw [hl, hnil] at hl'
        cases hl'
      · exact hfree l' hl hl'
  · -- the last node gets a successor
    have htail : (h.link l).tail = some t := by rw [hold.tail, hxs]; simp
    have hseg := hold.seg
    have hnd := hr.nodup l
    rw [hxs] at hseg hnd hnodup ⊢
    simp only [htail]
    have ht : t ∉ xs := fun hm => (List.nodup_append.mp hnd).2.2 t hm t (by simp) rfl
    have htmem : t ∈ lists l := by rw [hxs]; simp
    refine hr.update ⟨?_, by simp, ?_⟩ hnodup (fun l' hl => ?_) (fun l' hl y hy => ?_)
      fun y hy hfree => ?_
    · rw [setLink_link_self, hold.head, hxs]
      cases xs <;> simp
    · rw [seg_append]
      refine ⟨((hseg.setNext ht (some x)).congr fun y hy => ?_), ?_, trivial⟩
      · have hy' : y ∈ lists l := by rw [hxs]; exact hy
        simp [setNode_node_of_ne (hother hy')]
      · simp
    · simp [setLink_link_of_ne hl]
    · have hyt : y ≠ t := fun heq => hl (hr.eq_of_mem (heq ▸ hy) htmem)
      simp [setNode_node_of_ne (hother hy), setNext_node_of_ne hyt]
    · simp only [List.mem_append, List.mem_singleton, not_or] at hy
      rw [setLink_node, setNode_node_of_ne hy.2, setNext_node_of_ne hy.1.2]
      refine hr.free y fun l' hl' => ?_
      by_cases hl : l' = l
      · rw [hl, hxs] at hl'
        simp [hy.1] at hl'
      · exact hfree l' hl hl'

/-- Taking the first node off a list. -/
theorem Represents.popHead (hr : h.Represents lists) (l : ℓ) :
    (h.popHead l).Represents (Function.update lists l (lists l).tail) := by
  have hold := hr.holds l
  cases hxs : lists l with
  | nil =>
      have hhead : (h.link l).head = none := by rw [hold.head, hxs]; rfl
      rw [Heap.popHead, hhead, List.tail_nil, ← hxs, Function.update_eq_self]
      exact hr
  | cons x xs =>
      have hhead : (h.link l).head = some x := by rw [hold.head, hxs]; rfl
      have hseg := hold.seg
      have hnd := hr.nodup l
      rw [hxs] at hseg hnd
      obtain ⟨hx, hnd⟩ := List.nodup_cons.mp hnd
      have hmem : x ∈ lists l := by rw [hxs]; simp
      have hne : ∀ {y : ν} {l' : ℓ}, l' ≠ l → y ∈ lists l' → y ∉ x :: xs := by
        intro y l' hl hy hy'
        exact hl (hr.eq_of_mem hy (by rw [hxs]; exact hy'))
      -- the node that is taken off is on no list any more, the others stay
      have hfree : ∀ y, y ∉ x :: xs → (∀ l', l' ≠ l → y ∉ lists l') →
          (h.node y).pLink = none := by
        intro y hy hother
        refine hr.free y fun l' hl' => ?_
        by_cases hl : l' = l
        · rw [hl, hxs] at hl'
          exact hy hl'
        · exact hother l' hl hl'
      rw [Heap.popHead, hhead, List.tail_cons]
      simp only
      cases xs with
      | nil =>
          rw [if_pos (by rw [hold.tail, hxs]; rfl)]
          refine hr.update ⟨by simp, by simp, trivial⟩ hnd (fun l' hl => ?_)
            (fun l' hl y hy => ?_) fun y _ hother => ?_
          · simp [setLink_link_of_ne hl]
          · rw [setNode_node_of_ne (fun heq => hne hl hy (by simp [heq])), setLink_node]
          · by_cases hyx : y = x
            · rw [hyx, setNode_node_self]
            · rw [setNode_node_of_ne hyx, setLink_node]
              exact hfree y (by simpa using hyx) hother
      | cons y ys =>
          have hnext : (h.node x).pNext = some y := by rw [hseg.1]; rfl
          have hlast : some x ≠ (h.link l).tail := by
            rw [hold.tail, hxs]
            intro heq
            rw [List.getLast?_cons_cons] at heq
            exact hx (List.mem_of_getLast? heq.symm)
          rw [if_neg hlast, hnext]
          have hyx : y ≠ x := fun heq => hx (by simp [heq])
          have hy := (List.nodup_cons.mp hnd).1
          refine hr.update ⟨by simp, ?_, ?_⟩ hnd (fun l' hl => ?_) (fun l' hl z hz => ?_)
            fun z hz hother => ?_
          · simp only [setPrev_link, setNode_link, setLink_link_self]
            rw [hold.tail, hxs, List.getLast?_cons_cons]
          · have hseg' : ((h.setLink l { h.link l with head := some y }).setNode x
                ⟨none, none, none⟩).Seg l (some x) (y :: ys) none := by
              refine hseg.2.congr fun z hz => ?_
              rw [setNode_node_of_ne (ne_of_mem_of_not_mem hz hx), setLink_node]
            exact hseg'.setPrev hy none
          · simp [setLink_link_of_ne hl]
          · have hz' := hne hl hz
            simp only [List.mem_cons, not_or] at hz'
            rw [setPrev_node_of_ne hz'.2.1, setNode_node_of_ne hz'.1, setLink_node]
          · have hzy : z ≠ y := fun heq => hz (by simp [heq])
            rw [setPrev_node_of_ne hzy]
            by_cases hzx : z = x
            · rw [hzx, setNode_node_self]
            · rw [setNode_node_of_ne hzx, setLink_node]
              exact hfree z (by simpa [hzx] using hz) hother

omit [DecidableEq ℓ] in
/-- The loop of `Join` puts the nodes of a segment on another list. -/
theorem relink_ok {l l' : ℓ} {fuel : Nat} {prev : Option ν} {xs : List ν}
    (hs : h.Seg l' prev xs none) (hnd : xs.Nodup) (hfuel : xs.length ≤ fuel) :
    ∃ h', relink l fuel h xs.head? = some h' ∧ h'.Seg l prev xs none ∧ h'.link = h.link ∧
      ∀ y, y ∉ xs → h'.node y = h.node y := by
  induction xs generalizing h fuel prev with
  | nil =>
      refine ⟨h, ?_, trivial, rfl, fun _ _ => rfl⟩
      cases fuel <;> rfl
  | cons x xs ih =>
      obtain ⟨fuel, rfl⟩ : ∃ n, fuel = n + 1 := ⟨fuel - 1, by simp at hfuel; omega⟩
      obtain ⟨hnode, hseg⟩ := hs
      obtain ⟨hx, hnd⟩ := List.nodup_cons.mp hnd
      have hstep : (h.setPLink x (some l)).Seg l' (some x) xs none :=
        hseg.congr fun y hy => setNode_node_of_ne (ne_of_mem_of_not_mem hy hx) _
      obtain ⟨h', hrel, hseg', hlink, hother⟩ := ih hstep hnd (by simpa using hfuel)
      refine ⟨h', ?_, ⟨?_, hseg'⟩, hlink, fun y hy => ?_⟩
      · rw [List.head?_cons, relink, hnode, Option.or_none]
        exact hrel
      · rw [hother x hx, setPLink, setNode_node_self, hnode]
      · simp only [List.mem_cons, not_or] at hy
        rw [hother y hy.2]
        exact setNode_node_of_ne hy.1 _

omit [DecidableEq ν] in
/-- A heap in which the nodes of one list were put behind those of another. -/
theorem Represents.merge (hr : h.Represents lists) {l l' : ℓ} (hne : l ≠ l')
    (hseg : h'.Seg l none (lists l ++ lists l') none)
    (hlink : h'.link l = ⟨(lists l ++ lists l').head?, (lists l ++ lists l').getLast?⟩)
    (hempty : h'.link l' = ⟨none, none⟩)
    (hlinks : ∀ k, k ≠ l → k ≠ l' → h'.link k = h.link k)
    (hnodes : ∀ z, z ∉ lists l → z ∉ lists l' → h'.node z = h.node z) :
    h'.Represents (Function.update (Function.update lists l (lists l ++ lists l')) l' []) where
  holds k := by
    by_cases hk' : k = l'
    · subst hk'
      rw [Function.update_self]
      exact ⟨congrArg Link.head hempty, congrArg Link.tail hempty, trivial⟩
    · rw [Function.update_of_ne hk']
      by_cases hk : k = l
      · subst hk
        rw [Function.update_self]
        exact ⟨congrArg Link.head hlink, congrArg Link.tail hlink, hseg⟩
      · rw [Function.update_of_ne hk]
        have hold := hr.holds k
        refine ⟨(hlinks k hk hk' ▸ hold.head :), (hlinks k hk hk' ▸ hold.tail :),
          hold.seg.congr fun z hz => ?_⟩
        exact hnodes z (fun hz' => hk (hr.eq_of_mem hz hz')) fun hz' => hk' (hr.eq_of_mem hz hz')
  nodup k := by
    by_cases hk' : k = l'
    · simp [hk']
    · rw [Function.update_of_ne hk']
      by_cases hk : k = l
      · rw [hk, Function.update_self]
        exact (hr.nodup l).append (hr.nodup l') fun z hz hz' => hne (hr.eq_of_mem hz hz')
      · rw [Function.update_of_ne hk]
        exact hr.nodup k
  free z hz := by
    have hz₁ := hz l
    rw [Function.update_of_ne hne, Function.update_self, List.mem_append, not_or] at hz₁
    rw [hnodes z hz₁.1 hz₁.2]
    refine hr.free z fun k hk => ?_
    by_cases hkl' : k = l'
    · exact hz₁.2 (hkl' ▸ hk)
    · by_cases hkl : k = l
      · exact hz₁.1 (hkl ▸ hk)
      · have hzk := hz k
        rw [Function.update_of_ne hkl', Function.update_of_ne hkl] at hzk
        exact hzk hk

/-- Appending all nodes of another list. -/
theorem Represents.join (hr : h.Represents lists) {l l' : ℓ} (hne : l ≠ l') {fuel : Nat}
    (hfuel : (lists l').length ≤ fuel) :
    ∃ h', h.join fuel l l' = some h' ∧
      h'.Represents (Function.update (Function.update lists l (lists l ++ lists l')) l' []) := by
  have hold := hr.holds l
  have hold' := hr.holds l'
  cases hys : lists l' with
  | nil =>
      -- there is nothing to append
      refine ⟨h, ?_, ?_⟩
      · rw [Heap.join, hold'.head, hys]
        rfl
      · rw [List.append_nil, Function.update_eq_self, ← hys, Function.update_eq_self]
        exact hr
  | cons y ys =>
      -- the loop has told all nodes which list they are on
      obtain ⟨h₁, hrel, hseg₁, hlink₁, hother₁⟩ :=
        relink_ok (l := l) hold'.seg (hr.nodup l') hfuel
      have hhead : (lists l').head? = some y := by rw [hys]; rfl
      have hy : y ∉ ys := (List.nodup_cons.mp (hys ▸ hr.nodup l')).1
      -- it has left the other list alone, as the two have no nodes in common
      have hseg₂ : h₁.Seg l none (lists l) none := by
        refine hold.seg.congr fun z hz => hother₁ z fun hz' => ?_
        exact hne (hr.eq_of_mem hz hz')
      rw [hhead] at hrel
      rw [Heap.join, hold'.head, hhead]
      simp only [hrel, Option.bind_eq_bind, Option.bind_some]
      refine ⟨_, rfl, ?_⟩
      rw [← hys]
      obtain hnil | ⟨xs, t, hxs⟩ := (lists l).eq_nil_or_concat'
      · -- the nodes become those of the list
        have htail : (h.link l).tail = none := by rw [hold.tail, hnil]; rfl
        simp only [htail]
        refine hr.merge hne ?_ ?_ (by simp) (fun k hk hk' => ?_) fun z _ hz => hother₁ z hz
        · rw [hnil, List.nil_append]
          exact hseg₁.congr fun _ _ => rfl
        · rw [setLink_link_of_ne hne, setLink_link_self, hnil, List.nil_append, ← hold'.head,
            ← hold'.tail]
        · rw [setLink_link_of_ne hk', setLink_link_of_ne hk, hlink₁]
      · -- its last node is linked to the first one of the other list
        have htail : (h.link l).tail = some t := by rw [hold.tail, hxs]; simp
        have htmem : t ∈ lists l := by rw [hxs]; simp
        have hymem : y ∈ lists l' := by rw [hys]; simp
        have ht : t ∉ xs := fun hm =>
          (List.nodup_append.mp (hxs ▸ hr.nodup l)).2.2 t hm t (by simp) rfl
        simp only [htail]
        refine hr.merge hne ?_ ?_ (by simp) (fun k hk hk' => ?_) fun z hz hz' => ?_
        · rw [seg_append]
          rw [hxs] at hseg₂
          rw [hys] at hseg₁
          constructor
          · rw [hxs, hhead]
            refine (hseg₂.setNext ht (some y)).congr fun z hz => ?_
            have hzy : z ≠ y := fun heq => hne (hr.eq_of_mem (hxs ▸ hz) (heq ▸ hymem))
            simp only [setLink_node]
            exact setPrev_node_of_ne hzy _
          · rw [hys, hxs, List.getLast?_concat]
            have hseg₃ : (h₁.setNext t (some y)).Seg l none (y :: ys) none := by
              refine hseg₁.congr fun z hz => setNext_node_of_ne (fun heq => ?_) _
              exact hne (hr.eq_of_mem htmem (by rw [hys, ← heq]; exact hz))
            exact (hseg₃.setPrev hy (some t)).congr fun _ _ => rfl
        · rw [setLink_link_of_ne hne, setLink_link_self, hold.head, hold'.tail, hxs, hys]
          cases xs <;> simp [List.getLast?_append, List.getLast?_cons]
        · rw [setLink_link_of_ne hk', setLink_link_of_ne hk]
          exact congrFun hlink₁ k
        · simp only [setLink_node]
          rw [setPrev_node_of_ne (ne_of_mem_of_not_mem hymem hz').symm,
            setNext_node_of_ne (ne_of_mem_of_not_mem htmem hz).symm, hother₁ z hz']

/-- A node in the middle of a list, with what is in front of it and behind it. -/
structure Between (h : Heap ν ℓ) (l : ℓ) (as : List ν) (x : ν) (bs : List ν) : Prop where
  node : h.node x = ⟨as.getLast?, bs.head?, some l⟩
  nodup : (as ++ x :: bs).Nodup

namespace Between

variable {as bs : List ν} {x : ν}

omit [DecidableEq ν] [DecidableEq ℓ] in
/-- A node is neither in front of itself nor behind itself. -/
theorem notMem (hb : h.Between l as x bs) : x ∉ as ∧ x ∉ bs := by
  have hnd := hb.nodup
  rw [List.nodup_append] at hnd
  refine ⟨fun hx => hnd.2.2 x hx x (by simp) rfl, (List.nodup_cons.mp hnd.2.1).1⟩

/-- After the first half of `RemoveFromLink`, what is in front is linked to what is behind. -/
theorem unlinkNext (hb : h.Between l as x bs) (hold : h.Holds l (as ++ x :: bs)) :
    (h.unlinkNext l x).Between l as x bs ∧
      (h.unlinkNext l x).link l = ⟨(as ++ bs).head?, (as ++ x :: bs).getLast?⟩ ∧
      (h.unlinkNext l x).Seg l none as bs.head? ∧
      (∃ prev, (h.unlinkNext l x).Seg l prev bs none) ∧
      (∀ k, k ≠ l → (h.unlinkNext l x).link k = h.link k) ∧
      ∀ z, z ∉ as → z ∉ bs → (h.unlinkNext l x).node z = h.node z := by
  obtain ⟨hxa, hxb⟩ := hb.notMem
  obtain ⟨hsa, hsx, hsb⟩ := seg_append.mp hold.seg
  have hnd := List.nodup_append.mp hb.nodup
  obtain rfl | ⟨as, a, rfl⟩ := as.eq_nil_or_concat'
  · -- it is the first node, so the list gets another head
    have hhead : (h.link l).head = some x := hold.head
    have hlink : h.link l = ⟨some x, (x :: bs).getLast?⟩ := by
      rw [← hhead, ← List.nil_append (x :: bs), ← hold.tail]
    rw [Heap.unlinkNext, if_pos hhead, hb.node]
    cases bs with
    | nil =>
        refine ⟨⟨hb.node, hb.nodup⟩, ?_, trivial, ⟨none, trivial⟩, fun k hk => ?_, fun _ _ _ => rfl⟩
        · simp [hlink]
        · exact setLink_link_of_ne hk _
    | cons b bs =>
        have hbb : b ∉ bs := (List.nodup_cons.mp (List.nodup_cons.mp hb.nodup).2).1
        have hxb' : x ≠ b := fun heq => hxb (by simp [heq])
        refine ⟨⟨?_, hb.nodup⟩, ?_, trivial, ⟨none, ?_⟩, fun k hk => ?_, fun z _ hz => ?_⟩
        · simp only [List.head?_cons]
          rw [setPrev_node_of_ne hxb', setLink_node, hb.node]
          rfl
        · simp [hlink]
        · exact (hsb.setPrev hbb none).congr fun _ _ => rfl
        · simp only [List.head?_cons, setPrev_link]
          exact setLink_link_of_ne hk _
        · simp only [List.head?_cons]
          rw [setPrev_node_of_ne (fun heq => hz (by simp [heq])), setLink_node]
  · -- the node in front of it gets its successor
    have hhead : (h.link l).head ≠ some x := by
      rw [hold.head]
      intro heq
      cases as <;> simp_all
    rw [Heap.unlinkNext, if_neg hhead, hb.node]
    simp only [List.getLast?_concat]
    have ha : a ∉ as := fun hm => (List.nodup_append.mp hnd.1).2.2 a hm a (by simp) rfl
    have hab : ∀ {z : ν}, z ∈ x :: bs → z ≠ a := fun hz heq =>
      hnd.2.2 a (by simp) _ (heq ▸ hz) rfl
    refine ⟨⟨?_, hb.nodup⟩, ?_, hsa.setNext ha _, ⟨some x, hsb.congr fun z hz => ?_⟩,
      fun _ _ => rfl, fun z hz _ => ?_⟩
    · rw [setNext_node_of_ne (hab List.mem_cons_self), hb.node, List.getLast?_concat]
    · rw [setNext_link, ← hold.tail]
      have hh : (h.link l).head = (as ++ [a] ++ bs).head? := by
        rw [hold.head]
        cases as <;> simp
      rw [← hh]
    · exact setNext_node_of_ne (hab (List.mem_cons_of_mem _ hz)) _
    · exact setNext_node_of_ne (fun heq => hz (by simp [heq])) _

/-- After the second half, what is behind is linked to what is in front. -/
theorem unlinkPrev (hb : h.Between l as x bs) (htail : (h.link l).tail = (as ++ x :: bs).getLast?)
    (hsa : h.Seg l none as bs.head?) {prev : Option ν} (hsb : h.Seg l prev bs none) :
    ∃ h', h.unlinkPrev l x = some h' ∧
      h'.link l = ⟨(h.link l).head, (as ++ bs).getLast?⟩ ∧
      h'.Seg l none (as ++ bs) none ∧ (∀ k, k ≠ l → h'.link k = h.link k) ∧
      ∀ z, z ∉ as → z ∉ bs → h'.node z = h.node z := by
  obtain ⟨hxa, hxb⟩ := hb.notMem
  have hnd := List.nodup_append.mp hb.nodup
  rw [Heap.unlinkPrev, hb.node]
  cases bs with
  | nil =>
      -- it is the last node, so the list gets another tail
      rw [if_pos (by rw [htail]; simp)]
      simp only [List.append_nil]
      obtain rfl | ⟨as, a, rfl⟩ := as.eq_nil_or_concat'
      · refine ⟨_, rfl, by simp, trivial, fun k hk => setLink_link_of_ne hk _, fun _ _ _ => rfl⟩
      · have ha : a ∉ as := fun hm => (List.nodup_append.mp hnd.1).2.2 a hm a (by simp) rfl
        simp only [List.getLast?_concat]
        refine ⟨_, rfl, by simp, ?_, fun k hk => setLink_link_of_ne hk _, fun z hz _ => ?_⟩
        · exact (hsa.setNext ha none).congr fun _ _ => rfl
        · exact setNext_node_of_ne (fun heq => hz (by simp [heq])) _
  | cons b bs =>
      -- the node behind it gets its predecessor
      have hlast : (h.link l).tail ≠ some x := by
        rw [htail, List.getLast?_append_cons, List.getLast?_cons_cons]
        exact fun heq => hxb (List.mem_of_getLast? heq)
      have hbb : b ∉ bs := (List.nodup_cons.mp (List.nodup_cons.mp hnd.2.1).2).1
      rw [if_neg hlast]
      simp only [List.head?_cons]
      refine ⟨_, rfl, ?_, ?_, fun _ _ => rfl, fun z _ hz => ?_⟩
      · have hlink : (as ++ x :: b :: bs).getLast? = (as ++ b :: bs).getLast? := by
          rw [List.getLast?_append_cons, List.getLast?_append_cons, List.getLast?_cons_cons]
        rw [setPrev_link, ← hlink, ← htail]
      · rw [seg_append]
        refine ⟨hsa.congr fun z hz => ?_, ?_⟩
        · exact setPrev_node_of_ne (fun heq => hnd.2.2 z hz b (by simp) heq) _
        · rw [Option.or_none]
          exact hsb.setPrev hbb _
      · exact setPrev_node_of_ne (fun heq => hz (by simp [heq])) _

end Between

/-- Taking a node off the list it is on, if it is on one. -/
theorem Represents.removeFromLink (hr : h.Represents lists) (x : ν) :
    ∃ h', h.removeFromLink x = some h' ∧ h'.Represents fun l => (lists l).erase x := by
  rw [Heap.removeFromLink]
  cases hlink : (h.node x).pLink with
  | none =>
      -- a node without a list is on none, and nothing is done
      have hx : ∀ l, x ∉ lists l := by
        intro l hx
        rw [hr.pLink hx] at hlink
        cases hlink
      refine ⟨h, rfl, ?_⟩
      have herase : (fun l => (lists l).erase x) = lists := by
        funext l
        exact List.erase_of_not_mem (hx l)
      rw [herase]
      exact hr
  | some l =>
      have hx : x ∈ lists l := hr.pLink_eq_some_iff.mp hlink
      have hother : ∀ k, k ≠ l → x ∉ lists k := fun k hk hx' => hk (hr.eq_of_mem hx' hx)
      obtain ⟨as, bs, hxs⟩ := List.append_of_mem hx
      have hold := hr.holds l
      have hnd := hr.nodup l
      rw [hxs] at hold hnd
      obtain ⟨-, hnode, -⟩ := seg_append.mp hold.seg
      -- the two halves of the code, one after the other
      have hb : h.Between l as x bs := ⟨by simpa using hnode, hnd⟩
      have hxa := hb.notMem.1
      obtain ⟨hb₁, hlink₁, hsa₁, ⟨prev, hsb₁⟩, hlinks₁, hnodes₁⟩ := hb.unlinkNext hold
      obtain ⟨h₂, hprev, hlink₂, hseg₂, hlinks₂, hnodes₂⟩ :=
        hb₁.unlinkPrev (by rw [hlink₁]) hsa₁ hsb₁
      have hguard : (h.link l).head.isSome ∧ (h.link l).tail.isSome := by
        rw [hold.head, hold.tail]
        simp
      refine ⟨h₂.setNode x ⟨none, none, none⟩, ?_, ?_⟩
      · simp only [if_pos hguard, hprev]
        rfl
      · -- only its own list is changed
        have herase : (fun k => (lists k).erase x) = Function.update lists l (as ++ bs) := by
          funext k
          by_cases hk : k = l
          · rw [hk, Function.update_self, hxs, List.erase_append_right _ hxa, List.erase_cons_head]
          · rw [Function.update_of_ne hk, List.erase_of_not_mem (hother k hk)]
        have hsub : (as ++ bs).Nodup := hnd.sublist (by simp)
        have hx' : x ∉ as ++ bs := by simpa using hb.notMem
        have hmem : ∀ {y : ν}, y ∉ as ++ bs → y ≠ x → y ∉ lists l := by
          intro y hy hne hyl
          rw [hxs, List.mem_append, List.mem_cons] at hyl
          obtain hya | hyx | hyb := hyl
          · exact hy (List.mem_append_left _ hya)
          · exact hne hyx
          · exact hy (List.mem_append_right _ hyb)
        -- nodes of other lists, and free ones, are left alone
        have hkeep : ∀ {y : ν}, y ∉ as ++ bs → y ≠ x →
            (h₂.setNode x ⟨none, none, none⟩).node y = h.node y := by
          intro y hy hne
          rw [List.mem_append, not_or] at hy
          rw [setNode_node_of_ne hne, hnodes₂ y hy.1 hy.2, hnodes₁ y hy.1 hy.2]
        rw [herase]
        refine hr.update ⟨?_, ?_, ?_⟩ hsub (fun k hk => ?_) (fun k hk y hy => ?_)
          fun y hy hfree => ?_
        · rw [setNode_link, hlink₂, hlink₁]
        · rw [setNode_link, hlink₂]
        · exact hseg₂.congr fun z hz => setNode_node_of_ne (ne_of_mem_of_not_mem hz hx') _
        · rw [setNode_link, hlinks₂ k hk, hlinks₁ k hk]
        · refine hkeep (fun hy' => hk (hr.eq_of_mem hy ?_)) fun heq => hother k hk (heq ▸ hy)
          rw [hxs]
          exact List.mem_append.mpr ((List.mem_append.mp hy').imp id (List.mem_cons_of_mem x))
        · by_cases hyx : y = x
          · rw [hyx, setNode_node_self]
          · rw [hkeep hy hyx]
            refine hr.free y fun k hyk => ?_
            by_cases hk : k = l
            · exact hmem hy hyx (hk ▸ hyk)
            · exact hfree k hk hyk

end Specification

end Heap

end Libco

end FastCgi
