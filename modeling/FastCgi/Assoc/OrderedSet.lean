import Mathlib.Data.List.Sort
import Mathlib.Tactic.Common

/-! # Ordered sets

A set over a linear order that is iterated in increasing order, as `std::set` is: a strictly
increasing list. The elements below a bound are its front (`before`), and the rest is a set again
(`since`). What the operations do is said by membership (`mem_insert`, `mem_erase`, `mem_before`,
`mem_since`), and `card_eq_of_map` compares the sizes of two sets. -/

namespace Assoc

/-- An **ordered set**: its elements in increasing order. -/
structure OrderedSet (α : Type*) [LinearOrder α] where
  toList : List α
  sorted : toList.Pairwise (· < ·)

namespace OrderedSet

variable {α β : Type*} [LinearOrder α] [LinearOrder β]

/-- An element is one of the list. -/
instance : Membership α (OrderedSet α) := ⟨fun s x => x ∈ s.toList⟩

/-- Membership is decided on the list, so that sets can be computed with. -/
instance (x : α) (s : OrderedSet α) : Decidable (x ∈ s) :=
  inferInstanceAs (Decidable (x ∈ s.toList))

/-- Membership in terms of the list, for the lemmas about it that there are. -/
theorem mem_def {x : α} {s : OrderedSet α} : x ∈ s ↔ x ∈ s.toList := Iff.rfl

/-- The empty set. -/
def empty : OrderedSet α := ⟨[], .nil⟩

/-- The number of elements, the `size` of `std::set`. -/
def card (s : OrderedSet α) : Nat := s.toList.length

/-- The first element, which is the least one, if there is any: `begin` of `std::set`. -/
def first? (s : OrderedSet α) : Option α := s.toList.head?

variable (s : OrderedSet α) (x : α)

/-- No element stands in the list twice. -/
theorem nodup : s.toList.Nodup := s.sorted.imp ne_of_lt

/-- A new element that is put in its place leaves the list increasing; it is to be new, as the list
would have it twice otherwise. -/
theorem sorted_orderedInsert (h : x ∉ s) :
    (s.toList.orderedInsert (· ≤ ·) x).Pairwise (· < ·) := by
  have hle : (s.toList.orderedInsert (· ≤ ·) x).Pairwise (· ≤ ·) :=
    (s.sorted.imp le_of_lt).orderedInsert x _
  have hnodup : (s.toList.orderedInsert (· ≤ ·) x).Nodup :=
    (List.perm_orderedInsert _ x s.toList).nodup_iff.mpr (List.nodup_cons.mpr ⟨h, s.nodup⟩)
  exact (hle.and hnodup).imp fun h => lt_of_le_of_ne h.1 h.2

/-- Add an element in its place, unless it is there. -/
def insert : OrderedSet α :=
  if h : x ∈ s then s else ⟨s.toList.orderedInsert (· ≤ ·) x, s.sorted_orderedInsert x h⟩

/-- Remove an element, if it is there. -/
def erase : OrderedSet α := ⟨s.toList.filter (· ≠ x), s.sorted.filter _⟩

/-- The elements below a bound, in order: those in front of `lower_bound`. -/
def before : List α := s.toList.filter (· < x)

/-- The elements that are not below a bound: what is left when those in front of `lower_bound` are
erased. -/
def since : OrderedSet α := ⟨s.toList.filter (x ≤ ·), s.sorted.filter _⟩

variable {s x} {y : α}

/-- The empty set has no elements. -/
@[simp] theorem not_mem_empty : x ∉ (empty : OrderedSet α) := List.not_mem_nil

/-- What is in a set after an insertion, whether or not the element was there. -/
@[simp] theorem mem_insert : y ∈ s.insert x ↔ y = x ∨ y ∈ s := by
  rw [insert]
  split
  · rename_i h
    exact ⟨.inr, fun hy => hy.elim (fun heq => heq ▸ h) id⟩
  · exact List.mem_orderedInsert _

/-- What is in a set after an element was removed, whether or not it was there. -/
@[simp] theorem mem_erase : y ∈ s.erase x ↔ y ≠ x ∧ y ∈ s := by
  simp [mem_def, erase, and_comm]

/-- The front of a set has exactly the elements below the bound. -/
@[simp] theorem mem_before : y ∈ s.before x ↔ y < x ∧ y ∈ s := by
  simp [mem_def, before, and_comm]

/-- The rest has exactly the others. -/
@[simp] theorem mem_since : y ∈ s.since x ↔ x ≤ y ∧ y ∈ s := by
  simp [mem_def, since, and_comm]

/-- No element stands in the front twice. -/
theorem nodup_before : (s.before x).Nodup := s.nodup.filter _

/-- The front of a set is in order, as the set is. -/
theorem sorted_before : (s.before x).Pairwise (· < ·) := s.sorted.filter _

/-- Two sets with the same elements are the same: there is one increasing list of them. -/
theorem ext {t : OrderedSet α} (h : ∀ y, y ∈ s ↔ y ∈ t) : s = t := by
  have hperm : s.toList.Perm t.toList := (List.perm_ext_iff_of_nodup s.nodup t.nodup).mpr h
  have heq : s.toList = t.toList :=
    hperm.eq_of_pairwise (fun a b _ _ hab hba => absurd (hab.trans hba) (lt_irrefl a)) s.sorted
      t.sorted
  cases s
  cases t
  cases heq
  rfl

/-- There is no first element iff there is no element. -/
theorem first?_eq_none_iff : s.first? = none ↔ ∀ y, y ∉ s := by
  rw [first?, List.head?_eq_none_iff, List.eq_nil_iff_forall_not_mem]
  rfl

/-- The first element is the least. -/
theorem first?_eq_some_iff : s.first? = some x ↔ x ∈ s ∧ ∀ y ∈ s, x ≤ y := by
  rcases s with ⟨l, hl⟩
  cases l with
  | nil => simp [first?, mem_def]
  | cons a l =>
      rw [List.pairwise_cons] at hl
      constructor
      · intro h
        obtain rfl : a = x := Option.some.inj h
        refine ⟨List.mem_cons_self, fun y hy => ?_⟩
        rcases List.mem_cons.mp hy with rfl | hy
        · exact le_rfl
        · exact (hl.1 y hy).le
      · rintro ⟨hx, hle⟩
        rcases List.mem_cons.mp hx with rfl | hx
        · rfl
        · exact absurd (hl.1 x hx) (not_lt.mpr (hle a List.mem_cons_self))

/-- A set is as large as another one that its elements are mapped to, one to one. -/
theorem card_eq_of_map {t : OrderedSet β} (f : α → β)
    (hinj : ∀ x ∈ s, ∀ y ∈ s, f x = f y → x = y) (h : ∀ y, y ∈ t ↔ ∃ x ∈ s, f x = y) :
    s.card = t.card := by
  have hnodup : (s.toList.map f).Nodup := s.nodup.map_on fun x hx y hy => hinj x hx y hy
  have hperm : (s.toList.map f).Perm t.toList := by
    rw [List.perm_ext_iff_of_nodup hnodup t.nodup]
    intro y
    rw [List.mem_map]
    exact (h y).symm
  rw [card, card, ← hperm.length_eq, List.length_map]

end OrderedSet

end Assoc
