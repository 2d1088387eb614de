import Mathlib.Data.List.Basic
import Mathlib.Tactic.Common

/-! # Loading a map from a list with duplicate keys

A list of keys and values may name a key more than once. Which value a map holds that was loaded
from it depends on how: entries that **overwrite** leave the last value of each key
(`getElem?_overwrite`), entries that are **inserted if new** leave the first (`getElem?_insertNew`).
The two ways agree iff they agree on every key (`overwrite_eq_insertNew_iff`), and a map loaded from
its own list of entries is the map itself (`overwrite_toList`). -/

namespace Assoc

variable {α β : Type*} [DecidableEq α] {cmp : α → α → Ordering} [Std.TransCmp cmp]

/-- The value of an entry, if it is for the key `k`. -/
def valueFor (k : α) (entry : α × β) : Option β := if entry.1 = k then some entry.2 else none

/-- The value of the first entry for a key. -/
def firstOf (k : α) (entries : List (α × β)) : Option β := entries.findSome? (valueFor k)

/-- The value of the last entry for a key. -/
def lastOf (k : α) (entries : List (α × β)) : Option β := entries.reverse.findSome? (valueFor k)

/-- Every entry replaces what was there for its key. -/
def overwrite (m : Std.ExtTreeMap α β cmp) (entries : List (α × β)) : Std.ExtTreeMap α β cmp :=
  entries.foldl (fun m entry => m.insert entry.1 entry.2) m

/-- An entry is dropped when its key is there. -/
def insertNew (m : Std.ExtTreeMap α β cmp) (entries : List (α × β)) : Std.ExtTreeMap α β cmp :=
  entries.foldl (fun m entry => m.insertIfNew entry.1 entry.2) m

theorem firstOf_cons (k : α) (entry : α × β) (entries : List (α × β)) :
    firstOf k (entry :: entries) = (valueFor k entry).or (firstOf k entries) := by
  rw [firstOf, List.findSome?_cons]
  cases valueFor k entry <;> rfl

theorem lastOf_cons (k : α) (entry : α × β) (entries : List (α × β)) :
    lastOf k (entry :: entries) = (lastOf k entries).or (valueFor k entry) := by
  rw [lastOf, List.reverse_cons, List.findSome?_append, List.findSome?_singleton]
  rfl

/-- A value that is found belongs to an entry for the key. -/
theorem mem_of_lastOf {k : α} {v : β} {entries : List (α × β)} (h : lastOf k entries = some v) :
    (k, v) ∈ entries := by
  obtain ⟨entry, hmem, hvalue⟩ := List.exists_of_findSome?_eq_some h
  rw [valueFor] at hvalue
  split at hvalue
  · rename_i hkey
    cases hvalue
    rw [← hkey]
    exact List.mem_reverse.mp hmem
  · cases hvalue

/-- Every entry makes its key be found. -/
theorem exists_lastOf_of_mem {k : α} {v : β} {entries : List (α × β)} (h : (k, v) ∈ entries) :
    ∃ v', lastOf k entries = some v' := by
  rw [← Option.isSome_iff_exists, lastOf, List.findSome?_isSome_iff]
  exact ⟨(k, v), List.mem_reverse.mpr h, by simp [valueFor]⟩

section Lookup

variable [Std.LawfulEqCmp cmp] (m : Std.ExtTreeMap α β cmp)

/-- **Overwriting leaves the last value** of each key. -/
theorem getElem?_overwrite (entries : List (α × β)) (k : α) :
    (overwrite m entries)[k]? = (lastOf k entries).or m[k]? := by
  induction entries generalizing m with
  | nil => rfl
  | cons entry entries ih =>
      have hstep : (m.insert entry.1 entry.2)[k]? = (valueFor k entry).or m[k]? := by
        simp only [Std.ExtTreeMap.getElem?_insert, valueFor, Std.LawfulEqCmp.compare_eq_iff_eq]
        split <;> rfl
      have hrest : overwrite m (entry :: entries) = overwrite (m.insert entry.1 entry.2) entries :=
        rfl
      rw [hrest, ih, hstep, lastOf_cons, Option.or_assoc]

/-- **Inserting new keys leaves the first value** of each key. -/
theorem getElem?_insertNew (entries : List (α × β)) (k : α) :
    (insertNew m entries)[k]? = m[k]?.or (firstOf k entries) := by
  induction entries generalizing m with
  | nil =>
      rw [firstOf, List.findSome?_nil, Option.or_none]
      rfl
  | cons entry entries ih =>
      have hstep : (m.insertIfNew entry.1 entry.2)[k]? = m[k]?.or (valueFor k entry) := by
        simp only [Std.ExtTreeMap.getElem?_insertIfNew, valueFor,
          Std.LawfulEqCmp.compare_eq_iff_eq]
        by_cases hkey : entry.1 = k
        · subst hkey
          by_cases hmem : entry.1 ∈ m
          · rw [if_neg (fun h => h.2 hmem), if_pos rfl,
              Std.ExtTreeMap.getElem?_eq_some_getElem hmem]
            rfl
          · rw [if_pos ⟨rfl, hmem⟩, if_pos rfl, Std.ExtTreeMap.getElem?_eq_none hmem]
            rfl
        · rw [if_neg (fun h => hkey h.1), if_neg hkey, Option.or_none]
      have hrest : insertNew m (entry :: entries)
          = insertNew (m.insertIfNew entry.1 entry.2) entries := rfl
      rw [hrest, ih, hstep, firstOf_cons, Option.or_assoc]

/-- **The two ways of loading a list agree** iff the first and the last value of each key do. -/
theorem overwrite_eq_insertNew_iff (entries : List (α × β)) :
    overwrite (∅ : Std.ExtTreeMap α β cmp) entries = insertNew ∅ entries ↔
      ∀ k, firstOf k entries = lastOf k entries := by
  constructor
  · intro h k
    have hk := congrArg (fun m => m[k]?) h
    simp only [getElem?_overwrite, getElem?_insertNew, Std.ExtTreeMap.getElem?_empty,
      Option.or_none, Option.none_or] at hk
    exact hk.symm
  · intro h
    apply Std.ExtTreeMap.ext_getElem?
    intro k
    rw [getElem?_overwrite, getElem?_insertNew, Std.ExtTreeMap.getElem?_empty, Option.or_none,
      Option.none_or, h k]

/-- A map is what its own entries load. -/
theorem overwrite_toList : overwrite ∅ m.toList = m := by
  apply Std.ExtTreeMap.ext_getElem?
  intro k
  rw [getElem?_overwrite, Std.ExtTreeMap.getElem?_empty, Option.or_none]
  cases hlast : lastOf k m.toList with
  | some v => exact (Std.ExtTreeMap.mem_toList_iff_getElem?_eq_some.mp (mem_of_lastOf hlast)).symm
  | none =>
      cases hk : m[k]? with
      | none => rfl
      | some v =>
          obtain ⟨v', hv'⟩ :=
            exists_lastOf_of_mem (Std.ExtTreeMap.mem_toList_iff_getElem?_eq_some.mpr hk)
          rw [hlast] at hv'
          cases hv'

end Lookup

end Assoc
