import Mathlib.Data.List.Basic
import Mathlib.Data.List.Infix
import Mathlib.Tactic.Common
import FastCgi.Framing.Format

/-! # Strings as the C++ standard library has them

`std::string` as a list of symbols, with the two operations that depend on positions: `find` and
`substr`. Both work with `std::string::npos`, which is `none` here; `substr` throws when its
position lies behind the end.

A string that is searched for a separator again and again is cut into the pieces the separator
terminates. `terminatedBy` makes that a self-delimiting format, so that the incremental theory of
`Framing.Format` describes such loops; `cut_of_find_some` and `cut_of_find_none` connect it to
`find`. -/

namespace StdString

/-- The exceptions of the standard library that code over strings throws. -/
inductive Exception
  /-- `std::out_of_range`, thrown by `substr`. -/
  | outOfRange
  /-- `std::runtime_error`, with its text. -/
  | runtimeError (what : String)
  deriving DecidableEq, Repr

/-- The bytes of a string literal. -/
def literal (s : String) : List UInt8 := s.toList.map fun c => c.toNat.toUInt8

variable {α : Type*}

/-! ## Substrings -/

/-- `s.substr(pos, n)`: at most `n` symbols from `pos` on, all of them when `n` is `npos`. -/
def substr (s : List α) (pos : Nat) (n : Option Nat) : Except Exception (List α) :=
  if pos ≤ s.length then
    .ok (match n with
      | none => s.drop pos
      | some n => (s.drop pos).take n)
  else .error .outOfRange

/-- `pos + n` for a position that may be `npos`: there the sum wraps around to `n - 1`. -/
def addPos : Option Nat → Nat → Nat
  | some pos, n => pos + n
  | none, n => n - 1

/-- `pos - oldPos` as the length of a substring: when it wraps around, and when `pos` is `npos`, it
reaches beyond the end of every string. -/
def subPos : Option Nat → Nat → Option Nat
  | some pos, oldPos => if oldPos ≤ pos then some (pos - oldPos) else none
  | none, _ => none

theorem subPos_of_le {pos oldPos : Nat} (h : oldPos ≤ pos) :
    subPos (some pos) oldPos = some (pos - oldPos) := if_pos h

theorem substr_npos {s : List α} {pos : Nat} (h : pos ≤ s.length) :
    substr s pos none = .ok (s.drop pos) := if_pos h

theorem substr_some {s : List α} {pos : Nat} (h : pos ≤ s.length) (n : Nat) :
    substr s pos (some n) = .ok ((s.drop pos).take n) := if_pos h

/-- Within the string `substr` does not throw, whatever the length. -/
theorem substr_ok {s : List α} {pos : Nat} (h : pos ≤ s.length) (n : Option Nat) :
    ∃ t, substr s pos n = .ok t := ⟨_, if_pos h⟩

/-! ## Searching -/

variable [DecidableEq α]

/-- The first position at which `pat` occurs in `s`. -/
def indexOf (pat : List α) : List α → Option Nat
  | [] => if pat = [] then some 0 else none
  | x :: s => if pat.isPrefixOf (x :: s) then some 0 else (indexOf pat s).map (· + 1)

/-- `s.find(pat, pos)`: the first position from `pos` on at which `pat` occurs, or `npos`. -/
def find (s pat : List α) (pos : Nat) : Option Nat :=
  if pos ≤ s.length then (indexOf pat (s.drop pos)).map (pos + ·) else none

variable {pat s : List α} {i : Nat}

/-- A pattern that is found lies where it was found. -/
theorem append_of_indexOf (h : indexOf pat s = some i) :
    s = s.take i ++ (pat ++ s.drop (i + pat.length)) := by
  induction s generalizing i with
  | nil =>
      rw [indexOf] at h
      split at h
      · rename_i hpat
        simp [hpat]
      · cases h
  | cons x s ih =>
      rw [indexOf] at h
      split at h
      · rename_i hpre
        obtain ⟨t, ht⟩ := List.isPrefixOf_iff_prefix.mp hpre
        obtain rfl : 0 = i := Option.some.inj h
        rw [← ht]
        simp
      · obtain ⟨j, hj, rfl⟩ := Option.map_eq_some_iff.mp h
        rw [show j + 1 + pat.length = j + pat.length + 1 by omega, List.take_succ_cons,
          List.drop_succ_cons, List.cons_append, ← ih hj]

/-- A pattern that is found lies inside the string. -/
theorem length_of_indexOf (h : indexOf pat s = some i) : i + pat.length ≤ s.length := by
  induction s generalizing i with
  | nil =>
      rw [indexOf] at h
      split at h
      · rename_i hpat
        obtain rfl : 0 = i := Option.some.inj h
        simp [hpat]
      · cases h
  | cons x s ih =>
      rw [indexOf] at h
      split at h
      · rename_i hpre
        obtain rfl : 0 = i := Option.some.inj h
        rw [Nat.zero_add]
        exact (List.isPrefixOf_iff_prefix.mp hpre).length_le
      · obtain ⟨j, hj, rfl⟩ := Option.map_eq_some_iff.mp h
        have hle := ih hj
        rw [List.length_cons]
        omega

theorem isPrefixOf_append {t : List α} (h : pat.length ≤ s.length) :
    pat.isPrefixOf (s ++ t) = pat.isPrefixOf s := by
  rw [Bool.eq_iff_iff, List.isPrefixOf_iff_prefix, List.isPrefixOf_iff_prefix]
  constructor
  · intro hpre
    exact List.prefix_of_prefix_length_le hpre (List.prefix_append s t) h
  · intro hpre
    exact hpre.trans (List.prefix_append s t)

/-- What follows the first occurrence of a pattern does not matter. -/
theorem indexOf_append {t : List α} (h : i + pat.length ≤ s.length) :
    indexOf pat (s ++ t) = some i ↔ indexOf pat s = some i := by
  induction s generalizing i with
  | nil =>
      rw [List.length_nil, Nat.le_zero, Nat.add_eq_zero_iff, List.length_eq_zero_iff] at h
      obtain ⟨rfl, rfl⟩ := h
      cases t <;> simp [indexOf]
  | cons x s ih =>
      rw [List.cons_append, indexOf, indexOf, ← List.cons_append,
        isPrefixOf_append (s := x :: s) (by omega)]
      split
      · rfl
      · cases i with
        | zero => simp
        | succ i =>
            have hih := ih (i := i) (by rw [List.length_cons] at h; omega)
            simpa using hih

/-- Whether a pattern is found is whether it occurs. -/
theorem indexOf_eq_none_iff : indexOf pat s = none ↔ ¬ pat <:+: s := by
  induction s with
  | nil => simp [indexOf]
  | cons x s ih =>
      rw [indexOf, List.infix_cons_iff, ← List.isPrefixOf_iff_prefix]
      split
      · rename_i hpre
        simp [hpre]
      · rename_i hpre
        simp [hpre, ih]

/-- A pattern is searched for in what follows the start position. -/
theorem find_eq (hpat : pat ≠ []) (pos : Nat) :
    find s pat pos = (indexOf pat (s.drop pos)).map (pos + ·) := by
  rw [find]
  split
  · rfl
  · rename_i h
    rw [List.drop_eq_nil_of_le (by omega), indexOf, if_neg hpat]
    rfl

/-- A pattern that is found lies behind the start position and inside the string. -/
theorem le_of_find {pos q : Nat} (h : find s pat pos = some q) :
    pos ≤ q ∧ q + pat.length ≤ s.length := by
  rw [find] at h
  split at h
  · obtain ⟨i, hi, rfl⟩ := Option.map_eq_some_iff.mp h
    have hlen := length_of_indexOf hi
    rw [List.length_drop] at hlen
    omega
  · cases h

/-! ## Pieces terminated by a separator -/

/-- A piece in front of a separator: the separator does not occur before its end. -/
def Terminated (sep : List α) : Type _ := { p : List α // indexOf sep (p ++ sep) = some p.length }

theorem indexOf_take_append (h : indexOf pat s = some i) :
    indexOf pat (s.take i ++ pat) = some (s.take i).length := by
  have hlen := length_of_indexOf h
  have htake : (s.take i).length = i := by rw [List.length_take]; omega
  rw [append_of_indexOf h, ← List.append_assoc] at h
  rw [htake]
  exact (indexOf_append (by rw [List.length_append, htake])).mp h

/-- **The format of pieces terminated by a separator.** -/
def terminatedBy (sep : List α) (hsep : sep ≠ []) : Framing.Format α (Terminated sep) where
  encode p := p.1 ++ sep
  cut s :=
    match h : indexOf sep s with
    | none => none
    | some i => some (⟨s.take i, indexOf_take_append h⟩, s.drop (i + sep.length))
  cut_encode := by
    rintro ⟨p, hp⟩ b
    have hfound : indexOf sep (p ++ sep ++ b) = some p.length :=
      (indexOf_append (by rw [List.length_append])).mpr hp
    split
    · rename_i h
      rw [hfound] at h
      cases h
    · rename_i i h
      rw [hfound] at h
      obtain rfl : p.length = i := Option.some.inj h
      simp [List.append_assoc]
  eq_of_cut := by
    intro b p rest h
    split at h
    · cases h
    · rename_i i hi
      cases h
      rw [List.append_assoc]
      exact append_of_indexOf hi
  encode_ne_nil p := by
    intro h
    exact hsep (List.append_eq_nil_iff.mp h).2

variable {sep : List α} (hsep : sep ≠ []) {pos : Nat}

/-- When no separator is found from `pos` on, no further piece is terminated. -/
theorem cut_of_find_none (h : find s sep pos = none) :
    (terminatedBy sep hsep).cut (s.drop pos) = none := by
  rw [find_eq hsep, Option.map_eq_none_iff] at h
  simp only [terminatedBy]
  split
  · rfl
  · rename_i i hi
    rw [h] at hi
    cases hi

/-- The separator found from `pos` on terminates the next piece. -/
theorem cut_of_find_some {q : Nat} (h : find s sep pos = some q) :
    ∃ p : Terminated sep, p.1 = (s.drop pos).take (q - pos) ∧
      (terminatedBy sep hsep).cut (s.drop pos) = some (p, s.drop (q + sep.length)) := by
  rw [find_eq hsep] at h
  obtain ⟨i, hi, rfl⟩ := Option.map_eq_some_iff.mp h
  refine ⟨⟨_, indexOf_take_append hi⟩, ?_, ?_⟩
  · rw [show pos + i - pos = i by omega]
  · simp only [terminatedBy]
    split
    · rename_i hnone
      rw [hi] at hnone
      cases hnone
    · rename_i j hj
      rw [hi] at hj
      obtain rfl : i = j := Option.some.inj hj
      rw [List.drop_drop, Nat.add_assoc]

end StdString
