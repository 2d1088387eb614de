import FastCgi.Text.StdString

/-! # Where a pattern is found

A text that is put together from pieces is searched for a pattern that is known to stand at the
start of one of them. The lemmas here pass over the pieces in front of it, each for another reason
why the pattern cannot begin there: its first symbol does not occur (`indexOf_skip`), it does not
occur and cannot reach across the symbol that follows (`indexOf_past`), or it ends with that symbol
and the piece does not end with the rest of it (`indexOf_quoted`). -/

namespace StdString

variable {α : Type*} {pat q A B s : List α} {x : α} {i : Nat}

/-- A pattern without `x` does not reach across `x`. -/
theorem prefix_of_not_mem (hx : x ∉ pat) (h : pat <+: A ++ x :: B) : pat <+: A := by
  by_cases hlen : pat.length ≤ A.length
  · exact List.prefix_of_prefix_length_le h (List.prefix_append _ _) hlen
  · have hshort : A ++ [x] <+: pat := by
      refine List.prefix_of_prefix_length_le ⟨B, by simp⟩ h ?_
      rw [List.length_append, List.length_singleton]
      omega
    exact absurd (hshort.subset (by simp)) hx

/-- Two pieces without `x` that are in front of the same `x` are the same. -/
theorem eq_of_prefix_of_not_mem (hq : x ∉ q) (hA : x ∉ A) (h : q ++ [x] <+: A ++ x :: B) :
    q = A := by
  have hA' : A ++ [x] <+: A ++ x :: B := ⟨B, by simp⟩
  rcases Nat.lt_trichotomy q.length A.length with hlt | heq | hgt
  · have hshort : q ++ [x] <+: A :=
      List.prefix_of_prefix_length_le h (List.prefix_append _ _) (by simp; omega)
    exact absurd (hshort.subset (by simp)) hA
  · exact (List.prefix_of_prefix_length_le ((List.prefix_append q [x]).trans h)
      ((List.prefix_append A [x]).trans hA') heq.le).eq_of_length heq
  · have hshort : A ++ [x] <+: q :=
      List.prefix_of_prefix_length_le hA' ((List.prefix_append q [x]).trans h) (by simp; omega)
    exact absurd (hshort.subset (by simp)) hq

variable [DecidableEq α]

/-- A pattern in front of a text is found at once. -/
theorem indexOf_self_append (pat s : List α) : indexOf pat (pat ++ s) = some 0 := by
  cases pat with
  | nil => cases s <;> simp [indexOf]
  | cons x pat =>
      rw [List.cons_append, indexOf, if_pos]
      exact List.isPrefixOf_iff_prefix.mpr (List.prefix_append _ _)

/-- A pattern that is found in a piece is found where it is in front of any text. -/
theorem indexOf_of_piece (h : indexOf pat s = some i) (t : List α) :
    indexOf pat (s ++ t) = some i :=
  (indexOf_append (length_of_indexOf h)).mpr h

/-- A step over a symbol at which the pattern does not begin. -/
theorem indexOf_cons_of_ne (h : ¬ pat <+: x :: s) :
    indexOf pat (x :: s) = (indexOf pat s).map (· + 1) := by
  rw [indexOf, if_neg]
  rwa [List.isPrefixOf_iff_prefix]

/-- A piece without the first symbol of the pattern. -/
theorem indexOf_skip (h : x ∉ A) (s : List α) :
    indexOf (x :: pat) (A ++ s) = (indexOf (x :: pat) s).map (A.length + ·) := by
  induction A with
  | nil => simp
  | cons a A ih =>
      obtain ⟨hne, hA⟩ := not_or.mp (mt List.mem_cons.mpr h)
      have hnot : ¬ (x :: pat) <+: a :: (A ++ s) := fun hpre =>
        hne (List.cons_prefix_cons.mp hpre).1
      rw [List.cons_append, indexOf_cons_of_ne hnot, ih hA, Option.map_map, List.length_cons]
      congr 1
      funext j
      simp only [Function.comp_apply]
      omega

/-- The pattern behind a piece without its first symbol. -/
theorem indexOf_behind (h : x ∉ A) (s : List α) :
    indexOf (x :: pat) (A ++ (x :: pat ++ s)) = some A.length := by
  rw [indexOf_skip h, indexOf_self_append]
  rfl

/-- A piece in which the start of the pattern does not occur, and a symbol that is not in that. -/
theorem indexOf_past_append (hx : x ∉ pat) (h : ¬ pat <:+: A) (q B : List α) :
    indexOf (pat ++ q) (A ++ x :: B) = (indexOf (pat ++ q) B).map (A.length + 1 + ·) := by
  induction A with
  | nil =>
      have hnot : ¬ pat ++ q <+: x :: B := fun hpre =>
        h (prefix_of_not_mem (A := []) hx ((List.prefix_append pat q).trans hpre)).isInfix
      rw [List.nil_append, indexOf_cons_of_ne hnot]
      congr 1
      funext j
      simp only [List.length_nil]
      omega
  | cons a A ih =>
      have hnot : ¬ pat ++ q <+: a :: (A ++ x :: B) := fun hpre =>
        h (prefix_of_not_mem (A := a :: A) hx ((List.prefix_append pat q).trans hpre)).isInfix
      have hA : ¬ pat <:+: A := fun hin => h (hin.trans (List.infix_cons List.infix_rfl))
      rw [List.cons_append, indexOf_cons_of_ne hnot, ih hA, Option.map_map, List.length_cons]
      congr 1
      funext j
      simp only [Function.comp_apply]
      omega

/-- A piece in which the pattern does not occur, and a symbol that is not in the pattern. -/
theorem indexOf_past (hx : x ∉ pat) (h : ¬ pat <:+: A) (B : List α) :
    indexOf pat (A ++ x :: B) = (indexOf pat B).map (A.length + 1 + ·) := by
  have hpast := indexOf_past_append hx h [] B
  rwa [List.append_nil] at hpast

/-- A piece that does not end with what is in front of the last symbol of the pattern, and that
symbol. -/
theorem indexOf_quoted (hq : x ∉ q) (hA : x ∉ A) (h : ¬ q <:+ A) (B : List α) :
    indexOf (q ++ [x]) (A ++ x :: B) = (indexOf (q ++ [x]) B).map (A.length + 1 + ·) := by
  induction A with
  | nil =>
      have hnot : ¬ q ++ [x] <+: x :: B := by
        intro hpre
        obtain rfl := eq_of_prefix_of_not_mem (A := []) hq hA hpre
        exact h List.suffix_rfl
      rw [List.nil_append, indexOf_cons_of_ne hnot]
      congr 1
      funext j
      simp only [List.length_nil]
      omega
  | cons a A ih =>
      have hnot : ¬ q ++ [x] <+: a :: (A ++ x :: B) := by
        intro hpre
        obtain rfl := eq_of_prefix_of_not_mem (A := a :: A) hq hA hpre
        exact h List.suffix_rfl
      have hA' : x ∉ A := fun hmem => hA (List.mem_cons_of_mem _ hmem)
      have hsuffix : ¬ q <:+ A := fun hs => h (hs.trans (List.suffix_cons a A))
      rw [List.cons_append, indexOf_cons_of_ne hnot, ih hA' hsuffix, Option.map_map,
        List.length_cons]
      congr 1
      funext j
      simp only [Function.comp_apply]
      omega

/-- A pattern that does not fit into a text is not found. -/
theorem find_eq_none_of_length_lt (s : List α) (pos : Nat) (h : s.length < pos + pat.length) :
    find s pat pos = none := by
  rw [Option.eq_none_iff_forall_ne_some]
  intro q hq
  have hle := le_of_find hq
  omega

/-- A symbol is found behind a piece without it. -/
theorem find_symbol {pos : Nat} (h : s.drop pos = A ++ x :: B) (hA : x ∉ A) :
    find s [x] pos = some (pos + A.length) := by
  rw [find_eq (by simp), h, show x :: B = [x] ++ B from rfl, indexOf_behind hA]
  rfl

/-- A symbol that does not occur is not found. -/
theorem find_symbol_eq_none {pos : Nat} (h : x ∉ s.drop pos) : find s [x] pos = none := by
  rw [find_eq (by simp), indexOf_eq_none_iff.mpr]
  · rfl
  · exact fun hin => h (hin.subset (by simp))

end StdString
