import Mathlib.Data.List.Basic
import Mathlib.Data.List.Flatten
import Mathlib.Data.List.Infix
import Mathlib.Tactic.Common

/-! # Self-delimiting formats and incremental framing

A **format** is a self-delimiting code on strings over `α`: `encode` writes one frame, `cut` takes
the first complete frame off a string, and the two invert each other in front of any tail. From
these laws alone this file derives the theory of *incremental* decoding:

* `frames b` cuts `b` into its complete frames and an unfinished rest (`frames_of_cut_some`,
  `frames_of_cut_none`), and the rest holds no further frame (`cut_frames_snd`);
* `frames_append`: cutting `b ++ c` at once, or cutting `b` first and then its rest followed by
  `c`, yields the same frames and the same rest;
* `feed` drives a state machine by the frames of a growing input, and `feed_append` makes it
  independent of how that input was segmented;
* `frames_prefix`: of a concatenation of encoded frames, a strict prefix yields a strict prefix of
  the frame list. -/

namespace Framing

variable {α ρ σ : Type*}

/-- A **self-delimiting format**: frames of type `ρ` written on strings over `α`. -/
structure Format (α ρ : Type*) where
  /-- The string of one frame. -/
  encode : ρ → List α
  /-- Take the first complete frame off a string, if there is one. -/
  cut : List α → Option (ρ × List α)
  /-- `cut` recovers an encoded frame in front of any tail. -/
  cut_encode : ∀ r b, cut (encode r ++ b) = some (r, b)
  /-- What `cut` takes off is the encoding of the frame it returns. -/
  eq_of_cut : ∀ {b r rest}, cut b = some (r, rest) → b = encode r ++ rest
  /-- No frame is written on the empty string. -/
  encode_ne_nil : ∀ r, encode r ≠ []

namespace Format

variable (F : Format α ρ)

/-- A frame that can be cut off stays the first frame when the input grows. -/
theorem cut_append {b rest : List α} {r : ρ} (h : F.cut b = some (r, rest)) (c : List α) :
    F.cut (b ++ c) = some (r, rest ++ c) := by
  rw [F.eq_of_cut h, List.append_assoc, F.cut_encode]

/-- Cutting a frame shortens the input. -/
theorem length_lt_of_cut {b rest : List α} {r : ρ} (h : F.cut b = some (r, rest)) :
    rest.length < b.length := by
  have hpos : 0 < (F.encode r).length := List.length_pos_iff.mpr (F.encode_ne_nil r)
  rw [F.eq_of_cut h, List.length_append]
  omega

/-- The empty string holds no frame. -/
@[simp] theorem cut_nil : F.cut [] = none := by
  cases h : F.cut [] with
  | none => rfl
  | some p =>
      obtain ⟨r, rest⟩ := p
      exact absurd (F.length_lt_of_cut h) (by simp)

/-- Cut at most `n` frames off `b`. -/
def framesFuel : Nat → List α → List ρ × List α
  | 0, b => ([], b)
  | n + 1, b =>
    match F.cut b with
    | none => ([], b)
    | some (r, rest) => (r :: (framesFuel n rest).1, (framesFuel n rest).2)

/-- The complete frames of `b`, in order, and the unfinished rest. Every frame takes at least one
symbol, so `b.length` rounds suffice (`framesFuel_of_length_le`). -/
def frames (b : List α) : List ρ × List α := F.framesFuel b.length b

/-- Rounds beyond the length of the input change nothing. -/
theorem framesFuel_of_length_le {n m : Nat} {b : List α} (hn : b.length ≤ n) (hm : b.length ≤ m) :
    F.framesFuel n b = F.framesFuel m b := by
  induction n generalizing m b with
  | zero =>
      obtain rfl : b = [] := List.length_eq_zero_iff.mp (Nat.le_zero.mp hn)
      cases m <;> simp [framesFuel]
  | succ n ih =>
      cases m with
      | zero =>
          obtain rfl : b = [] := List.length_eq_zero_iff.mp (Nat.le_zero.mp hm)
          simp [framesFuel]
      | succ m =>
          cases h : F.cut b with
          | none => simp [framesFuel, h]
          | some p =>
              obtain ⟨r, rest⟩ := p
              have hlt := F.length_lt_of_cut h
              have hfuel : F.framesFuel n rest = F.framesFuel m rest := ih (by omega) (by omega)
              simp only [framesFuel, h, hfuel]

/-- An input without a complete frame is its own rest. -/
theorem frames_of_cut_none {b : List α} (h : F.cut b = none) : F.frames b = ([], b) := by
  rw [frames]
  cases hb : b.length with
  | zero => rfl
  | succ n => simp [framesFuel, h]

/-- An input with a complete frame is that frame followed by the frames of what is left. -/
theorem frames_of_cut_some {b rest : List α} {r : ρ} (h : F.cut b = some (r, rest)) :
    F.frames b = (r :: (F.frames rest).1, (F.frames rest).2) := by
  have hlt := F.length_lt_of_cut h
  obtain ⟨n, hn⟩ : ∃ n, b.length = n + 1 := ⟨b.length - 1, by omega⟩
  rw [frames, frames, hn]
  simp only [framesFuel, h]
  rw [F.framesFuel_of_length_le (n := n) (m := rest.length) (by omega) le_rfl]

@[simp] theorem frames_nil : F.frames [] = ([], []) := F.frames_of_cut_none F.cut_nil

/-- Induction along the frames of an input: either no frame can be cut off, or one frame is and
the claim holds of what is left. -/
theorem frames_induction {motive : List α → Prop}
    (stop : ∀ b, F.cut b = none → motive b)
    (step : ∀ b r rest, F.cut b = some (r, rest) → motive rest → motive b) (b : List α) :
    motive b := by
  induction hn : b.length using Nat.strong_induction_on generalizing b with
  | _ n ih =>
      cases h : F.cut b with
      | none => exact stop b h
      | some p =>
          obtain ⟨r, rest⟩ := p
          have hlt := F.length_lt_of_cut h
          exact step b r rest h (ih _ (by omega) _ rfl)

/-- The input is the encoded frames followed by the rest. -/
theorem flatMap_encode_frames (b : List α) :
    (F.frames b).1.flatMap F.encode ++ (F.frames b).2 = b := by
  induction b using F.frames_induction with
  | stop b h => rw [F.frames_of_cut_none h]; rfl
  | step b r rest h ih =>
      rw [F.frames_of_cut_some h, List.flatMap_cons, List.append_assoc, ih]
      exact (F.eq_of_cut h).symm

/-- **The rest is unfinished**: no frame can be cut off it. -/
theorem cut_frames_snd (b : List α) : F.cut (F.frames b).2 = none := by
  induction b using F.frames_induction with
  | stop b h => rw [F.frames_of_cut_none h]; exact h
  | step b r rest h ih => rw [F.frames_of_cut_some h]; exact ih

/-- **Framing is independent of segmentation.** The frames of `b ++ c` are the frames of `b`
followed by those of `b`'s rest with `c` appended. -/
theorem frames_append (b c : List α) :
    F.frames (b ++ c) = ((F.frames b).1 ++ (F.frames ((F.frames b).2 ++ c)).1,
      (F.frames ((F.frames b).2 ++ c)).2) := by
  induction b using F.frames_induction with
  | stop b h => rw [F.frames_of_cut_none h]; rfl
  | step b r rest h ih =>
      rw [F.frames_of_cut_some (F.cut_append h c), F.frames_of_cut_some h, ih]
      rfl

/-- Encoded frames in front of an input come out in front of its frames. -/
theorem frames_flatMap_encode_append (rs : List ρ) (b : List α) :
    F.frames (rs.flatMap F.encode ++ b) = (rs ++ (F.frames b).1, (F.frames b).2) := by
  induction rs with
  | nil => rfl
  | cons r rs ih =>
      rw [List.flatMap_cons, List.append_assoc,
        F.frames_of_cut_some (F.cut_encode r (rs.flatMap F.encode ++ b)), ih]
      rfl

/-- Decoding undoes encoding, with nothing left over. -/
theorem frames_flatMap_encode (rs : List ρ) : F.frames (rs.flatMap F.encode) = (rs, []) := by
  simpa using F.frames_flatMap_encode_append rs []

/-- The frames of an input are the longest list whose encoding starts it. -/
theorem prefix_frames {rs : List ρ} {b : List α} (h : rs.flatMap F.encode <+: b) :
    rs <+: (F.frames b).1 := by
  obtain ⟨rest, rfl⟩ := h
  rw [F.frames_flatMap_encode_append]
  exact List.prefix_append _ _

/-- **A prefix of an encoded frame list decodes to a prefix of the list**, and what is still to
come is the encoding of the frames that are missing. -/
theorem frames_prefix {rs : List ρ} {p q : List α} (h : p ++ q = rs.flatMap F.encode) :
    ∃ missing, rs = (F.frames p).1 ++ missing ∧
      (F.frames p).2 ++ q = missing.flatMap F.encode := by
  have happ := F.frames_append p q
  rw [h, F.frames_flatMap_encode] at happ
  simp only [Prod.mk.injEq] at happ
  obtain ⟨hrs, hrest⟩ := happ
  refine ⟨(F.frames ((F.frames p).2 ++ q)).1, hrs, ?_⟩
  have hround := F.flatMap_encode_frames ((F.frames p).2 ++ q)
  rw [← hrest, List.append_nil] at hround
  exact hround.symm

/-- As long as part of the input is missing, so is part of the frame list. -/
theorem frames_prefix_ne {missing : List ρ} {p q : List α}
    (h : (F.frames p).2 ++ q = missing.flatMap F.encode) (hq : q ≠ []) : missing ≠ [] := by
  rintro rfl
  rw [List.flatMap_nil, List.append_eq_nil_iff] at h
  exact hq h.2

/-! ## Feeding a state machine -/

variable (step : σ → ρ → σ)

/-- Append `chunk` to the pending input and let the state machine `step` take every frame that is
now complete. -/
def feed (s : σ × List α) (chunk : List α) : σ × List α :=
  ((F.frames (s.2 ++ chunk)).1.foldl step s.1, (F.frames (s.2 ++ chunk)).2)

/-- **Feeding is independent of segmentation.** -/
theorem feed_append (s : σ × List α) (b c : List α) :
    F.feed step (F.feed step s b) c = F.feed step s (b ++ c) := by
  simp only [feed]
  rw [← List.append_assoc, F.frames_append (s.2 ++ b) c, List.foldl_append]

/-- Feeding the pieces of an input one by one, and then one more piece. -/
theorem feed_foldl_feed (s : σ × List α) (chunks : List (List α)) (chunk : List α) :
    F.feed step (chunks.foldl (F.feed step) s) chunk = F.feed step s (chunks.flatten ++ chunk) := by
  induction chunks generalizing s with
  | nil => rfl
  | cons c chunks ih =>
      rw [List.foldl_cons, ih, F.feed_append, List.flatten_cons, List.append_assoc]

/-- Once the pending input has grown to encoded frames, all of them have been taken. -/
theorem feed_of_append_eq {s : σ × List α} {rs : List ρ} {b : List α}
    (h : s.2 ++ b = rs.flatMap F.encode) : F.feed step s b = (rs.foldl step s.1, []) := by
  rw [feed, h, F.frames_flatMap_encode]

end Format

end Framing
