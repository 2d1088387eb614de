import FastCgi.Record

/-! # Name-value pairs

The `PARAMS` stream of a request is a sequence of name-value pairs, each written as the length of
the name, the length of the value, the name and the value. A length of at most 127 may be written
in one byte; in the four-byte form the top bit is set and the other 31 bits are the length.

`Pair` records a pair together with the forms its lengths are written in, and `pairFormat` is the
self-delimiting format of pairs. -/

namespace FastCgi

/-- `ParamMap`, `std::map<string, string>`. -/
abbrev ParamMap := Std.ExtTreeMap Bytes Bytes

/-! ## Lengths -/

/-- The form a length is written in. -/
inductive LengthForm
  | oneByte
  | fourByte
  deriving DecidableEq, Repr

/-- Whether a length can be written in a form. -/
def LengthForm.Fits : LengthForm → Nat → Prop
  | .oneByte, n => n < 2 ^ 7
  | .fourByte, n => n < 2 ^ 31

instance (form : LengthForm) (n : Nat) : Decidable (form.Fits n) :=
  match form with
  | .oneByte => inferInstanceAs (Decidable (n < 2 ^ 7))
  | .fourByte => inferInstanceAs (Decidable (n < 2 ^ 31))

theorem LengthForm.Fits.lt {form : LengthForm} {n : Nat} (h : form.Fits n) : n < 2 ^ 31 := by
  cases form <;> simp only [Fits] at h <;> omega

/-- A length and the form it is written in. -/
structure FieldLength where
  form : LengthForm
  value : Nat
  fits : form.Fits value

namespace FieldLength

/-- The bytes of a length. -/
def encode (l : FieldLength) : Bytes :=
  match l.form with
  | .oneByte => [l.value.toUInt8]
  | .fourByte =>
    [(l.value / 2 ^ 24 + 128).toUInt8, (l.value / 2 ^ 16).toUInt8, (l.value / 2 ^ 8).toUInt8,
      l.value.toUInt8]

/-- The value of the four-byte form, `((B3 & 0x7f) << 24) + (B2 << 16) + (B1 << 8) + B0`. -/
def fourByteValue (b3 b2 b1 b0 : UInt8) : Nat :=
  2 ^ 24 * (b3.toNat - 128) + 2 ^ 16 * b2.toNat + 2 ^ 8 * b1.toNat + b0.toNat

theorem fourByteValue_lt (b3 b2 b1 b0 : UInt8) : fourByteValue b3 b2 b1 b0 < 2 ^ 31 := by
  have h3 := b3.toNat_lt
  have h2 := b2.toNat_lt
  have h1 := b1.toNat_lt
  have h0 := b0.toNat_lt
  rw [fourByteValue]
  omega

/-- Take the rest of a four-byte length off the front of a byte string. -/
def cutFourByte (b3 : UInt8) : Bytes → Option (FieldLength × Bytes)
  | b2 :: b1 :: b0 :: rest =>
    some (⟨.fourByte, fourByteValue b3 b2 b1 b0, fourByteValue_lt b3 b2 b1 b0⟩, rest)
  | _ => none

/-- Take a length off the front of a byte string. -/
def cut : Bytes → Option (FieldLength × Bytes)
  | [] => none
  | b3 :: rest =>
    if h : b3.toNat < 2 ^ 7 then some (⟨.oneByte, b3.toNat, h⟩, rest) else cutFourByte b3 rest

theorem cut_encode (l : FieldLength) (b : Bytes) : cut (l.encode ++ b) = some (l, b) := by
  obtain ⟨form, n, h⟩ := l
  cases form with
  | oneByte =>
      have hn : n < 2 ^ 7 := h
      have hlow : n.toUInt8.toNat = n := Record.toNat_toUInt8 (by omega)
      simp only [encode, List.singleton_append, cut, hlow, dif_pos hn]
  | fourByte =>
      have hn : n < 2 ^ 31 := h
      simp only [encode, List.cons_append, List.nil_append, cut, cutFourByte, fourByteValue,
        Nat.toUInt8_eq, UInt8.toNat_ofNat']
      rw [dif_neg (by omega)]
      simp only [Option.some.injEq, Prod.mk.injEq, FieldLength.mk.injEq, true_and, and_true]
      omega

theorem eq_of_cut {b rest : Bytes} {l : FieldLength} (h : cut b = some (l, rest)) :
    b = l.encode ++ rest := by
  cases b with
  | nil => cases h
  | cons b3 tail =>
      have h3 := b3.toNat_lt
      rw [cut] at h
      split at h
      · simp only [Option.some.injEq, Prod.mk.injEq] at h
        obtain ⟨rfl, rfl⟩ := h
        have hb : b3.toNat.toUInt8 = b3 := UInt8.toNat.inj (Record.toNat_toUInt8 h3)
        simp only [encode, hb, List.singleton_append]
      · match tail, h with
        | b2 :: b1 :: b0 :: tail, h =>
          have h2 := b2.toNat_lt
          have h1 := b1.toNat_lt
          have h0 := b0.toNat_lt
          simp only [cutFourByte, Option.some.injEq, Prod.mk.injEq] at h
          obtain ⟨rfl, rfl⟩ := h
          simp only [encode, List.cons_append, List.nil_append, List.cons.injEq, and_true]
          refine ⟨?_, ?_, ?_, ?_⟩ <;> apply UInt8.toNat.inj <;>
            simp only [fourByteValue, Nat.toUInt8_eq, UInt8.toNat_ofNat'] <;> omega
        | [], h | [_], h | [_, _], h => cases h

end FieldLength

/-- The format of lengths. -/
def lengthFormat : Framing.Format UInt8 FieldLength where
  encode := FieldLength.encode
  cut := FieldLength.cut
  cut_encode := FieldLength.cut_encode
  eq_of_cut := FieldLength.eq_of_cut
  encode_ne_nil l := by
    cases h : l.form <;> simp [FieldLength.encode, h]

/-! ## Pairs -/

/-- A **name-value pair** and the forms its two lengths are written in. -/
structure Pair where
  name : Bytes
  value : Bytes
  nameForm : LengthForm
  valueForm : LengthForm
  name_fits : nameForm.Fits name.length
  value_fits : valueForm.Fits value.length
  deriving DecidableEq, Repr

namespace Pair

/-- The length of the name, in the form it is written in. -/
def nameLength (p : Pair) : FieldLength := ⟨p.nameForm, p.name.length, p.name_fits⟩

/-- The length of the value, in the form it is written in. -/
def valueLength (p : Pair) : FieldLength := ⟨p.valueForm, p.value.length, p.value_fits⟩

/-- The bytes of a pair. -/
def encode (p : Pair) : Bytes :=
  p.nameLength.encode ++ (p.valueLength.encode ++ (p.name ++ p.value))

/-- The pair with the lengths `n` and `v` whose name and value start `body`. -/
def ofBody (n v : FieldLength) (body : Bytes) (h : n.value + v.value ≤ body.length) : Pair where
  name := body.take n.value
  value := (body.drop n.value).take v.value
  nameForm := n.form
  valueForm := v.form
  name_fits := by
    rw [List.length_take, min_eq_left (by omega)]
    exact n.fits
  value_fits := by
    rw [List.length_take, List.length_drop, min_eq_left (by omega)]
    exact v.fits

/-- Take the first pair off a byte string: both lengths must be there, and the bytes they
announce. -/
def cut (b : Bytes) : Option (Pair × Bytes) :=
  match FieldLength.cut b with
  | none => none
  | some (n, b) =>
    match FieldLength.cut b with
    | none => none
    | some (v, b) =>
      if h : n.value + v.value ≤ b.length then
        some (ofBody n v b h, b.drop (n.value + v.value))
      else none

theorem cut_encode (p : Pair) (b : Bytes) : cut (p.encode ++ b) = some (p, b) := by
  have hfits : p.nameLength.value + p.valueLength.value ≤ (p.name ++ (p.value ++ b)).length := by
    simp only [nameLength, valueLength, List.length_append]
    omega
  have hbody : ofBody p.nameLength p.valueLength (p.name ++ (p.value ++ b)) hfits = p := by
    simp [ofBody, nameLength, valueLength]
  simp only [cut, encode, List.append_assoc, FieldLength.cut_encode, dif_pos hfits, hbody]
  simp [nameLength, valueLength, List.drop_append]

theorem eq_of_cut {b rest : Bytes} {p : Pair} (h : cut b = some (p, rest)) :
    b = p.encode ++ rest := by
  rw [cut] at h
  split at h
  · cases h
  · rename_i n b₁ hn
    split at h
    · cases h
    · rename_i v b₂ hv
      split at h
      case isFalse => cases h
      case isTrue hle =>
        simp only [Option.some.injEq, Prod.mk.injEq] at h
        obtain ⟨rfl, rfl⟩ := h
        have hname : (ofBody n v b₂ hle).nameLength = n := by
          obtain ⟨form, k, hk⟩ := n
          simp only [ofBody, nameLength, FieldLength.mk.injEq, List.length_take, true_and]
          simp only at hle
          omega
        have hvalue : (ofBody n v b₂ hle).valueLength = v := by
          obtain ⟨form, k, hk⟩ := v
          simp only [ofBody, valueLength, FieldLength.mk.injEq, List.length_take,
            List.length_drop, true_and]
          simp only at hle
          omega
        rw [FieldLength.eq_of_cut hn, FieldLength.eq_of_cut hv, encode, hname, hvalue]
        simp only [ofBody, List.append_assoc]
        rw [← List.drop_drop, List.take_append_drop, List.take_append_drop]

end Pair

/-- **The format of name-value pairs.** -/
def pairFormat : Framing.Format UInt8 Pair where
  encode := Pair.encode
  cut := Pair.cut
  cut_encode := Pair.cut_encode
  eq_of_cut := Pair.eq_of_cut
  encode_ne_nil p := by
    have h := lengthFormat.encode_ne_nil p.nameLength
    intro hnil
    exact h (List.append_eq_nil_iff.mp hnil).1

/-- Store the pairs of a list in a map, in order: a later pair of the same name wins. -/
def storePairs (params : ParamMap) (pairs : List Pair) : ParamMap :=
  pairs.foldl (fun m p => m.insert p.name p.value) params

end FastCgi
