import Mathlib.Data.Nat.Bitwise
import Mathlib.Tactic.Common

/-! # Words in little-endian memory and their byte reversal

`load16`/`store16` and `load32`/`store32` relate a fixed-width word to the bytes a little-endian
host keeps it in, least significant byte first. `swap16` and `swap32` reverse those bytes. The
numeric reading of a loaded word is `toNat_load16`/`toNat_load32`; `swap16_load16` and
`swap32_load32` turn a swap after a load into a load in the opposite byte order. -/

namespace Words

/-! ## Sixteen bits -/

/-- The 16-bit word held in the bytes `b0 b1` of a little-endian host. -/
def load16 (b0 b1 : UInt8) : UInt16 := (b1.toUInt16 <<< 8) ||| b0.toUInt16

/-- The bytes of a 16-bit word in the memory of a little-endian host. -/
def store16 (x : UInt16) : List UInt8 := [x.toUInt8, (x >>> 8).toUInt8]

/-- Reverse the bytes of a 16-bit word. -/
def swap16 (x : UInt16) : UInt16 := load16 (x >>> 8).toUInt8 x.toUInt8

theorem toNat_load16 (b0 b1 : UInt8) :
    (load16 b0 b1).toNat = 256 * b1.toNat + b0.toNat := by
  have h0 := b0.toNat_lt
  have h1 := b1.toNat_lt
  have hor := Nat.two_pow_add_eq_or_of_lt (i := 8) (b := b0.toNat) (by omega) b1.toNat
  simp only [load16, UInt16.toNat_or, UInt16.toNat_shiftLeft, UInt8.toNat_toUInt16]
  rw [show (8 : UInt16).toNat % 16 = 8 from rfl, Nat.shiftLeft_eq, Nat.mod_eq_of_lt (by omega),
    Nat.mul_comm, ← hor]

theorem toNat_toUInt8 (x : UInt16) : x.toUInt8.toNat = x.toNat % 256 := by simp

theorem toNat_shiftRight8 (x : UInt16) : (x >>> 8).toUInt8.toNat = x.toNat / 256 := by
  have hx := x.toNat_lt
  rw [UInt16.toNat_toUInt8, UInt16.toNat_shiftRight, show (8 : UInt16).toNat % 16 = 8 from rfl,
    Nat.shiftRight_eq_div_pow]
  omega

/-- Storing a loaded word gives the bytes back. -/
theorem store16_load16 (b0 b1 : UInt8) : store16 (load16 b0 b1) = [b0, b1] := by
  have h0 := b0.toNat_lt
  have h1 := b1.toNat_lt
  have e0 : (load16 b0 b1).toUInt8 = b0 := by
    apply UInt8.toNat.inj
    rw [toNat_toUInt8, toNat_load16]
    omega
  have e1 : ((load16 b0 b1) >>> 8).toUInt8 = b1 := by
    apply UInt8.toNat.inj
    rw [toNat_shiftRight8, toNat_load16]
    omega
  rw [store16, e0, e1]

/-- Swapping a loaded word loads its bytes in the opposite order. -/
theorem swap16_load16 (b0 b1 : UInt8) : swap16 (load16 b0 b1) = load16 b1 b0 := by
  have h := store16_load16 b0 b1
  simp only [store16, List.cons.injEq, and_true] at h
  rw [swap16, h.1, h.2]

/-- A swapped word is stored most significant byte first. -/
theorem store16_swap16 (x : UInt16) : store16 (swap16 x) = [(x >>> 8).toUInt8, x.toUInt8] :=
  store16_load16 _ _

/-- A word whose value is that of a byte reversal is that byte reversal. -/
theorem eq_swap16_of_toNat {x y : UInt16} (h : y.toNat = 256 * (x.toNat % 256) + x.toNat / 256) :
    y = swap16 x := by
  apply UInt16.toNat.inj
  rw [h, swap16, toNat_load16, toNat_toUInt8, toNat_shiftRight8]

/-! ## Thirty-two bits -/

/-- The 32-bit word held in the bytes `b0 b1 b2 b3` of a little-endian host. -/
def load32 (b0 b1 b2 b3 : UInt8) : UInt32 :=
  (b3.toUInt32 <<< 24) ||| (b2.toUInt32 <<< 16) ||| (b1.toUInt32 <<< 8) ||| b0.toUInt32

/-- The `k`-th byte, counted from the least significant one, of a 32-bit word. -/
def byte32 (x : UInt32) (k : Nat) : UInt8 := (x >>> (8 * k).toUInt32).toUInt8

/-- The bytes of a 32-bit word in the memory of a little-endian host. -/
def store32 (x : UInt32) : List UInt8 := [byte32 x 0, byte32 x 1, byte32 x 2, byte32 x 3]

/-- Reverse the bytes of a 32-bit word. -/
def swap32 (x : UInt32) : UInt32 := load32 (byte32 x 3) (byte32 x 2) (byte32 x 1) (byte32 x 0)

theorem toNat_load32 (b0 b1 b2 b3 : UInt8) :
    (load32 b0 b1 b2 b3).toNat
      = 2 ^ 24 * b3.toNat + 2 ^ 16 * b2.toNat + 2 ^ 8 * b1.toNat + b0.toNat := by
  have h0 := b0.toNat_lt
  have h1 := b1.toNat_lt
  have h2 := b2.toNat_lt
  have h3 := b3.toNat_lt
  have o2 := Nat.two_pow_add_eq_or_of_lt (i := 24) (b := 2 ^ 16 * b2.toNat) (by omega) b3.toNat
  have o1 := Nat.two_pow_add_eq_or_of_lt (i := 16) (b := 2 ^ 8 * b1.toNat) (by omega)
    (2 ^ 8 * b3.toNat + b2.toNat)
  have o0 := Nat.two_pow_add_eq_or_of_lt (i := 8) (b := b0.toNat) (by omega)
    (2 ^ 16 * b3.toNat + 2 ^ 8 * b2.toNat + b1.toNat)
  simp only [load32, UInt32.toNat_or, UInt32.toNat_shiftLeft, UInt8.toNat_toUInt32]
  rw [show (24 : UInt32).toNat % 32 = 24 from rfl, show (16 : UInt32).toNat % 32 = 16 from rfl,
    show (8 : UInt32).toNat % 32 = 8 from rfl]
  simp only [Nat.shiftLeft_eq]
  rw [Nat.mod_eq_of_lt (by omega), Nat.mod_eq_of_lt (by omega), Nat.mod_eq_of_lt (by omega),
    Nat.mul_comm b3.toNat, Nat.mul_comm b2.toNat, Nat.mul_comm b1.toNat, ← o2,
    show 2 ^ 24 * b3.toNat + 2 ^ 16 * b2.toNat = 2 ^ 16 * (2 ^ 8 * b3.toNat + b2.toNat) by omega,
    ← o1, show 2 ^ 16 * (2 ^ 8 * b3.toNat + b2.toNat) + 2 ^ 8 * b1.toNat
      = 2 ^ 8 * (2 ^ 16 * b3.toNat + 2 ^ 8 * b2.toNat + b1.toNat) by omega, ← o0]

theorem toNat_byte32 (x : UInt32) {k : Nat} (hk : k < 4) :
    (byte32 x k).toNat = x.toNat / 2 ^ (8 * k) % 256 := by
  have h : (8 * k).toUInt32.toNat % 32 = 8 * k := by
    rw [Nat.toUInt32_eq, UInt32.toNat_ofNat']
    omega
  rw [byte32, UInt32.toNat_toUInt8, UInt32.toNat_shiftRight, h, Nat.shiftRight_eq_div_pow]

/-- Storing a loaded word gives the bytes back. -/
theorem byte32_load32 (b0 b1 b2 b3 : UInt8) :
    byte32 (load32 b0 b1 b2 b3) 0 = b0 ∧ byte32 (load32 b0 b1 b2 b3) 1 = b1 ∧
      byte32 (load32 b0 b1 b2 b3) 2 = b2 ∧ byte32 (load32 b0 b1 b2 b3) 3 = b3 := by
  have h0 := b0.toNat_lt
  have h1 := b1.toNat_lt
  have h2 := b2.toNat_lt
  have h3 := b3.toNat_lt
  refine ⟨?_, ?_, ?_, ?_⟩ <;> apply UInt8.toNat.inj <;>
    rw [toNat_byte32 _ (by omega), toNat_load32] <;> omega

/-- Swapping a loaded word loads its bytes in the opposite order. -/
theorem swap32_load32 (b0 b1 b2 b3 : UInt8) :
    swap32 (load32 b0 b1 b2 b3) = load32 b3 b2 b1 b0 := by
  obtain ⟨e0, e1, e2, e3⟩ := byte32_load32 b0 b1 b2 b3
  rw [swap32, e0, e1, e2, e3]

/-- A word whose value is that of a byte reversal is that byte reversal. -/
theorem eq_swap32_of_toNat {x y : UInt32}
    (h : y.toNat = 2 ^ 24 * (x.toNat % 256) + 2 ^ 16 * (x.toNat / 2 ^ 8 % 256)
      + 2 ^ 8 * (x.toNat / 2 ^ 16 % 256) + x.toNat / 2 ^ 24) :
    y = swap32 x := by
  have hx := x.toNat_lt
  apply UInt32.toNat.inj
  rw [h, swap32, toNat_load32, toNat_byte32 _ (by omega), toNat_byte32 _ (by omega),
    toNat_byte32 _ (by omega), toNat_byte32 _ (by omega)]
  simp only [Nat.reduceMul, Nat.reducePow, Nat.div_one]
  omega

end Words
