import FastCgi.Words.ByteSwap

/-! # Host and network byte order

Both servers run on little-endian hosts and read the big-endian integers of the protocol by
copying bytes into a word and swapping it. `cocgi` swaps with the macros of `type.h`, `mucgi` with
the functions of `muduo_net/Endian.h`. `NetworkOrder` collects the four conversions together with
the law both copies obey: every conversion reverses the bytes of its argument. -/

namespace FastCgi

open Words

/-- The conversions between host and network byte order that a codec is built with, each of them
the reversal of the bytes of its argument. -/
structure NetworkOrder where
  hton16 : UInt16 → UInt16
  ntoh16 : UInt16 → UInt16
  hton32 : UInt32 → UInt32
  ntoh32 : UInt32 → UInt32
  hton16_eq : ∀ x, hton16 x = swap16 x
  ntoh16_eq : ∀ x, ntoh16 x = swap16 x
  hton32_eq : ∀ x, hton32 x = swap32 x
  ntoh32_eq : ∀ x, ntoh32 x = swap32 x

/-! ## The macros of `cocgi` -/

namespace Cocgi

/-- `#define hton16(A)` of `type.h`, its argument already cast to `uint16_t`. -/
def hton16 (a : UInt16) : UInt16 := ((a &&& 0xff00) >>> 8) ||| ((a &&& 0x00ff) <<< 8)

/-- `#define hton32(A)` of `type.h`, its argument already cast to `uint32_t`. -/
def hton32 (a : UInt32) : UInt32 :=
  ((a &&& 0xff000000) >>> 24) ||| ((a &&& 0x00ff0000) >>> 8) |||
    ((a &&& 0x0000ff00) <<< 8) ||| ((a &&& 0x000000ff) <<< 24)

/-- A byte selected by a mask and moved down is a quotient and a remainder. -/
private theorem and_shiftRight (n k m : Nat) :
    (n &&& 255 <<< m) >>> k = (n >>> k &&& (255 <<< m) >>> k) := Nat.shiftRight_and_distrib

theorem hton16_eq (a : UInt16) : hton16 a = swap16 a := by
  have ha := a.toNat_lt
  apply eq_swap16_of_toNat
  have hhi : (a.toNat &&& 65280) >>> 8 = a.toNat / 256 := by
    rw [show (65280 : Nat) = 255 <<< 8 from rfl, and_shiftRight, Nat.shiftRight_eq_div_pow,
      show (255 <<< 8) >>> 8 = 2 ^ 8 - 1 from rfl, Nat.and_two_pow_sub_one_eq_mod]
    omega
  have hlo : a.toNat &&& 255 = a.toNat % 256 := Nat.and_two_pow_sub_one_eq_mod a.toNat 8
  have hor := Nat.two_pow_add_eq_or_of_lt (i := 8) (b := a.toNat / 256) (by omega) (a.toNat % 256)
  simp only [hton16, UInt16.toNat_or, UInt16.toNat_shiftLeft, UInt16.toNat_shiftRight,
    UInt16.toNat_and, UInt16.reduceToNat, Nat.reduceMod]
  rw [hhi, hlo, Nat.shiftLeft_eq, Nat.mod_eq_of_lt (by omega), Nat.or_comm, Nat.mul_comm, ← hor]

theorem hton32_eq (a : UInt32) : hton32 a = swap32 a := by
  have ha := a.toNat_lt
  apply eq_swap32_of_toNat
  have h3 : (a.toNat &&& 4278190080) >>> 24 = a.toNat / 2 ^ 24 := by
    rw [show (4278190080 : Nat) = 255 <<< 24 from rfl, and_shiftRight, Nat.shiftRight_eq_div_pow,
      show (255 <<< 24) >>> 24 = 2 ^ 8 - 1 from rfl, Nat.and_two_pow_sub_one_eq_mod]
    omega
  have h2 : (a.toNat &&& 16711680) >>> 8 = 2 ^ 8 * (a.toNat / 2 ^ 16 % 256) := by
    rw [show (16711680 : Nat) = 255 <<< 16 from rfl, and_shiftRight]
    have h16 : a.toNat >>> 8 &&& 255 <<< 8 = (a.toNat >>> 16 &&& 255) <<< 8 := by
      rw [Nat.shiftLeft_and_distrib, Nat.shiftRight_add a.toNat 8 8]
      apply Nat.eq_of_testBit_eq
      intro i
      simp only [Nat.testBit_and, Nat.testBit_shiftLeft, Nat.testBit_shiftRight]
      by_cases hi : 8 ≤ i <;> simp [hi]
    rw [show (255 <<< 16) >>> 8 = 255 <<< 8 from rfl, h16, Nat.shiftLeft_eq,
      Nat.shiftRight_eq_div_pow, show (255 : Nat) = 2 ^ 8 - 1 from rfl,
      Nat.and_two_pow_sub_one_eq_mod, Nat.mul_comm]
  have h1 : (a.toNat &&& 65280) <<< 8 % 2 ^ 32 = 2 ^ 16 * (a.toNat / 2 ^ 8 % 256) := by
    have h8 : a.toNat &&& 65280 = (a.toNat >>> 8 &&& 255) <<< 8 := by
      rw [Nat.shiftLeft_and_distrib]
      apply Nat.eq_of_testBit_eq
      intro i
      rw [show (65280 : Nat) = 255 <<< 8 from rfl]
      simp only [Nat.testBit_and, Nat.testBit_shiftLeft, Nat.testBit_shiftRight]
      by_cases hi : 8 ≤ i <;> simp [hi]
    rw [h8, Nat.shiftLeft_eq, Nat.shiftLeft_eq, Nat.shiftRight_eq_div_pow,
      show (255 : Nat) = 2 ^ 8 - 1 from rfl, Nat.and_two_pow_sub_one_eq_mod]
    omega
  have h0 : (a.toNat &&& 255) <<< 24 % 2 ^ 32 = 2 ^ 24 * (a.toNat % 256) := by
    rw [show (255 : Nat) = 2 ^ 8 - 1 from rfl, Nat.and_two_pow_sub_one_eq_mod, Nat.shiftLeft_eq]
    omega
  have o3 := Nat.two_pow_add_eq_or_of_lt (i := 8) (b := a.toNat / 2 ^ 24) (by omega)
    (a.toNat / 2 ^ 16 % 256)
  have o2 := Nat.two_pow_add_eq_or_of_lt (i := 16)
    (b := 2 ^ 8 * (a.toNat / 2 ^ 16 % 256) + a.toNat / 2 ^ 24) (by omega) (a.toNat / 2 ^ 8 % 256)
  have o1 := Nat.two_pow_add_eq_or_of_lt (i := 24)
    (b := 2 ^ 16 * (a.toNat / 2 ^ 8 % 256) + (2 ^ 8 * (a.toNat / 2 ^ 16 % 256)
      + a.toNat / 2 ^ 24)) (by omega) (a.toNat % 256)
  simp only [hton32, UInt32.toNat_or, UInt32.toNat_shiftLeft, UInt32.toNat_shiftRight,
    UInt32.toNat_and, UInt32.reduceToNat, Nat.reduceMod]
  rw [h3, h2, h1, h0, Nat.or_comm (a.toNat / 2 ^ 24), ← o3, Nat.or_comm _ (2 ^ 16 * _), ← o2,
    Nat.or_comm _ (2 ^ 24 * _), ← o1]
  omega

/-- The byte order `cocgi` is compiled with: `ntoh16` and `ntoh32` are defined as `hton16` and
`hton32`. -/
def order : NetworkOrder where
  hton16 := hton16
  ntoh16 := hton16
  hton32 := hton32
  ntoh32 := hton32
  hton16_eq := hton16_eq
  ntoh16_eq := hton16_eq
  hton32_eq := hton32_eq
  ntoh32_eq := hton32_eq

end Cocgi

/-! ## The functions of `mucgi` -/

namespace Mucgi

/-- `sockets::hostToNetwork16`: `htobe16`, which on a little-endian host reverses the bytes. -/
def hostToNetwork16 (host16 : UInt16) : UInt16 := swap16 host16

/-- `sockets::hostToNetwork32`: `htobe32`, which on a little-endian host reverses the bytes. -/
def hostToNetwork32 (host32 : UInt32) : UInt32 := swap32 host32

/-- `sockets::networkToHost16`: `be16toh`, which on a little-endian host reverses the bytes. -/
def networkToHost16 (net16 : UInt16) : UInt16 := swap16 net16

/-- `sockets::networkToHost32`: `be32toh`, which on a little-endian host reverses the bytes. -/
def networkToHost32 (net32 : UInt32) : UInt32 := swap32 net32

/-- The byte order `mucgi` is compiled with. -/
def order : NetworkOrder where
  hton16 := hostToNetwork16
  ntoh16 := networkToHost16
  hton32 := hostToNetwork32
  ntoh32 := networkToHost32
  hton16_eq _ := rfl
  ntoh16_eq _ := rfl
  hton32_eq _ := rfl
  ntoh32_eq _ := rfl

end Mucgi

namespace NetworkOrder

variable (o : NetworkOrder)

/-- Two bytes copied into a word and converted to host order are read big-endian. -/
theorem toNat_ntoh16_load16 (b0 b1 : UInt8) :
    (o.ntoh16 (load16 b0 b1)).toNat = 256 * b0.toNat + b1.toNat := by
  rw [o.ntoh16_eq, swap16_load16, toNat_load16]

/-- Four bytes copied into a word and converted to host order are read big-endian. -/
theorem ntoh32_load32 (b0 b1 b2 b3 : UInt8) :
    o.ntoh32 (load32 b0 b1 b2 b3) = load32 b3 b2 b1 b0 := by
  rw [o.ntoh32_eq, swap32_load32]

/-- A word converted to network order is stored most significant byte first. -/
theorem store16_hton16 (x : UInt16) : store16 (o.hton16 x) = [(x >>> 8).toUInt8, x.toUInt8] := by
  rw [o.hton16_eq, store16_swap16]

end NetworkOrder

end FastCgi
