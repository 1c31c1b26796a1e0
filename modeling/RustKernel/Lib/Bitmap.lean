import Mathlib.Data.List.Basic
import Mathlib.Data.Nat.Bitwise
import Mathlib.Tactic

/-!
# RustKernel.Lib.Bitmap

Bitmaps in a byte string, least significant bit first. `bitAt` reads a bit; writing a byte with
one bit set or cleared changes that bit and no other (`bitAt_set_or`, `bitAt_set_and_not`).
-/

namespace RustKernel.Lib

/-- Bit `i` of the bitmap, clear beyond its end. -/
def bitAt (buf : List UInt8) (i : Nat) : Bool := (buf.getD (i / 8) 0).toNat.testBit (i % 8)

theorem bitAt_lt {buf : List UInt8} {i : Nat} (h : bitAt buf i = true) : i < 8 * buf.length := by
  by_contra hi
  have hout : buf.getD (i / 8) 0 = 0 := List.getD_eq_default _ _ (by omega)
  rw [bitAt, hout] at h
  simp at h

/-! ### One byte -/

section Byte

variable (byte : UInt8) (j k : Nat)

theorem toNat_mask (hk : k < 8) : ((1 : UInt8) <<< UInt8.ofNat k).toNat = 2 ^ k := by
  interval_cases k <;> rfl

theorem and_mask_eq_zero_iff (hk : k < 8) :
    byte &&& (1 <<< UInt8.ofNat k) = 0 ↔ byte.toNat.testBit k = false := by
  rw [← UInt8.toNat_inj, UInt8.toNat_and, toNat_mask k hk]
  rw [show (0 : UInt8).toNat = 0 from rfl, Nat.and_two_pow]
  cases byte.toNat.testBit k <;> simp

theorem testBit_or_mask (hk : k < 8) :
    (byte ||| (1 <<< UInt8.ofNat k)).toNat.testBit j = (byte.toNat.testBit j || decide (k = j)) := by
  rw [UInt8.toNat_or, Nat.testBit_or, toNat_mask k hk, Nat.testBit_two_pow]

theorem testBit_and_not_mask (hj : j < 8) (hk : k < 8) :
    (byte &&& ~~~(1 <<< UInt8.ofNat k)).toNat.testBit j =
      (byte.toNat.testBit j && !decide (k = j)) := by
  have hnot : (~~~((1 : UInt8) <<< UInt8.ofNat k)).toNat.testBit j = !decide (k = j) := by
    interval_cases k <;> interval_cases j <;> rfl
  rw [UInt8.toNat_and, Nat.testBit_and, hnot]

end Byte

/-! ### A bitmap -/

section Bitmap

variable (buf : List UInt8) (i j : Nat)

/-- Bits in other bytes are kept, whatever is written to the byte of bit `i`. -/
theorem bitAt_set (byte : UInt8) (hi : i / 8 < buf.length) :
    bitAt (buf.set (i / 8) byte) j =
      if i / 8 = j / 8 then byte.toNat.testBit (j % 8) else bitAt buf j := by
  rw [bitAt, List.getD_eq_getElem?_getD, List.getElem?_set]
  split
  · rfl
  · rw [bitAt, List.getD_eq_getElem?_getD]

theorem bitAt_set_or (hi : i / 8 < buf.length) :
    bitAt (buf.set (i / 8) (buf.getD (i / 8) 0 ||| (1 <<< UInt8.ofNat (i % 8)))) j =
      (bitAt buf j || decide (i = j)) := by
  rw [bitAt_set _ _ _ _ hi, testBit_or_mask _ _ _ (Nat.mod_lt _ (by decide))]
  split
  case isTrue h => simp only [bitAt, h, show i % 8 = j % 8 ↔ i = j by omega]
  case isFalse h =>
    have hne : ¬i = j := fun hij => h (by rw [hij])
    simp [hne]

theorem bitAt_set_and_not (hi : i / 8 < buf.length) :
    bitAt (buf.set (i / 8) (buf.getD (i / 8) 0 &&& ~~~(1 <<< UInt8.ofNat (i % 8)))) j =
      (bitAt buf j && !decide (i = j)) := by
  have hmod : ∀ n, n % 8 < 8 := fun n => Nat.mod_lt _ (by decide)
  rw [bitAt_set _ _ _ _ hi, testBit_and_not_mask _ _ _ (hmod j) (hmod i)]
  split
  case isTrue h => simp only [bitAt, h, show i % 8 = j % 8 ↔ i = j by omega]
  case isFalse h =>
    have hne : ¬i = j := fun hij => h (by rw [hij])
    simp [hne]

end Bitmap

/-- Bitmaps of one length with the same bits are the same bytes. -/
theorem bitAt_ext {buf buf' : List UInt8} (hlen : buf.length = buf'.length)
    (h : ∀ i, bitAt buf i = bitAt buf' i) : buf = buf' := by
  refine List.ext_getElem hlen fun k hk hk' => ?_
  refine UInt8.toNat_inj.mp (Nat.eq_of_testBit_eq fun j => ?_)
  rcases Nat.lt_or_ge j 8 with hj | hj
  · have hbit := h (8 * k + j)
    have hdiv : (8 * k + j) / 8 = k := by omega
    have hmod : (8 * k + j) % 8 = j := by omega
    simpa [bitAt, hdiv, hmod, List.getD_eq_getElem, hk, hk'] using hbit
  · have hhigh : ∀ byte : UInt8, byte.toNat.testBit j = false := fun byte =>
      Nat.testBit_lt_two_pow (lt_of_lt_of_le byte.toNat_lt (Nat.pow_le_pow_right (by decide) hj))
    rw [hhigh, hhigh]

end RustKernel.Lib
