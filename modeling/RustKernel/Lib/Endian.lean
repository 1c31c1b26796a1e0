import Mathlib.Data.List.Basic
import Mathlib.Tactic

/-!
# RustKernel.Lib.Endian

Fixed-width integers as byte strings, in either byte order.

A width is a number of bytes. Encoding keeps the low `width` bytes of a natural
number; decoding accepts a byte string of any length. The two laws that clients
use are `leDecode_leEncode` (an integer that fits is recovered) and
`leEncode_leDecode` (a byte string is recovered).
-/

namespace RustKernel.Lib

/-! ### Least significant byte first -/

/-- The `width` low bytes of `n`, least significant first. -/
def leEncode : Nat → Nat → List UInt8
  | 0, _ => []
  | width + 1, n => UInt8.ofNat n :: leEncode width (n / 256)

/-- The value of a byte string whose first byte is the least significant. -/
def leDecode : List UInt8 → Nat
  | [] => 0
  | b :: bs => b.toNat + 256 * leDecode bs

@[simp] theorem length_leEncode (width n : Nat) : (leEncode width n).length = width := by
  induction width generalizing n with
  | zero => rfl
  | succ width ih => simp [leEncode, ih]

theorem leDecode_lt (bs : List UInt8) : leDecode bs < 256 ^ bs.length := by
  induction bs with
  | nil => simp [leDecode]
  | cons b bs ih =>
    have hb := b.toNat_lt
    simp only [leDecode, List.length_cons, pow_succ]
    omega

@[simp] theorem leDecode_leEncode (width n : Nat) :
    leDecode (leEncode width n) = n % 256 ^ width := by
  induction width generalizing n with
  | zero => simp [leEncode, leDecode, Nat.mod_one]
  | succ width ih =>
    have hbyte : (UInt8.ofNat n).toNat = n % 256 := by simp
    rw [leEncode, leDecode, ih, hbyte, pow_succ, Nat.mul_comm (256 ^ width), Nat.mod_mul]

@[simp] theorem leEncode_leDecode (bs : List UInt8) : leEncode bs.length (leDecode bs) = bs := by
  induction bs with
  | nil => rfl
  | cons b bs ih =>
    have hb := b.toNat_lt
    have hdiv : (b.toNat + 256 * leDecode bs) / 256 = leDecode bs := by omega
    have hhead : UInt8.ofNat (b.toNat + 256 * leDecode bs) = b := by
      apply UInt8.toNat_inj.mp
      rw [UInt8.toNat_ofNat']
      omega
    simp only [List.length_cons, leDecode, leEncode, hdiv, ih, hhead]

/-! ### Most significant byte first -/

/-- The `width` low bytes of `n`, most significant first. -/
def beEncode (width n : Nat) : List UInt8 := (leEncode width n).reverse

/-- The value of a byte string whose first byte is the most significant. -/
def beDecode (bs : List UInt8) : Nat := leDecode bs.reverse

@[simp] theorem length_beEncode (width n : Nat) : (beEncode width n).length = width := by
  simp [beEncode]

@[simp] theorem beDecode_beEncode (width n : Nat) :
    beDecode (beEncode width n) = n % 256 ^ width := by
  simp [beDecode, beEncode]

/-! ### Windows of a byte string -/

/-- The `n` bytes of `bs` from offset `off` on (fewer when `bs` ends before). -/
def window (bs : List UInt8) (off n : Nat) : List UInt8 := (bs.drop off).take n

theorem length_window (bs : List UInt8) (off n : Nat) (h : off + n ≤ bs.length) :
    (window bs off n).length = n := by
  simp only [window, List.length_take, List.length_drop]
  omega

theorem window_append_left (as bs : List UInt8) (off n : Nat) (h : off + n ≤ as.length) :
    window (as ++ bs) off n = window as off n := by
  rw [window, window, List.drop_append_of_le_length (by omega),
    List.take_append_of_le_length (by rw [List.length_drop]; omega)]

theorem window_append_right (as bs : List UInt8) (off n : Nat) :
    window (as ++ bs) (as.length + off) n = window bs off n := by
  rw [window, window, List.drop_append, List.drop_of_length_le (by omega)]
  simp

theorem window_all (bs : List UInt8) : window bs 0 bs.length = bs := by simp [window]

end RustKernel.Lib
