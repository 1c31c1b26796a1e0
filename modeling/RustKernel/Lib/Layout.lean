import RustKernel.Lib.Endian

/-!
# RustKernel.Lib.Layout

Fields at fixed offsets of a byte string: reading an integer of two or four bytes (least
significant first), and overwriting a stretch of bytes in place.

The laws say that a stretch just overwritten reads back (`window_overwrite`), that a stretch
apart from it reads as before (`window_overwrite_of_apart`), and that a field reads the same
inside a longer string (`u32At_append_right`).
-/

namespace RustKernel.Lib

/-- The unsigned 16-bit integer at offset `off`. -/
def u16At (bs : List UInt8) (off : Nat) : UInt16 := UInt16.ofNat (leDecode (window bs off 2))

/-- The unsigned 32-bit integer at offset `off`. -/
def u32At (bs : List UInt8) (off : Nat) : UInt32 := UInt32.ofNat (leDecode (window bs off 4))

/-- `bs` with the bytes from `off` on replaced by `new`. -/
def overwrite (bs : List UInt8) (off : Nat) (new : List UInt8) : List UInt8 :=
  bs.take off ++ new ++ bs.drop (off + new.length)

/-! ### Overwriting -/

section Overwrite

variable (bs new : List UInt8) (off : Nat)

theorem length_overwrite (h : off + new.length ≤ bs.length) :
    (overwrite bs off new).length = bs.length := by
  simp only [overwrite, List.length_append, List.length_take, List.length_drop]
  omega

theorem le_length_overwrite : bs.length ≤ (overwrite bs off new).length := by
  simp only [overwrite, List.length_append, List.length_take, List.length_drop]
  omega

theorem window_overwrite (h : off ≤ bs.length) :
    window (overwrite bs off new) off new.length = new := by
  have hoff : (bs.take off).length = off := by simpa using h
  rw [window, overwrite, List.append_assoc, List.drop_append_of_le_length hoff.ge,
    List.drop_of_length_le hoff.le, List.nil_append, List.take_left]

theorem window_overwrite_of_apart (o n : Nat) (h : off + new.length ≤ bs.length)
    (hapart : o + n ≤ off ∨ off + new.length ≤ o) :
    window (overwrite bs off new) o n = window bs o n := by
  have hoff : (bs.take off).length = off := by
    rw [List.length_take]
    omega
  rcases hapart with hleft | hright
  · have hsplit : bs = bs.take off ++ bs.drop off := (List.take_append_drop off bs).symm
    rw [overwrite, List.append_assoc, window_append_left _ _ _ _ (by omega)]
    conv_rhs => rw [hsplit]
    rw [window_append_left _ _ _ _ (by omega)]
  · have hlen : (bs.take off ++ new).length = off + new.length := by
      rw [List.length_append, hoff]
    obtain ⟨k, rfl⟩ := Nat.exists_eq_add_of_le hright
    rw [overwrite, ← hlen, window_append_right, window, window, List.drop_drop]

/-- Overwriting the middle of three pieces. -/
theorem overwrite_append (as cs : List UInt8) (old : List UInt8) (h : old.length = new.length) :
    overwrite (as ++ (old ++ cs)) as.length new = as ++ (new ++ cs) := by
  rw [overwrite, List.take_left, ← h, List.drop_append, List.drop_of_length_le (by omega),
    List.nil_append, Nat.add_sub_cancel_left, List.drop_left, List.append_assoc]

end Overwrite

/-! ### Consecutive windows -/

theorem window_min (bs : List UInt8) (off n : Nat) :
    window bs off (min (bs.length - off) n) = window bs off n := by
  rw [window, window, ← List.length_drop, ← List.take_take, List.take_of_length_le (by simp)]

/-- The first `k` windows of width `w` make up the first `k * w` bytes. -/
theorem flatMap_window (bs : List UInt8) (w k : Nat) :
    (List.range k).flatMap (fun j => window bs (j * w) w) = bs.take (k * w) := by
  induction k with
  | zero => simp
  | succ k ih =>
    rw [List.range_succ, List.flatMap_append, ih, List.flatMap_singleton, window,
      Nat.add_one_mul, List.take_add]

/-- Padding a byte string keeps its bytes. -/
theorem take_length_takeD (bs : List UInt8) (n : Nat) (h : bs.length ≤ n) :
    (bs.takeD n 0).take bs.length = bs := by
  induction bs generalizing n with
  | nil => rfl
  | cons b bs ih =>
    obtain ⟨m, rfl⟩ : ∃ m, n = m + 1 := ⟨n - 1, by simp at h; omega⟩
    simp [ih m (by simpa using h)]

/-! ### Integer fields -/

section Fields

variable (as bs : List UInt8) (off : Nat)

theorem u16At_append_right : u16At (as ++ bs) (as.length + off) = u16At bs off := by
  rw [u16At, u16At, window_append_right]

theorem u32At_append_right : u32At (as ++ bs) (as.length + off) = u32At bs off := by
  rw [u32At, u32At, window_append_right]

theorem getD_append_right (k : Nat) : (as ++ bs).getD (as.length + k) 0 = bs.getD k 0 := by
  simp [List.getD_eq_getElem?_getD, List.getElem?_append_right]

theorem window_leEncode (width n : Nat) (rest : List UInt8) :
    window (leEncode width n ++ rest) 0 width = leEncode width n := by
  rw [window_append_left _ _ _ _ (by simp)]
  simpa using window_all (leEncode width n)

@[simp] theorem u16At_leEncode (n : UInt16) (rest : List UInt8) :
    u16At (leEncode 2 n.toNat ++ rest) 0 = n := by
  rw [u16At, window_leEncode, leDecode_leEncode]
  apply UInt16.toNat_inj.mp
  simp

@[simp] theorem u32At_leEncode (n : UInt32) (rest : List UInt8) :
    u32At (leEncode 4 n.toNat ++ rest) 0 = n := by
  rw [u32At, window_leEncode, leDecode_leEncode]
  apply UInt32.toNat_inj.mp
  simp

end Fields

end RustKernel.Lib
