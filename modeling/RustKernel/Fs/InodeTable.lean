import RustKernel.Fs.Blocks

/-!
# RustKernel.Fs.InodeTable

The layout of an inode: 116 bytes in the inode table, of which reading and writing are inverse.
-/

namespace RustKernel.Fs

open Lib

section Layout

variable (bs : List UInt8) (off k : Nat)

/-- An inode reads the same from the 116 bytes it takes. -/
theorem Inode.ofBytes_window : Inode.ofBytes (window bs off INODE_LEN) 0 = Inode.ofBytes bs off := by
  have hwin : ∀ k n, k + n ≤ INODE_LEN → window (window bs off INODE_LEN) k n =
      window bs (off + k) n := by
    intro k n hk
    rw [window, window, window, List.drop_take, List.take_take, List.drop_drop,
      Nat.min_eq_left (by omega)]
  have h16 : ∀ k, k + 2 ≤ INODE_LEN → u16At (window bs off INODE_LEN) k = u16At bs (off + k) :=
    fun k hk => by rw [u16At, u16At, hwin k 2 hk]
  have h32 : ∀ k, k + 4 ≤ INODE_LEN → u32At (window bs off INODE_LEN) k = u32At bs (off + k) :=
    fun k hk => by rw [u32At, u32At, hwin k 4 hk]
  simp only [Inode.ofBytes, Nat.zero_add, h16 0 (by decide), h16 2 (by decide),
    h32 4 (by decide), h32 8 (by decide), h32 12 (by decide), h32 16 (by decide),
    h32 20 (by decide), h16 24 (by decide), h16 26 (by decide), h32 28 (by decide),
    h32 32 (by decide), h32 36 (by decide), h32 100 (by decide), h32 104 (by decide),
    h32 108 (by decide), h32 112 (by decide), Nat.add_zero, Inode.mk.injEq, and_true, true_and]
  congr 1
  funext i
  rw [h32 _ (by have := i.isLt; simp only [INODE_LEN]; omega), Nat.add_assoc]

private theorem u16At_leEncode_skip (w n : Nat) (rest : List UInt8) (h : w ≤ k) :
    u16At (leEncode w n ++ rest) k = u16At rest (k - w) := by
  have hskip := u16At_append_right (leEncode w n) rest (k - w)
  rwa [length_leEncode, Nat.add_sub_cancel' h] at hskip

private theorem u32At_leEncode_skip (w n : Nat) (rest : List UInt8) (h : w ≤ k) :
    u32At (leEncode w n ++ rest) k = u32At rest (k - w) := by
  have hskip := u32At_append_right (leEncode w n) rest (k - w)
  rwa [length_leEncode, Nat.add_sub_cancel' h] at hskip

/-- The pointers of an encoded inode. -/
private theorem u32At_flatMap (l : List UInt32) (rest : List UInt8) (i : Nat) (hi : i < l.length) :
    u32At (l.flatMap (fun b => leEncode 4 b.toNat) ++ rest) (4 * i) = l[i] := by
  induction l generalizing i with
  | nil => simp at hi
  | cons b l ih =>
    rw [List.flatMap_cons, List.append_assoc]
    cases i with
    | zero => exact u32At_leEncode b _
    | succ i =>
      rw [u32At_leEncode_skip _ _ _ _ (by omega), show 4 * (i + 1) - 4 = 4 * i by omega]
      exact ih i (by simpa using hi)

private theorem length_flatMap_leEncode (l : List UInt32) :
    (l.flatMap (fun b => leEncode 4 b.toNat)).length = 4 * l.length := by
  induction l with
  | nil => rfl
  | cons b l ih =>
    rw [List.flatMap_cons, List.length_append, length_leEncode, ih, List.length_cons]
    omega

theorem Inode.length_toBytes (inode : Inode) : inode.toBytes.length = INODE_LEN := by
  simp only [Inode.toBytes, List.length_append, length_leEncode, length_flatMap_leEncode,
    Vector.length_toList]
  rfl

/-- The fields of an encoded inode after its pointers. -/
private theorem u32At_pointers_skip (v : Vector UInt32 15) (rest : List UInt8) (h : 60 ≤ k) :
    u32At (v.toList.flatMap (fun b => leEncode 4 b.toNat) ++ rest) k = u32At rest (k - 60) := by
  have hskip := u32At_append_right (v.toList.flatMap fun b => leEncode 4 b.toNat) rest (k - 60)
  rwa [length_flatMap_leEncode, Vector.length_toList, Nat.add_sub_cancel' h] at hskip

private theorem u32At_leEncode_last (n : UInt32) : u32At (leEncode 4 n.toNat) 0 = n := by
  have h := u32At_leEncode n []
  rwa [List.append_nil] at h

/-- An inode that was written is read back. -/
theorem Inode.ofBytes_toBytes (inode : Inode) : Inode.ofBytes inode.toBytes 0 = inode := by
  have hblock : (Vector.ofFn fun i : Fin 15 => u32At inode.toBytes (0 + 40 + 4 * i)) =
      inode.block := by
    refine Vector.ext fun i hi => ?_
    rw [Vector.getElem_ofFn]
    have hptr := u32At_flatMap inode.block.toList
      (leEncode 4 inode.generation.toNat ++ (leEncode 4 inode.fileAcl.toNat ++
        (leEncode 4 inode.sizeHigh.toNat ++ leEncode 4 inode.faddr.toNat))) i (by simpa using hi)
    simp only [Vector.getElem_toList] at hptr
    rw [← hptr, Inode.toBytes]
    simp (disch := omega) only [u32At_leEncode_skip]
    congr 1
    omega
  simp only [Inode.ofBytes, hblock]
  simp (disch := decide) only [Inode.toBytes, Nat.zero_add, u16At_leEncode_skip,
    u32At_leEncode_skip, u32At_pointers_skip, u16At_leEncode, u32At_leEncode,
    u32At_leEncode_last, Nat.reduceSub]

end Layout

end RustKernel.Fs
