import RustKernel.Lib.Endian
import Mathlib.Data.List.GetD

/-!
# RustKernel.Lib.ByteStore

A byte-addressed store with 64-bit little-endian words.

A word occupies the eight bytes from its address on. The laws are the usual two: a
word written is read back (`read64_write64`), and a write is not seen by a read of
eight other bytes (`AgreeOutside.read64`).
-/

namespace RustKernel.Lib

/-- Memory: one byte at every address. -/
abbrev ByteStore := Nat → UInt8

def read64 (mem : ByteStore) (addr : Nat) : Nat :=
  leDecode ((List.range 8).map fun i => mem (addr + i))

def write64 (mem : ByteStore) (addr v : Nat) : ByteStore := fun b =>
  if addr ≤ b ∧ b < addr + 8 then (leEncode 8 v).getD (b - addr) 0 else mem b

/-- The stores hold the same bytes outside of `[lo, hi)`. -/
def AgreeOutside (lo hi : Nat) (mem mem' : ByteStore) : Prop :=
  ∀ b, b < lo ∨ hi ≤ b → mem' b = mem b

namespace AgreeOutside

variable {lo hi : Nat} {mem mem' mem'' : ByteStore}

theorem refl (mem : ByteStore) : AgreeOutside lo hi mem mem := fun _ _ => rfl

theorem trans (h : AgreeOutside lo hi mem mem') (h' : AgreeOutside lo hi mem' mem'') :
    AgreeOutside lo hi mem mem'' :=
  fun b hb => (h' b hb).trans (h b hb)

theorem mono {lo' hi' : Nat} (h : AgreeOutside lo hi mem mem') (hlo : lo' ≤ lo) (hhi : hi ≤ hi') :
    AgreeOutside lo' hi' mem mem' :=
  fun b hb => h b (by omega)

theorem write64 (h : AgreeOutside lo hi mem mem') (addr v : Nat) (hlo : lo ≤ addr)
    (hhi : addr + 8 ≤ hi) : AgreeOutside lo hi mem (write64 mem' addr v) := by
  intro b hb
  rw [Lib.write64, if_neg (by omega)]
  exact h b hb

theorem read64 (h : AgreeOutside lo hi mem mem') (addr : Nat)
    (haddr : addr + 8 ≤ lo ∨ hi ≤ addr) : read64 mem' addr = read64 mem addr := by
  rw [Lib.read64, Lib.read64]
  congr 1
  apply List.map_congr_left
  intro i hi
  have hlt := List.mem_range.mp hi
  exact h _ (by omega)

end AgreeOutside

theorem write64_agree (mem : ByteStore) (addr v : Nat) :
    AgreeOutside addr (addr + 8) mem (write64 mem addr v) :=
  (AgreeOutside.refl mem).write64 addr v le_rfl le_rfl

theorem read64_write64 (mem : ByteStore) (addr v : Nat) (hv : v < 2 ^ 64) :
    read64 (write64 mem addr v) addr = v := by
  have hbytes : ((List.range 8).map fun i => write64 mem addr v (addr + i)) = leEncode 8 v := by
    apply List.ext_getElem
    · simp
    · intro i hi hi'
      rw [length_leEncode] at hi'
      rw [List.getElem_map, List.getElem_range, write64, if_pos (by omega),
        Nat.add_sub_cancel_left, List.getD_eq_getElem _ _ (by simpa using hi')]
  rw [read64, hbytes, leDecode_leEncode, Nat.mod_eq_of_lt (by simpa using hv)]

theorem read64_write64_ne (mem : ByteStore) (addr addr' v : Nat)
    (h : addr' + 8 ≤ addr ∨ addr + 8 ≤ addr') :
    read64 (write64 mem addr v) addr' = read64 mem addr' :=
  (write64_agree mem addr v).read64 addr' h

/-- Storing the word that is there changes nothing. -/
theorem write64_read64 (mem : ByteStore) (addr : Nat) :
    write64 mem addr (read64 mem addr) = mem := by
  have hbytes : leEncode 8 (read64 mem addr) = (List.range 8).map fun i => mem (addr + i) := by
    have hcodec := leEncode_leDecode ((List.range 8).map fun i => mem (addr + i))
    rwa [List.length_map, List.length_range] at hcodec
  funext b
  rw [write64]
  split
  case isTrue hin =>
    have hlt : b - addr < 8 := by omega
    rw [hbytes, List.getD_eq_getElem _ _ (by simpa using hlt), List.getElem_map,
      List.getElem_range]
    congr 1
    omega
  case isFalse => rfl

theorem read64_lt (mem : ByteStore) (addr : Nat) : read64 mem addr < 2 ^ 64 := by
  have h := leDecode_lt ((List.range 8).map fun i => mem (addr + i))
  rwa [List.length_map, List.length_range] at h

end RustKernel.Lib
