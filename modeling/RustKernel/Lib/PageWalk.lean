import RustKernel.Lib.ByteStore

/-!
# RustKernel.Lib.PageWalk

The four-level page tables of x86-64 in physical memory, and the walk that translates an address.

An entry has a present bit, a bit for a large page at the second and third level, and a physical
address. `walkFrom` goes down one level at a time; there is one lemma for each way it can go on
(`walkFrom_absent`, `walkFrom_large`, `walkFrom_table`). Tables are filled with 32-bit and 64-bit
stores; `read64_eq` splits an entry into its halves.
-/

namespace RustKernel.Lib

/-! ### 32-bit stores -/

def read32 (mem : ByteStore) (addr : Nat) : Nat :=
  leDecode ((List.range 4).map fun i => mem (addr + i))

def write32 (mem : ByteStore) (addr v : Nat) : ByteStore := fun b =>
  if addr ≤ b ∧ b < addr + 4 then (leEncode 4 v).getD (b - addr) 0 else mem b

theorem write32_agree (mem : ByteStore) (addr v : Nat) :
    AgreeOutside addr (addr + 4) mem (write32 mem addr v) := by
  intro b hb
  rw [write32, if_neg (by omega)]

theorem read32_congr {mem mem' : ByteStore} {addr : Nat}
    (h : ∀ b, addr ≤ b → b < addr + 4 → mem' b = mem b) : read32 mem' addr = read32 mem addr := by
  rw [read32, read32]
  congr 1
  apply List.map_congr_left
  intro i hi
  have hlt := List.mem_range.mp hi
  exact h _ (by omega) (by omega)

theorem read32_write32 (mem : ByteStore) (addr v : Nat) (hv : v < 2 ^ 32) :
    read32 (write32 mem addr v) addr = v := by
  have hbytes : ((List.range 4).map fun i => write32 mem addr v (addr + i)) = leEncode 4 v := by
    apply List.ext_getElem
    · simp
    · intro i hi hi'
      rw [length_leEncode] at hi'
      rw [List.getElem_map, List.getElem_range, write32, if_pos (by omega),
        Nat.add_sub_cancel_left, List.getD_eq_getElem _ _ (by simpa using hi')]
  rw [read32, hbytes, leDecode_leEncode, Nat.mod_eq_of_lt (by simpa using hv)]

/-- The halves of a 64-bit word. -/
theorem read64_eq (mem : ByteStore) (addr : Nat) :
    read64 mem addr = read32 mem addr + 2 ^ 32 * read32 mem (addr + 4) := by
  simp only [read64, read32, List.range_succ, List.range_zero, List.nil_append, List.cons_append,
    List.map_cons, List.map_nil, leDecode, Nat.add_assoc, Nat.add_zero, Nat.reduceAdd]
  omega

/-- Bytes that are zero read as zero. -/
theorem read64_zero {mem : ByteStore} {addr : Nat}
    (h : ∀ b, addr ≤ b → b < addr + 8 → mem b = 0) : read64 mem addr = 0 := by
  have hbytes : ((List.range 8).map fun i => mem (addr + i)) = (List.range 8).map fun _ => 0 := by
    apply List.map_congr_left
    intro i hi
    have hlt := List.mem_range.mp hi
    exact h _ (by omega) (by omega)
  rw [read64, hbytes]
  rfl

namespace PageWalk

/-! ### The walk -/

def Present (e : Nat) : Prop := e % 2 = 1

/-- The entry is for a large page. -/
def Large (e : Nat) : Prop := e / 2 ^ 7 % 2 = 1

instance (e : Nat) : Decidable (Present e) := inferInstanceAs (Decidable (_ = _))
instance (e : Nat) : Decidable (Large e) := inferInstanceAs (Decidable (_ = _))

/-- The physical address in an entry: its bits from `k` to 51. -/
def frame (k e : Nat) : Nat := e / 2 ^ k % 2 ^ (52 - k) * 2 ^ k

/-- The number of address bits below a level: a page of that level has this many. -/
def shift (level : Nat) : Nat := 12 + 9 * level

def index (level va : Nat) : Nat := va / 2 ^ shift level % 512

def entry (mem : ByteStore) (table idx : Nat) : Nat := read64 mem (table + 8 * idx)

/-- The walk from a table of a level on. A page table of the lowest level is at level 0. -/
def walkFrom (mem : ByteStore) (va : Nat) : Nat → Nat → Option Nat
  | 0, table =>
    let e := entry mem table (index 0 va)
    if Present e then some (frame 12 e + va % 2 ^ 12) else none
  | level + 1, table =>
    let e := entry mem table (index (level + 1) va)
    if ¬Present e then none
    else if level < 2 ∧ Large e then
      some (frame (shift (level + 1)) e + va % 2 ^ shift (level + 1))
    else walkFrom mem va level (frame 12 e)

/-- The physical address of a virtual one, with the top table at `cr3`. -/
def walk (mem : ByteStore) (cr3 va : Nat) : Option Nat := walkFrom mem va 3 (frame 12 cr3)

variable {mem : ByteStore} {va level table : Nat}

theorem walkFrom_absent (h : ¬Present (entry mem table (index (level + 1) va))) :
    walkFrom mem va (level + 1) table = none := by
  rw [walkFrom, if_pos h]

theorem walkFrom_large (hp : Present (entry mem table (index (level + 1) va))) (hlevel : level < 2)
    (hl : Large (entry mem table (index (level + 1) va))) :
    walkFrom mem va (level + 1) table =
      some (frame (shift (level + 1)) (entry mem table (index (level + 1) va)) +
        va % 2 ^ shift (level + 1)) := by
  rw [walkFrom, if_neg (not_not.mpr hp), if_pos ⟨hlevel, hl⟩]

theorem walkFrom_table (hp : Present (entry mem table (index (level + 1) va)))
    (hl : ¬(level < 2 ∧ Large (entry mem table (index (level + 1) va)))) :
    walkFrom mem va (level + 1) table =
      walkFrom mem va level (frame 12 (entry mem table (index (level + 1) va))) := by
  rw [walkFrom, if_neg (not_not.mpr hp), if_neg hl]

/-- An aligned address with flags in the bits below is the address of the entry. -/
theorem frame_add {k a f : Nat} (hk : k ≤ 52) (ha : a < 2 ^ 52) (halign : a % 2 ^ k = 0)
    (hf : f < 2 ^ k) : frame k (a + f) = a := by
  have hpow : 2 ^ k * 2 ^ (52 - k) = 2 ^ 52 := by rw [← pow_add, Nat.add_sub_cancel' hk]
  obtain ⟨q, rfl⟩ := Nat.dvd_of_mod_eq_zero halign
  have hq : q < 2 ^ (52 - k) := by
    rw [← hpow] at ha
    exact Nat.lt_of_mul_lt_mul_left ha
  rw [frame, Nat.mul_add_div (by positivity), Nat.div_eq_of_lt hf, Nat.add_zero,
    Nat.mod_eq_of_lt hq, Nat.mul_comm]

end PageWalk

end RustKernel.Lib
