import RustKernel.Fs.DiskBlocks
import RustKernel.Lib.Bitmap

/-!
# RustKernel.Fs.Blocks

A healthy drive seen as a store of the blocks that the driver reaches. On it a block read cannot
fail (`readBlock_eq`), a block write replaces that block and no other (`exec_writeBlock`,
`block_setBlock`), and bitmap operations change one bit of one block.

A bitmap stands for the numbers `1, 2, …`: bit `i` for the number `i + 1`, whatever the size of the
blocks. `Used` reads it that way, for blocks and for inodes.
-/

namespace RustKernel.Fs

open Lib

/-! ### Reading and writing a block -/

namespace Drive

/-- Replaces `count` sectors. -/
def setSectors (d : Drive) (first count : Nat) (buf : List UInt8) : Drive :=
  (List.range count).foldl (fun d i => d.setSector (first + i) (window buf (i * 512) 512)) d

private theorem setSectors_succ (d : Drive) (first count : Nat) (buf : List UInt8) :
    d.setSectors first (count + 1) buf =
      (d.setSectors first count buf).setSector (first + count) (window buf (count * 512) 512) := by
  rw [setSectors, List.range_succ, List.foldl_append]
  rfl

@[simp] theorem healthy_setSectors (d : Drive) (first count : Nat) (buf : List UInt8) :
    (d.setSectors first count buf).Healthy ↔ d.Healthy := by
  induction count with
  | zero => rfl
  | succ count ih => rw [setSectors_succ, healthy_setSector, ih]

private theorem sector_setSectors (d : Drive) (first i : Nat) {count : Nat} {buf : List UInt8}
    (h : count * 512 ≤ buf.length) :
    (d.setSectors first count buf).sector i =
      if first ≤ i ∧ i < first + count then window buf ((i - first) * 512) 512
      else d.sector i := by
  induction count with
  | zero =>
    rw [if_neg (by omega)]
    rfl
  | succ count ih =>
    rw [Nat.add_one_mul] at h
    have hlen : (window buf (count * 512) 512).length = 512 := length_window _ _ _ h
    rw [setSectors_succ, sector_setSector _ _ _ _ hlen, ih (Nat.le_of_add_right_le h)]
    by_cases hlast : i = first + count
    · rw [if_pos hlast, if_pos (by omega), hlast, Nat.add_sub_cancel_left]
    · rw [if_neg hlast]
      exact if_congr (by omega) rfl rfl

/-- A disk given by its blocks of 1 KiB, each padded with zeros. -/
def ofBlocks (image : Nat → List UInt8) : Drive where
  sector := fun lba => (window (image (lba / 2)) (512 * (lba % 2)) 512).takeD 512 0
  length_sector := fun _ => List.takeD_length ..
  faulty := fun _ => false

theorem healthy_ofBlocks (image : Nat → List UInt8) : (ofBlocks image).Healthy := fun _ => rfl

end Drive

/-- A sector of a healthy drive is written. -/
private theorem exec_writeSector {d : Drive} (hd : d.Healthy) (lba : Nat) (bytes : List UInt8) :
    (Ata.writeSector lba bytes).exec d = (.ok (), d.setSector lba bytes) := by
  rw [Ata.writeSector, Fallible.exec_bind, Fallible.exec_reading, hd lba]
  rfl

/-- The sectors of a healthy drive are written in turn. -/
private theorem exec_writeSectors {d : Drive} (hd : d.Healthy) (first count : Nat)
    (buf : List UInt8) :
    ((List.range count).foldlM (fun _ i =>
      Ata.writeSector (first + i) (window buf (i * 512) 512)) ()).exec d =
      (.ok (), d.setSectors first count buf) := by
  induction count with
  | zero => rfl
  | succ count ih =>
    rw [List.range_succ, List.foldlM_append, Fallible.exec_bind, ih, Drive.setSectors_succ]
    simp only [List.foldlM_cons, List.foldlM_nil, Fallible.exec_bind, Fallible.exec_pure]
    rw [exec_writeSector ((Drive.healthy_setSectors ..).mpr hd)]

namespace Ext3Fs

variable (fs : Ext3Fs)

/-- Replaces one block. -/
def setBlock (d : Drive) (b : UInt32) (buf : List UInt8) : Drive :=
  d.setSectors (b.toNat * (fs.blockSize / 512)) (fs.blockSize / 512) buf

variable {fs} {d : Drive} {b c : UInt32} {buf : List UInt8}

theorem length_block (h : fs.Sized) (d : Drive) (b : UInt32) :
    (fs.block d b).length = fs.blockSize := by
  rw [block, length_flatMap_sector, h.sectors]

@[simp] theorem healthy_setBlock : (fs.setBlock d b buf).Healthy ↔ d.Healthy :=
  Drive.healthy_setSectors ..

theorem block_setBlock_self (h : fs.Sized) (d : Drive) (b : UInt32)
    (hbuf : buf.length = fs.blockSize) : fs.block (fs.setBlock d b buf) b = buf := by
  have hsectors := h.sectors
  -- the sectors of the block are the windows of the buffer
  have hsector : ∀ i ∈ List.range (fs.blockSize / 512),
      (fs.setBlock d b buf).sector (b.toNat * (fs.blockSize / 512) + i) =
        window buf (i * 512) 512 := by
    intro i hi
    have hlt := List.mem_range.mp hi
    rw [setBlock, Drive.sector_setSectors _ _ _ (by omega), if_pos (by omega),
      Nat.add_sub_cancel_left]
  rw [block, List.flatMap_congr hsector, flatMap_window]
  exact List.take_of_length_le (by omega)

theorem block_setBlock_ne (h : fs.Sized) (d : Drive) (hbuf : buf.length = fs.blockSize)
    (hne : c ≠ b) : fs.block (fs.setBlock d b buf) c = fs.block d c := by
  have hsectors := h.sectors
  rw [block, block]
  refine List.flatMap_congr fun i hi => ?_
  have hlt := List.mem_range.mp hi
  rw [setBlock, Drive.sector_setSectors _ _ _ (by omega), if_neg]
  -- blocks of different numbers have no sector in common
  rcases Nat.lt_or_gt_of_ne fun heq => hne (UInt32.toNat_inj.mp heq) with hlt' | hlt'
  · have hle := Nat.mul_le_mul_right (fs.blockSize / 512) (Nat.succ_le_of_lt hlt')
    rw [Nat.succ_mul] at hle
    omega
  · have hle := Nat.mul_le_mul_right (fs.blockSize / 512) (Nat.succ_le_of_lt hlt')
    rw [Nat.succ_mul] at hle
    omega

theorem readBlock_eq (h : fs.Sized) (hd : d.Healthy) (hb : fs.Reached b) :
    fs.readBlock d b = .ok (fs.block d b) := by
  obtain ⟨k, hk, hbs⟩ := h.power
  rw [readBlock_healthy hbs (by omega) hd, diskBlock_eq_block hbs (by omega) hb]

theorem exec_writeBlock (h : fs.Sized) (hd : d.Healthy) (hb : fs.Reached b)
    (hbuf : buf.length = fs.blockSize) :
    (fs.writeBlock b buf).exec d = (.ok (), fs.setBlock d b buf) := by
  obtain ⟨k, hk, hbs⟩ := h.power
  have hcount := sectorsPerBlock_toNat hbs (by omega)
  have hsectors := h.sectors
  have hroom : ¬(fs.sectorsPerBlock = 0 ∨ buf.length < fs.sectorsPerBlock.toNat * 512) := by
    rw [hcount]
    exact not_or.mpr ⟨sectorsPerBlock_ne hbs (by omega), by omega⟩
  rw [writeBlock, Fallible.exec_adapt, Ata.write, if_neg hroom, hcount, ← firstSector,
    firstSector_of_reached hbs (by omega) hb, exec_writeSectors hd]
  rfl

/-! ### Bitmaps -/

/-- The number `n` is marked used in a bitmap whose first bit stands for 1. -/
def Used (bitmap : List UInt8) (n : UInt32) : Prop :=
  1 ≤ n.toNat ∧ bitAt bitmap (n.toNat - 1) = true

instance (bitmap : List UInt8) (n : UInt32) : Decidable (Used bitmap n) :=
  inferInstanceAs (Decidable (_ ∧ _))

theorem Used.le {bitmap : List UInt8} {n : UInt32} (h : Used bitmap n) :
    n.toNat ≤ 8 * bitmap.length := by
  have hlt := bitAt_lt h.2
  have hpos := h.1
  omega

/-- `find_free` returns a clear bit below the bound. -/
theorem findFree_spec {buf : List UInt8} {maxBits bitIdx : Nat}
    (h : findFree buf maxBits = some bitIdx) :
    bitIdx / 8 < buf.length ∧ bitIdx < maxBits ∧ bitAt buf bitIdx = false := by
  obtain ⟨byteIdx, hbyte, hfound⟩ := List.exists_of_findSome?_eq_some h
  simp only at hfound
  split at hfound
  · exact absurd hfound (by simp)
  obtain ⟨bit, hbit, hsome⟩ := List.exists_of_findSome?_eq_some hfound
  have hlt : byteIdx * 8 + bit < maxBits := by
    simpa using List.mem_takeWhile_imp hbit
  have hbit8 : bit < 8 := List.mem_range.mp (List.takeWhile_subset _ hbit)
  have hfree : buf.getD byteIdx 0 &&& (1 <<< UInt8.ofNat bit) = 0 := by
    by_contra hne
    rw [if_neg hne] at hsome
    exact absurd hsome (by simp)
  rw [if_pos hfree] at hsome
  obtain rfl := Option.some.inj hsome
  have hdiv : (byteIdx * 8 + bit) / 8 = byteIdx := by omega
  have hmod : (byteIdx * 8 + bit) % 8 = bit := by omega
  refine ⟨?_, hlt, ?_⟩
  · rw [hdiv]
    exact List.mem_range.mp hbyte
  rw [bitAt, hdiv, hmod]
  exact (and_mask_eq_zero_iff _ _ hbit8).mp hfree

private theorem takeWhile_range (n a m : Nat) :
    (List.range n).takeWhile (fun i => decide (a + i < m)) = List.range (min n (m - a)) := by
  induction n with
  | zero => rw [Nat.zero_min, List.range_zero, List.takeWhile_nil]
  | succ n ih =>
    rw [List.range_succ, List.takeWhile_append, ih, List.length_range, List.length_range]
    by_cases hfull : min n (m - a) = n
    · rw [if_pos hfull]
      by_cases hlt : a + n < m
      · rw [List.takeWhile_cons_of_pos (by simpa using hlt), List.takeWhile_nil, ← List.range_succ,
          Nat.min_eq_left (by omega)]
      · rw [List.takeWhile_cons_of_neg (by simpa using hlt), List.append_nil]
        congr 1
        omega
    · rw [if_neg hfull]
      congr 1
      omega

/-- What stands in front of `a` in a range are the smaller numbers. -/
private theorem mem_left_of_range {n a j : Nat} {front rest : List Nat}
    (h : List.range n = front ++ a :: rest) (hj : j < a) : j ∈ front := by
  have ha : a < n := List.mem_range.mp (h ▸ List.mem_append_right _ List.mem_cons_self)
  have hmem : j ∈ front ++ a :: rest := h ▸ List.mem_range.mpr (hj.trans ha)
  have hsorted : (front ++ a :: rest).Pairwise (· < ·) := h ▸ List.pairwise_lt_range
  have hrest := (List.pairwise_cons.mp (List.pairwise_append.mp hsorted).2.1).1
  rcases List.mem_append.mp hmem with hfront | hback
  · exact hfront
  · rcases List.mem_cons.mp hback with rfl | hback
    · exact absurd hj (Nat.lt_irrefl j)
    · exact absurd (hrest j hback) (Nat.lt_asymm hj)

/-- The turn of `bitmap_alloc` for one byte. -/
def freeInByte (buf : List UInt8) (maxBits byteIdx : Nat) : Option Nat :=
  if buf.getD byteIdx 0 = 0xFF then none
  else ((List.range 8).takeWhile fun bit => byteIdx * 8 + bit < maxBits).findSome? fun bit =>
    if buf.getD byteIdx 0 &&& (1 <<< UInt8.ofNat bit) = 0 then some (byteIdx * 8 + bit) else none

private theorem bitAt_byte {buf : List UInt8} {byteIdx bit : Nat} (hbit : bit < 8) :
    bitAt buf (byteIdx * 8 + bit) = true ↔ buf.getD byteIdx 0 &&& (1 <<< UInt8.ofNat bit) ≠ 0 := by
  have hdiv : (byteIdx * 8 + bit) / 8 = byteIdx := by omega
  have hmod : (byteIdx * 8 + bit) % 8 = bit := by omega
  rw [Ne, and_mask_eq_zero_iff _ _ hbit, bitAt, hdiv, hmod, Bool.not_eq_false]

/-- A byte in which nothing is found has no clear bit. -/
private theorem freeInByte_none {buf : List UInt8} {maxBits byteIdx bit : Nat}
    (h : freeInByte buf maxBits byteIdx = none) (hbit : bit < 8)
    (hmax : byteIdx * 8 + bit < maxBits) : bitAt buf (byteIdx * 8 + bit) = true := by
  rw [bitAt_byte hbit]
  rw [freeInByte] at h
  split at h
  case isTrue hfull =>
    rw [hfull]
    interval_cases bit <;> decide
  case isFalse =>
    rw [takeWhile_range] at h
    have hset := List.findSome?_eq_none_iff.mp h bit (List.mem_range.mpr (by omega))
    intro hclear
    rw [if_pos hclear] at hset
    cases hset

/-- The bits of the byte below the one that is found are set. -/
private theorem freeInByte_some {buf : List UInt8} {maxBits byteIdx bitIdx : Nat}
    (h : freeInByte buf maxBits byteIdx = some bitIdx) :
    bitIdx / 8 = byteIdx ∧ ∀ bit < bitIdx % 8, bitAt buf (byteIdx * 8 + bit) = true := by
  rw [freeInByte] at h
  split at h
  case isTrue => cases h
  case isFalse =>
    rw [takeWhile_range] at h
    obtain ⟨front, bit, rest, hsplit, hfound, hfront⟩ := List.findSome?_eq_some_iff.mp h
    have hbit : bit < 8 := by
      have hmem := List.mem_range.mp (hsplit ▸ List.mem_append_right _ List.mem_cons_self)
      omega
    split at hfound
    case isFalse => cases hfound
    case isTrue =>
      obtain rfl := Option.some.inj hfound
      refine ⟨by omega, fun j hj => ?_⟩
      have hlt : j < bit := by omega
      have hset := hfront j (mem_left_of_range hsplit hlt)
      rw [bitAt_byte (by omega)]
      intro hclear
      rw [if_pos hclear] at hset
      cases hset

/-- `find_free` fails only if all bits below the bound are set. -/
theorem findFree_none {buf : List UInt8} {maxBits : Nat} (h : findFree buf maxBits = none) {i : Nat}
    (hi : i < maxBits) (hlen : i / 8 < buf.length) : bitAt buf i = true := by
  have hbyte := List.findSome?_eq_none_iff.mp h (i / 8) (List.mem_range.mpr hlen)
  have hset := freeInByte_none hbyte (Nat.mod_lt i (by decide)) (by omega)
  rwa [show i / 8 * 8 + i % 8 = i by omega] at hset

/-- All bits below the one that `find_free` returns are set. -/
theorem findFree_least {buf : List UInt8} {maxBits bitIdx : Nat}
    (h : findFree buf maxBits = some bitIdx) {i : Nat} (hi : i < bitIdx) : bitAt buf i = true := by
  have hmax := (findFree_spec h).2.1
  obtain ⟨front, byteIdx, rest, hsplit, hfound, hfront⟩ := List.findSome?_eq_some_iff.mp h
  obtain ⟨hbyteIdx, hbelow⟩ := freeInByte_some hfound
  have hparts : i / 8 * 8 + i % 8 = i := by omega
  rcases Nat.lt_or_ge (i / 8) byteIdx with hlt | hge
  · have hset := freeInByte_none (hfront _ (mem_left_of_range hsplit hlt))
      (Nat.mod_lt i (by decide)) (by omega)
    rwa [hparts] at hset
  · have hset := hbelow (i % 8) (by omega)
    rwa [show byteIdx * 8 + i % 8 = i by omega] at hset

/-- The bits that `bitmap_alloc` may take, in its order. -/
def clearBits (bitmap : List UInt8) (maxBits : Nat) : List Nat :=
  (List.range (min (8 * bitmap.length) maxBits)).filter fun i => !bitAt bitmap i

theorem mem_clearBits {bitmap : List UInt8} {maxBits i : Nat} :
    i ∈ clearBits bitmap maxBits ↔ (i < 8 * bitmap.length ∧ i < maxBits) ∧ bitAt bitmap i = false := by
  rw [clearBits, List.mem_filter, List.mem_range, Nat.lt_min, Bool.not_eq_true']

theorem clearBits_sorted (bitmap : List UInt8) (maxBits : Nat) :
    (clearBits bitmap maxBits).Pairwise (· < ·) :=
  List.Pairwise.filter _ List.pairwise_lt_range

/-- The least member of a sorted list is its head. -/
private theorem eq_cons_of_least {l : List Nat} (hsorted : l.Pairwise (· < ·)) {i : Nat}
    (hmem : i ∈ l)
    (hleast : ∀ j ∈ l, i ≤ j) : l = i :: l.filter (· ≠ i) := by
  cases l with
  | nil => cases hmem
  | cons a l =>
    obtain ⟨hhead, -⟩ := List.pairwise_cons.mp hsorted
    have ha : a = i := by
      rcases List.mem_cons.mp hmem with rfl | hin
      · rfl
      · have hle := hleast a List.mem_cons_self
        have hlt := hhead i hin
        omega
    subst ha
    rw [List.filter_cons_of_neg (by simp), List.filter_eq_self.mpr]
    intro j hj
    simpa using (hhead j hj).ne'

/-- Setting the least clear bit takes it out of the clear ones. -/
private theorem clearBits_eq_cons {bitmap bitmap' : List UInt8} {maxBits i : Nat}
    (hclear : (i < 8 * bitmap.length ∧ i < maxBits) ∧ bitAt bitmap i = false)
    (hleast : ∀ j < i, bitAt bitmap j = true)
    (hset : ∀ j, bitAt bitmap' j = (bitAt bitmap j || decide (i = j)))
    (hlen : bitmap'.length = bitmap.length) :
    clearBits bitmap maxBits = i :: clearBits bitmap' maxBits := by
  have hcons := eq_cons_of_least (clearBits_sorted bitmap maxBits) (mem_clearBits.mpr hclear)
    fun j hj => by
      by_contra hlt
      have hbit := hleast j (by omega)
      rw [(mem_clearBits.mp hj).2] at hbit
      cases hbit
  rw [hcons, clearBits, clearBits, List.filter_filter, hlen]
  congr 2
  funext j
  rw [hset, Bool.not_or, Bool.and_comm]
  congr 1
  simp [eq_comm]

variable (fs) in
/-- The drive `d'` is `d` with the bits of the bitmap block `b` changed to `bits`. -/
structure BitsChanged (d d' : Drive) (b : UInt32) (bits : Nat → Bool) : Prop where
  healthy : d'.Healthy
  others : ∀ c, c ≠ b → fs.block d' c = fs.block d c
  bits : ∀ j, bitAt (fs.block d' b) j = bits j

/-- The allocator takes the first clear bit, and fails if there is none. -/
theorem bitmapAlloc_outcome (h : fs.Sized) (hd : d.Healthy) (hb : fs.Reached b) (maxBits : UInt32) :
    Outcome (fs.bitmapAlloc b maxBits) d
      (fun bit d' => clearBits (fs.block d b) maxBits.toNat =
          bit.toNat :: clearBits (fs.block d' b) maxBits.toNat ∧
        fs.BitsChanged d d' b fun j => bitAt (fs.block d b) j || decide (bit.toNat = j))
      (fun e d' => clearBits (fs.block d b) maxBits.toNat = [] ∧ d' = d ∧
        e = .error "no free bits in bitmap") := by
  have hlength := length_block h d b
  have hbounds := h.bounds
  refine Outcome.bind_read (readBlock_eq h hd hb) ?_
  split
  case h_2 hnone =>
    refine Outcome.throw ⟨List.eq_nil_iff_forall_not_mem.mpr fun i hi => ?_, rfl, rfl⟩
    -- a clear bit would have been found
    obtain ⟨⟨hbyte, hmax⟩, hclear⟩ := mem_clearBits.mp hi
    have hset := findFree_none hnone hmax (by omega)
    rw [hclear] at hset
    cases hset
  case h_1 bitIdx hfind =>
    obtain ⟨hbyte, hmax, hclear⟩ := findFree_spec hfind
    rw [hlength] at hbyte
    have hnat : (UInt32.ofNat bitIdx).toNat = bitIdx := by
      rw [UInt32.toNat_ofNat']
      omega
    set buf := (fs.block d b).set (bitIdx / 8)
      ((fs.block d b).getD (bitIdx / 8) 0 ||| (1 <<< UInt8.ofNat (bitIdx % 8))) with hbuf
    have hlen : buf.length = fs.blockSize := by rw [hbuf, List.length_set, hlength]
    refine Outcome.bind_exec (exec_writeBlock h hd hb hlen) (Outcome.pure ?_)
    rw [hnat]
    -- the buffer has one bit set, and is written back whole
    have hset : ∀ j, bitAt (fs.block (fs.setBlock d b buf) b) j =
        (bitAt (fs.block d b) j || decide (bitIdx = j)) := by
      intro j
      rw [block_setBlock_self h d b hlen, hbuf, bitAt_set_or _ _ _ (by omega)]
    have hsame := (length_block h (fs.setBlock d b buf) b).trans hlength.symm
    exact ⟨clearBits_eq_cons ⟨⟨by omega, hmax⟩, hclear⟩ (fun j hj => findFree_least hfind hj) hset
      hsame,
      healthy_setBlock.mpr hd, fun c hc => block_setBlock_ne h d hlen hc, hset⟩

theorem bitmapAlloc_ends (h : fs.Sized) (hd : d.Healthy) (hb : fs.Reached b) (maxBits : UInt32) :
    Ends (fs.bitmapAlloc b maxBits) d
      (fun bit d' => bit.toNat < 8 * fs.blockSize ∧ bit.toNat < maxBits.toNat ∧
        bitAt (fs.block d b) bit.toNat = false ∧
        fs.BitsChanged d d' b fun j => bitAt (fs.block d b) j || decide (bit.toNat = j))
      (fun d' => d' = d) := by
  refine ((bitmapAlloc_outcome h hd hb maxBits).mono ?_ fun _ _ hE => hE.2.1).ends
  rintro bit d' ⟨hcons, hbits⟩
  have hmem : bit.toNat ∈ clearBits (fs.block d b) maxBits.toNat := by
    rw [hcons]
    exact List.mem_cons_self
  obtain ⟨⟨hbyte, hmax⟩, hclear⟩ := mem_clearBits.mp hmem
  rw [length_block h] at hbyte
  exact ⟨hbyte, hmax, hclear, hbits⟩

/-- Clearing a bit of the bitmap, or the panic when the bit is beyond its end. -/
theorem bitmapClear_outcome (h : fs.Sized) (hd : d.Healthy) (hb : fs.Reached b) (bit : UInt32) :
    Outcome (fs.bitmapSet b bit false) d
      (fun _ d' => bit.toNat < 8 * fs.blockSize ∧
        fs.BitsChanged d d' b fun j => bitAt (fs.block d b) j && !decide (bit.toNat = j))
      (fun e d' => 8 * fs.blockSize ≤ bit.toNat ∧ d' = d ∧ e = .panic) := by
  have hlength := length_block h d b
  have hbounds := h.bounds
  refine Outcome.bind_read (readBlock_eq h hd hb) ?_
  simp only [hlength, Bool.false_eq_true, ↓reduceIte]
  split
  case isTrue hout => exact Outcome.throw ⟨by omega, rfl, rfl⟩
  case isFalse hin =>
    have hlen : ((fs.block d b).set (bit.toNat / 8) ((fs.block d b).getD (bit.toNat / 8) 0 &&&
        ~~~(1 <<< UInt8.ofNat (bit.toNat % 8)))).length = fs.blockSize := by
      rw [List.length_set, hlength]
    refine Outcome.of_exec (exec_writeBlock h hd hb hlen)
      ⟨by omega, healthy_setBlock.mpr hd,
      fun c hc => block_setBlock_ne h d hlen hc, fun j => ?_⟩
    rw [block_setBlock_self h d b hlen,
      bitAt_set_and_not _ _ _ (by omega)]

theorem bitmapClear_ends (h : fs.Sized) (hd : d.Healthy) (hb : fs.Reached b) (bit : UInt32) :
    Ends (fs.bitmapSet b bit false) d
      (fun _ d' => fs.BitsChanged d d' b fun j => bitAt (fs.block d b) j && !decide (bit.toNat = j))
      (fun d' => d' = d ∧ 8 * fs.blockSize ≤ bit.toNat) :=
  ((bitmapClear_outcome h hd hb bit).mono (fun _ _ hQ => hQ.2)
    fun _ _ hE => ⟨hE.2.1, hE.1⟩).ends

end Ext3Fs

end RustKernel.Fs
