import Mathlib.Data.List.TakeWhile
import RustKernel.Fs.Ext3

/-!
# RustKernel.Fs.DiskBlocks

A drive seen as a store of blocks, for every block size that `mount` can arrive at, and without the
assumption that its sectors are sound.

A block read gives the bytes of the block or the driver's error (`readBlock_cases`), and a block
write that returns has replaced the block, and with it the blocks that the driver finds at the same
address (`writeBlock_ends`).

The number of sectors of a block is kept in 8 bits: from 128 KiB on it is 0, and the driver refuses
to read or write.
-/

namespace RustKernel.Fs

open Lib

namespace Ext3Fs

variable (fs : Ext3Fs)

/-- The block sizes of an ext volume. -/
def Sized : Prop := fs.blockSize = 1024 ∨ fs.blockSize = 2048 ∨ fs.blockSize = 4096

/-- A block that 28-bit sector addresses reach. -/
def Reached (b : UInt32) : Prop := b.toNat * (fs.blockSize / 512) < 2 ^ 28

instance (b : UInt32) : Decidable (fs.Reached b) := inferInstanceAs (Decidable (_ < _))

/-- The bytes of a block. -/
def block (d : Drive) (b : UInt32) : List UInt8 :=
  (List.range (fs.blockSize / 512)).flatMap fun i => d.sector (b.toNat * (fs.blockSize / 512) + i)

/-- What a failed `ata::read` becomes. -/
def ATA_READ_ERROR : Failure := .error "ATA read error"

/-- The sector that the driver is addressed at for a block. -/
def firstSector (b : UInt32) : Nat := Ata.address (b * fs.sectorsPerBlock.toUInt32)

/-- The bytes that the driver finds at the address of a block: those of the block, where 28 bits
    are enough for the address (`diskBlock_eq_block`). -/
def diskBlock (d : Drive) (b : UInt32) : List UInt8 :=
  (List.range (fs.blockSize / 512)).flatMap fun i => d.sector (fs.firstSector b + i)

variable {fs} {d d' : Drive} {k : Nat}

/-! ### Addresses -/

theorem divRem_ofNat (a : UInt32) {m : Nat} (hpos : 0 < m) (hlt : m < 2 ^ 32) :
    ∃ q r, divRem a (UInt32.ofNat m) = .ok (q, r) ∧ q.toNat = a.toNat / m ∧
      r.toNat = a.toNat % m := by
  have hnat : (UInt32.ofNat m).toNat = m := by
    rw [UInt32.toNat_ofNat', Nat.mod_eq_of_lt hlt]
  have hne : UInt32.ofNat m ≠ 0 := by
    intro hzero
    rw [hzero, UInt32.toNat_zero] at hnat
    omega
  refine ⟨a / UInt32.ofNat m, a % UInt32.ofNat m, by rw [divRem, if_neg hne], ?_, ?_⟩
  · rw [UInt32.toNat_div, hnat]
  · rw [UInt32.toNat_mod, hnat]

theorem Sized.power (h : fs.Sized) : ∃ k ≤ 2, fs.blockSize = 1024 * 2 ^ k := by
  rcases h with hbs | hbs | hbs
  · exact ⟨0, by decide, hbs⟩
  · exact ⟨1, by decide, hbs⟩
  · exact ⟨2, le_rfl, hbs⟩

theorem Sized.bounds (h : fs.Sized) : 1024 ≤ fs.blockSize ∧ fs.blockSize ≤ 4096 := by
  rcases h with hbs | hbs | hbs <;> omega

/-- A block is a whole number of sectors. -/
theorem Sized.sectors (h : fs.Sized) : fs.blockSize / 512 * 512 = fs.blockSize := by
  rcases h with hbs | hbs | hbs <;> omega

/-- The blocks that the source counts for `len` bytes hold them. -/
theorem Sized.le_blocks (h : fs.Sized) (len : Nat) :
    len ≤ (len + fs.blockSize - 1) / fs.blockSize * fs.blockSize := by
  have hpos := h.bounds
  have hmod := Nat.div_add_mod (len + fs.blockSize - 1) fs.blockSize
  have hlt := Nat.mod_lt (len + fs.blockSize - 1) (by omega : 0 < fs.blockSize)
  rw [Nat.mul_comm] at hmod
  omega

theorem Sized.lt_blocks_iff (h : fs.Sized) {j len : Nat} :
    j < (len + fs.blockSize - 1) / fs.blockSize ↔ j * fs.blockSize < len := by
  have hpos := h.bounds
  rw [Nat.lt_iff_add_one_le, Nat.le_div_iff_mul_le (by omega), Nat.add_one_mul]
  omega

/-- The blocks that a bitmap has a bit for are reached. -/
theorem Sized.reached (h : fs.Sized) {b : UInt32} (hb : b.toNat ≤ 8 * fs.blockSize) :
    fs.Reached b := by
  rw [Reached]
  rcases h with hbs | hbs | hbs
  · rw [hbs] at hb ⊢
    omega
  · rw [hbs] at hb ⊢
    omega
  · rw [hbs] at hb ⊢
    omega

theorem blockSize_pos (hbs : fs.blockSize = 1024 * 2 ^ k) : 0 < fs.blockSize := by
  rw [hbs]
  exact Nat.mul_pos (by decide) (Nat.two_pow_pos k)

theorem sectorsPerBlock_toNat (hbs : fs.blockSize = 1024 * 2 ^ k) (hk : k ≤ 6) :
    fs.sectorsPerBlock.toNat = fs.blockSize / 512 := by
  have hle : 2 ^ k ≤ 2 ^ 6 := Nat.pow_le_pow_right (by decide) hk
  rw [sectorsPerBlock, UInt8.toNat_ofNat', Nat.mod_eq_of_lt]
  omega

/-- From 128 KiB on the number of sectors of a block wraps to 0. -/
private theorem sectorsPerBlock_zero (hbs : fs.blockSize = 1024 * 2 ^ k) (hk : 7 ≤ k) :
    fs.sectorsPerBlock = 0 := by
  obtain ⟨j, rfl⟩ := Nat.exists_eq_add_of_le hk
  have hsectors : fs.blockSize / 512 = 256 * 2 ^ j := by
    rw [hbs, Nat.pow_add]
    omega
  rw [sectorsPerBlock, hsectors, ← UInt8.toNat_inj, UInt8.toNat_ofNat']
  exact Nat.mul_mod_right 256 (2 ^ j)

theorem sectorsPerBlock_ne (hbs : fs.blockSize = 1024 * 2 ^ k) (hk : k ≤ 6) :
    fs.sectorsPerBlock ≠ 0 := by
  intro hzero
  have hcount := sectorsPerBlock_toNat hbs hk
  have hpos : 0 < 2 ^ k := Nat.two_pow_pos k
  rw [hzero, UInt8.toNat_zero] at hcount
  omega

/-- The address of a block: its sectors are counted modulo `2 ^ 28`. -/
theorem firstSector_eq (hbs : fs.blockSize = 1024 * 2 ^ k) (hk : k ≤ 6) (b : UInt32) :
    fs.firstSector b = b.toNat * (fs.blockSize / 512) % 2 ^ 28 := by
  rw [firstSector, Ata.address, UInt32.toNat_mul, UInt8.toNat_toUInt32, sectorsPerBlock_toNat hbs hk]
  omega

theorem firstSector_of_reached (hbs : fs.blockSize = 1024 * 2 ^ k) (hk : k ≤ 6) {b : UInt32}
    (hb : fs.Reached b) : fs.firstSector b = b.toNat * (fs.blockSize / 512) := by
  rw [firstSector_eq hbs hk, Nat.mod_eq_of_lt hb]

/-- Blocks at different addresses have no sector in common. -/
theorem firstSector_apart (hbs : fs.blockSize = 1024 * 2 ^ k) (hk : k ≤ 6) {b c : UInt32}
    (hne : fs.firstSector b ≠ fs.firstSector c) :
    fs.firstSector b + fs.blockSize / 512 ≤ fs.firstSector c ∨
      fs.firstSector c + fs.blockSize / 512 ≤ fs.firstSector b := by
  have hsectors : fs.blockSize / 512 = 2 ^ (k + 1) := by
    rw [hbs, pow_succ]
    omega
  have hdvd : fs.blockSize / 512 ∣ 2 ^ 28 := by
    rw [hsectors]
    exact pow_dvd_pow 2 (by omega)
  have hmultiple : ∀ b, fs.blockSize / 512 ∣ fs.firstSector b := by
    intro b
    rw [firstSector_eq hbs hk]
    exact (Nat.dvd_mod_iff hdvd).mpr (Nat.dvd_mul_left _ _)
  obtain ⟨i, hi⟩ := hmultiple b
  obtain ⟨j, hj⟩ := hmultiple c
  rw [hi, hj] at hne ⊢
  rcases Nat.lt_or_gt_of_ne (fun h => hne (congrArg _ h) : i ≠ j) with hlt | hlt
  · left
    rw [← Nat.mul_succ]
    exact Nat.mul_le_mul_left _ hlt
  · right
    rw [← Nat.mul_succ]
    exact Nat.mul_le_mul_left _ hlt

/-- Where 28 bits are enough for the address, the driver finds the block. -/
theorem diskBlock_eq_block (hbs : fs.blockSize = 1024 * 2 ^ k) (hk : k ≤ 6) {b : UInt32}
    (hb : fs.Reached b) : fs.diskBlock d b = fs.block d b := by
  rw [diskBlock, firstSector_of_reached hbs hk hb, block]

theorem length_flatMap_sector (d : Drive) (first count : Nat) :
    ((List.range count).flatMap fun i => d.sector (first + i)).length = count * 512 := by
  rw [List.length_flatMap]
  simp only [d.length_sector, List.map_const', List.sum_replicate, List.length_range, smul_eq_mul]

theorem length_diskBlock (hbs : fs.blockSize = 1024 * 2 ^ k) (b : UInt32) :
    (fs.diskBlock d b).length = fs.blockSize := by
  rw [diskBlock, length_flatMap_sector]
  omega

/-! ### What a block holds -/

variable (fs) in
/-- The number of descriptors, and of inodes, in a block. -/
def descriptorsPerBlock : Nat := fs.blockSize / BG_DESCRIPTOR_LEN

variable (fs) in
def inodesPerBlock : Nat := fs.blockSize / INODE_LEN

variable (fs) in
/-- The number of blocks of the table of descriptors, and of an inode table. -/
def descriptorBlocks : Nat :=
  (fs.bgCount.toNat + fs.descriptorsPerBlock - 1) / fs.descriptorsPerBlock

variable (fs) in
def inodeBlocks : Nat := (fs.inodesPerGroup.toNat + fs.inodesPerBlock - 1) / fs.inodesPerBlock

theorem perBlock_pos (hbs : fs.blockSize = 1024 * 2 ^ k) :
    0 < fs.descriptorsPerBlock ∧ 0 < fs.inodesPerBlock := by
  have hpos : 0 < 2 ^ k := Nat.two_pow_pos k
  rw [descriptorsPerBlock, inodesPerBlock, hbs, BG_DESCRIPTOR_LEN, INODE_LEN]
  omega

theorem perBlock_lt (hbs : fs.blockSize = 1024 * 2 ^ k) (hk : k ≤ 6) :
    fs.descriptorsPerBlock < 2 ^ 32 ∧ fs.inodesPerBlock < 2 ^ 32 := by
  have hle : 2 ^ k ≤ 2 ^ 6 := Nat.pow_le_pow_right (by decide) hk
  rw [descriptorsPerBlock, inodesPerBlock, hbs, BG_DESCRIPTOR_LEN, INODE_LEN]
  omega

theorem Sized.descriptorsPerBlock (h : fs.Sized) :
    0 < fs.descriptorsPerBlock ∧ fs.descriptorsPerBlock < 2 ^ 32 := by
  obtain ⟨k, hk, hbs⟩ := h.power
  exact ⟨(perBlock_pos hbs).1, (perBlock_lt hbs (by omega)).1⟩

theorem Sized.inodesPerBlock (h : fs.Sized) :
    0 < fs.inodesPerBlock ∧ fs.inodesPerBlock < 2 ^ 32 := by
  obtain ⟨k, hk, hbs⟩ := h.power
  exact ⟨(perBlock_pos hbs).2, (perBlock_lt hbs (by omega)).2⟩

/-- A position below `count` lies in one of the `per`-sized blocks that `count` takes. -/
theorem div_lt_blocks {i count per : Nat} (hper : 0 < per) (hi : i < count) :
    i / per < (count + per - 1) / per := by
  rw [Nat.lt_iff_add_one_le, Nat.le_div_iff_mul_le hper, Nat.add_one_mul]
  have hle := Nat.div_mul_le_self i per
  omega

/-- The slots of inodes in one block do not overlap. -/
theorem slots_apart {a b per : Nat} (hblock : a / per = b / per) (hne : a ≠ b) :
    b % per * INODE_LEN + INODE_LEN ≤ a % per * INODE_LEN ∨
      a % per * INODE_LEN + INODE_LEN ≤ b % per * INODE_LEN := by
  have hrem : a % per ≠ b % per := by
    intro hrem
    rw [← Nat.div_add_mod a per, ← Nat.div_add_mod b per, hblock, hrem] at hne
    exact hne rfl
  rw [← Nat.add_one_mul, ← Nat.add_one_mul]
  rcases Nat.lt_or_gt_of_ne hrem with hlt | hlt
  · exact .inr (Nat.mul_le_mul_right _ hlt)
  · exact .inl (Nat.mul_le_mul_right _ hlt)

/-- A slot does not cross the end of its block. -/
theorem slot_le (hpos : 0 < fs.inodesPerBlock) (index : Nat) :
    index % fs.inodesPerBlock * INODE_LEN + INODE_LEN ≤ fs.blockSize := by
  rw [← Nat.add_one_mul]
  refine le_trans (Nat.mul_le_mul_right _ (Nat.mod_lt _ hpos)) ?_
  exact Nat.div_mul_le_self _ _

/-! ### Reading -/

variable (fs) in
/-- One of the sectors of a block is faulty. -/
def blockFaulty (d : Drive) (b : UInt32) : Bool :=
  (List.range (fs.blockSize / 512)).any fun i => d.faulty (fs.firstSector b + i)

/-- The driver returns the sectors it is asked for, or an error if one of them is faulty. -/
theorem ataRead_eq (lba : UInt32) (count : UInt8) (capacity : Nat) (hcount : count ≠ 0)
    (hroom : count.toNat * 512 ≤ capacity) :
    Ata.read d lba count capacity =
      if (List.range count.toNat).any (fun i => d.faulty (Ata.address lba + i)) then
        .error "ATA error"
      else .ok ((List.range count.toNat).flatMap fun i => d.sector (Ata.address lba + i)) := by
  rw [Ata.read, if_neg (by simp only [hcount, false_or]; omega)]
  dsimp only
  rw [mapM_test]
  split
  · rfl
  · rfl

private theorem any_faulty_of_healthy (hd : d.Healthy) (first count : Nat) :
    ((List.range count).any fun i => d.faulty (first + i)) = false :=
  List.any_eq_false.mpr fun i _ => by rw [hd]; decide

/-- A block read gives the bytes of the block, or the driver's error if one of its sectors is
    faulty. -/
theorem readBlock_eq_ite (hbs : fs.blockSize = 1024 * 2 ^ k) (hk : k ≤ 6) (b : UInt32) :
    fs.readBlock d b =
      if fs.blockFaulty d b then .error ATA_READ_ERROR else .ok (fs.diskBlock d b) := by
  have hcount := sectorsPerBlock_toNat hbs hk
  have hlen := length_diskBlock (d := d) hbs b
  rw [readBlock, ataRead_eq _ _ _ (sectorsPerBlock_ne hbs hk) (by omega), hcount, ← firstSector,
    ← diskBlock, ← blockFaulty]
  cases fs.blockFaulty d b
  · simp only [Bool.false_eq_true, if_false, Except.mapError, bind, Except.bind, pure, Except.pure]
    rw [List.takeD_eq_take _ hlen.ge, List.take_of_length_le hlen.le]
  · rfl

/-- From 128 KiB on the driver refuses to read: it is asked for no sector. -/
theorem readBlock_refused (hbs : fs.blockSize = 1024 * 2 ^ k) (hk : 7 ≤ k) (b : UInt32) :
    fs.readBlock d b = .error ATA_READ_ERROR := by
  rw [readBlock, sectorsPerBlock_zero hbs hk]
  rfl

/-- A block read gives the bytes of the block, or the driver's error. -/
theorem readBlock_cases (hbs : fs.blockSize = 1024 * 2 ^ k) (b : UInt32) :
    fs.readBlock d b = .ok (fs.diskBlock d b) ∨
      ¬(k ≤ 6 ∧ d.Healthy) ∧ fs.readBlock d b = .error ATA_READ_ERROR := by
  by_cases hk : k ≤ 6
  · rw [readBlock_eq_ite hbs hk]
    cases hfaulty : fs.blockFaulty d b
    · exact .inl rfl
    · refine .inr ⟨fun h => ?_, rfl⟩
      rw [blockFaulty, any_faulty_of_healthy h.2] at hfaulty
      cases hfaulty
  · exact .inr ⟨fun h => hk h.1, readBlock_refused hbs (by omega) b⟩

/-- A block reads the same from drives that agree on it. -/
theorem readBlock_congr (hbs : fs.blockSize = 1024 * 2 ^ k) (hfaulty : d'.faulty = d.faulty)
    {b : UInt32} (hblock : fs.diskBlock d' b = fs.diskBlock d b) :
    fs.readBlock d' b = fs.readBlock d b := by
  by_cases hk : k ≤ 6
  · rw [readBlock_eq_ite hbs hk, readBlock_eq_ite hbs hk, blockFaulty, hfaulty, hblock, blockFaulty]
  · rw [readBlock_refused hbs (by omega), readBlock_refused hbs (by omega)]

/-- On a drive without a faulty sector a block is read. -/
theorem readBlock_healthy (hbs : fs.blockSize = 1024 * 2 ^ k) (hk : k ≤ 6) (hd : d.Healthy)
    (b : UInt32) : fs.readBlock d b = .ok (fs.diskBlock d b) := by
  rcases readBlock_cases (d := d) hbs b with hok | ⟨hfaulty, -⟩
  · exact hok
  · exact absurd ⟨hk, hd⟩ hfaulty

/-- The bytes a block read returned are those of the block. -/
theorem readBlock_ok (hbs : fs.blockSize = 1024 * 2 ^ k) {b : UInt32} {buf : List UInt8}
    (hread : fs.readBlock d b = .ok buf) : buf = fs.diskBlock d b := by
  rcases readBlock_cases (d := d) hbs b with hok | ⟨-, herror⟩
  · rw [hok] at hread
    exact (Except.ok.inj hread).symm
  · rw [herror] at hread
    cases hread

/-! ### Writing -/

/-- The drive after a write that returned: the block, and whatever is at its address, holds `buf`. -/
def BlockReplaced (fs : Ext3Fs) (d : Drive) (b : UInt32) (buf : List UInt8) (d' : Drive) : Prop :=
  ∀ c, fs.diskBlock d' c = if fs.firstSector c = fs.firstSector b then buf else fs.diskBlock d c

private theorem ataWrite_ends (lba : UInt32) (count : UInt8) (buf : List UInt8)
    (hbuf : buf.length = count.toNat * 512) :
    Ends (Ata.write lba count buf) d
      (fun _ d' => ∀ i, d'.sector i =
        if Ata.address lba ≤ i ∧ i < Ata.address lba + count.toNat then
          window buf ((i - Ata.address lba) * 512) 512 else d.sector i)
      (fun _ => True) := by
  rw [Ata.write]
  split
  case isTrue => exact Ends.throw trivial
  rw [List.range_eq_range']
  refine (Ends.foldlM (fun n _ d' => ∀ i, d'.sector i =
      if Ata.address lba ≤ i ∧ i < Ata.address lba + n then
        window buf ((i - Ata.address lba) * 512) 512 else d.sector i)
    (fun _ => True) count.toNat 0 () d ?_ ?_).mono ?_ fun _ _ => trivial
  · -- a turn writes the next sector
    intro n _ d' _ hn hwritten
    rw [Ata.writeSector]
    refine Ends.bind_reading (fun faulty _ => ?_) fun _ _ => trivial
    split
    case isTrue => exact Ends.throw trivial
    case isFalse =>
      have hlen : (window buf (n * 512) 512).length = 512 := length_window _ _ _ (by omega)
      refine Ends.writing fun i => ?_
      rw [Drive.sector_setSector _ _ _ _ hlen, hwritten]
      rcases Nat.lt_trichotomy i (Ata.address lba + n) with hlt | rfl | hlt
      · rw [if_neg (by omega)]
        simp only [show (i < Ata.address lba + (n + 1)) = (i < Ata.address lba + n) from
          propext (by omega)]
      · rw [if_pos rfl, if_pos (by omega), Nat.add_sub_cancel_left]
      · rw [if_neg (by omega), if_neg (by omega), if_neg (by omega)]
  · intro i
    rw [if_neg (by omega)]
  · intro _ d' hwritten
    rwa [Nat.zero_add] at hwritten

/-- A write leaves the faulty sectors as they are. -/
private theorem ataWrite_faulty (lba : UInt32) (count : UInt8) (buf : List UInt8) :
    Ends (Ata.write lba count buf) d (fun _ d' => d'.faulty = d.faulty)
      (fun d' => d'.faulty = d.faulty) := by
  rw [Ata.write]
  split
  case isTrue => exact Ends.throw rfl
  rw [List.range_eq_range']
  refine Ends.foldlM (fun _ _ d' => d'.faulty = d.faulty) _ count.toNat 0 () d ?_ rfl
  intro n _ d' _ _ hsame
  rw [Ata.writeSector]
  refine Ends.bind_reading (fun faulty _ => ?_) fun _ _ => hsame
  split
  case isTrue => exact Ends.throw hsame
  case isFalse => exact Ends.writing hsame

theorem writeBlock_faulty (fs : Ext3Fs) (d : Drive) (b : UInt32) (buf : List UInt8) :
    ((fs.writeBlock b buf).exec d).2.faulty = d.faulty :=
  (Ends.adapt (ataWrite_faulty _ _ buf)).final

theorem writeBlock_ends (hbs : fs.blockSize = 1024 * 2 ^ k) (b : UInt32) (buf : List UInt8)
    (hbuf : buf.length = fs.blockSize) :
    Ends (fs.writeBlock b buf) d (fun _ => fs.BlockReplaced d b buf) (fun _ => True) := by
  by_cases hk : k ≤ 6
  · have hcount := sectorsPerBlock_toNat hbs hk
    rw [writeBlock]
    refine Ends.adapt ((ataWrite_ends _ _ buf (by omega)).mono (fun _ d' hwritten c => ?_)
      fun _ h => h)
    rw [← firstSector, hcount] at hwritten
    by_cases hsame : fs.firstSector c = fs.firstSector b
    · -- the sectors of the block are the windows of the buffer
      have hsector : ∀ i ∈ List.range (fs.blockSize / 512),
          d'.sector (fs.firstSector c + i) = window buf (i * 512) 512 := by
        intro i hi
        rw [hwritten, hsame, if_pos (by have := List.mem_range.mp hi; omega),
          Nat.add_sub_cancel_left]
      rw [if_pos hsame, diskBlock, List.flatMap_congr hsector, flatMap_window]
      exact List.take_of_length_le (by omega)
    · have hapart := firstSector_apart hbs hk hsame
      rw [if_neg hsame, diskBlock, diskBlock]
      refine List.flatMap_congr fun i hi => ?_
      have hlt := List.mem_range.mp hi
      rw [hwritten, if_neg (by omega)]
  · -- the driver refuses to write no sector
    rw [writeBlock, sectorsPerBlock_zero hbs (by omega)]
    exact trivial

end Ext3Fs

end RustKernel.Fs
