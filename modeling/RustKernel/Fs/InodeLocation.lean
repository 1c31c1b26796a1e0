import RustKernel.Fs.DiskBlocks
import RustKernel.Fs.InodeTable

/-!
# RustKernel.Fs.InodeLocation

Where an inode is on an ext2 image of revision 0, and where `read_inode` looks for it.

The image is a string of bytes: the descriptors of the groups stand one behind the other, and in
the inode table of a group the records are 128 bytes apart (`Ext3Fs.record`). `read_inode` derives
the block and the offset from `size_of::<Inode>()`, which is 116 (`Ext3Fs.slotStart`).

## Main result

* `readInode_record_iff`: `read_inode` returns the record, whatever the inode table of the group
  holds, exactly for the first inode of a group and, with 1 KiB blocks, for every eighth one.

## Proof strategy

`readInode_eq_bytes` reduces `read_inode` to the bytes at one position of the disk. Where this is
not the position of the record, changing the first byte of the record changes the record and not
the bytes read.
-/

namespace RustKernel.Fs

open Lib

/-! ### The disk as a string of bytes -/

namespace Drive

variable (d : Drive)

/-- The byte at a position of the disk. -/
def byte (pos : Nat) : UInt8 := (d.sector (pos / 512)).getD (pos % 512) 0

/-- The `n` bytes from a position on. -/
def bytes (pos n : Nat) : List UInt8 := (List.range n).map fun i => d.byte (pos + i)

/-- Changes one byte. -/
def setByte (pos : Nat) (v : UInt8) : Drive :=
  d.setSector (pos / 512) ((d.sector (pos / 512)).set (pos % 512) v)

variable {d} {pos : Nat}

theorem length_bytes (n : Nat) : (d.bytes pos n).length = n := by
  rw [bytes, List.length_map, List.length_range]

private theorem getElem_bytes {n i : Nat} (h : i < (d.bytes pos n).length) :
    (d.bytes pos n)[i] = d.byte (pos + i) := by
  simp only [bytes, List.getElem_map, List.getElem_range]

private theorem window_bytes {len off n : Nat} (h : off + n ≤ len) :
    window (d.bytes pos len) off n = d.bytes (pos + off) n := by
  refine List.ext_getElem ?_ fun i hi hi' => ?_
  · rw [length_window _ _ _ (by rwa [length_bytes]), length_bytes]
  · simp only [window, List.getElem_take, List.getElem_drop, getElem_bytes, Nat.add_assoc]

theorem bytes_append (m n : Nat) : d.bytes pos (m + n) = d.bytes pos m ++ d.bytes (pos + m) n := by
  refine List.ext_getElem (by simp only [List.length_append, length_bytes]) fun i hi hi' => ?_
  rw [getElem_bytes, List.getElem_append]
  split
  case isTrue hlt => rw [getElem_bytes]
  case isFalse hge =>
    rw [length_bytes] at hge
    rw [getElem_bytes, length_bytes]
    congr 1
    omega

/-- Equal bytes at each position. -/
private theorem bytes_congr {d' : Drive} {n : Nat}
    (h : ∀ i < n, d'.byte (pos + i) = d.byte (pos + i)) :
    d'.bytes pos n = d.bytes pos n :=
  List.map_congr_left fun i hi => h i (List.mem_range.mp hi)

private theorem sector_eq_bytes (lba : Nat) : d.sector lba = d.bytes (lba * 512) 512 := by
  refine List.ext_getElem (by rw [d.length_sector, length_bytes]) fun i hi hi' => ?_
  rw [d.length_sector] at hi
  have hdiv : (lba * 512 + i) / 512 = lba := by omega
  have hmod : (lba * 512 + i) % 512 = i := by omega
  rw [getElem_bytes, byte, hdiv, hmod, List.getD_eq_getElem]

/-- Consecutive sectors hold consecutive bytes. -/
private theorem flatMap_sector (first count : Nat) :
    ((List.range count).flatMap fun i => d.sector (first + i)) =
      d.bytes (first * 512) (count * 512) := by
  induction count with
  | zero => rfl
  | succ count ih =>
    rw [List.range_succ, List.flatMap_append, ih, List.flatMap_singleton, sector_eq_bytes,
      Nat.add_one_mul, bytes_append, Nat.add_mul]

private theorem byte_setByte (q : Nat) (v : UInt8) :
    (d.setByte pos v).byte q = if q = pos then v else d.byte q := by
  have hlen : ((d.sector (pos / 512)).set (pos % 512) v).length = 512 := by
    rw [List.length_set, d.length_sector]
  rw [byte, setByte, sector_setSector _ _ _ _ hlen]
  split
  case isTrue hsector =>
    have hin : q % 512 < (d.sector (pos / 512)).length := by
      rw [d.length_sector]
      omega
    rw [List.getD_eq_getElem _ _ (by rwa [List.length_set]), List.getElem_set]
    split
    case isTrue hoffset => rw [if_pos (by omega)]
    case isFalse hoffset =>
      rw [if_neg (by rintro rfl; exact hoffset rfl), byte, hsector, List.getD_eq_getElem _ _ hin]
  case isFalse hsector => rw [if_neg (by rintro rfl; exact hsector rfl), byte]

end Drive

/-! ### Structures at a position -/

section Structures

variable {d : Drive} {pos : Nat}

theorem Inode.ofBytes_bytes {len off : Nat} (h : off + INODE_LEN ≤ len) :
    Inode.ofBytes (d.bytes pos len) off = Inode.ofBytes (d.bytes (pos + off) INODE_LEN) 0 := by
  rw [← Inode.ofBytes_window, Drive.window_bytes h]

theorem BgDescriptor.ofBytes_bytes {len off : Nat} (h : off + BG_DESCRIPTOR_LEN ≤ len) :
    BgDescriptor.ofBytes (d.bytes pos len) off =
      BgDescriptor.ofBytes (d.bytes (pos + off) BG_DESCRIPTOR_LEN) 0 := by
  have hfield : ∀ k, k + 4 ≤ BG_DESCRIPTOR_LEN →
      u32At (d.bytes pos len) (off + k) = u32At (d.bytes (pos + off) BG_DESCRIPTOR_LEN) (0 + k) := by
    intro k hk
    rw [u32At, u32At, Drive.window_bytes (by omega), Drive.window_bytes (by omega), Nat.zero_add,
      Nat.add_assoc]
  simp only [BgDescriptor.ofBytes, BgDescriptor.mk.injEq]
  exact ⟨hfield 0 (by decide), hfield 4 (by decide), hfield 8 (by decide)⟩

private theorem u16At_mod (bs : List UInt8) (off : Nat) :
    (u16At bs off).toNat % 256 = (bs.getD off 0).toNat := by
  have hget : bs.getD off 0 = (bs.drop off).getD 0 0 := by
    rw [List.getD_eq_getElem?_getD, List.getD_eq_getElem?_getD, List.getElem?_drop, Nat.add_zero]
  rw [u16At, window, hget, UInt16.toNat_ofNat']
  cases bs.drop off with
  | nil => rfl
  | cons b rest =>
    have hlt := b.toNat_lt
    rw [List.take_succ_cons, leDecode, List.getD_cons_zero]
    omega

/-- The first byte of a record is the low byte of the mode. -/
private theorem Inode.mode_bytes (d : Drive) (pos : Nat) :
    (Inode.ofBytes (d.bytes pos INODE_LEN) 0).mode.toNat % 256 = (d.byte pos).toNat := by
  rw [Inode.ofBytes, u16At_mod, List.getD_eq_getElem _ _ (by rw [Drive.length_bytes]; decide),
    Drive.getElem_bytes, Nat.add_zero]

end Structures

/-! ### The image -/

namespace Ext3Fs

variable (fs : Ext3Fs) (d : Drive) (n : UInt32)

/-- The size of an inode record of revision 0. -/
def RECORD_LEN : Nat := 128

/-- The block group of an inode, and its index in the group. -/
def inodeGroup : Nat := (n.toNat - 1) / fs.inodesPerGroup.toNat

def inodeIndex : Nat := (n.toNat - 1) % fs.inodesPerGroup.toNat

/-- The descriptor of a group, from the table of descriptors. -/
def groupDescriptor (g : Nat) : BgDescriptor :=
  .ofBytes (d.bytes (fs.bgDescTableBlock.toNat * fs.blockSize + g * BG_DESCRIPTOR_LEN)
    BG_DESCRIPTOR_LEN) 0

/-- The position of the inode table of a group. -/
def tableStart (g : Nat) : Nat := (fs.groupDescriptor d g).inodeTable.toNat * fs.blockSize

/-- The position of an inode's record. -/
def recordStart : Nat := fs.tableStart d (fs.inodeGroup n) + fs.inodeIndex n * RECORD_LEN

/-- The fields stored in the first 116 bytes of an inode's record. -/
def record : Inode := .ofBytes (d.bytes (fs.recordStart d n) INODE_LEN) 0

/-- An image that `mount` accepts, with the records of revision 0: the inode tables lie behind the
    table of descriptors, where 28-bit sector addresses reach them. -/
structure Image : Prop where
  blockSize : fs.blockSize = 1024 ∨ fs.blockSize = 2048 ∨ fs.blockSize = 4096
  healthy : d.Healthy
  behind : ∀ g < fs.bgCount.toNat, fs.bgDescTableBlock.toNat * fs.blockSize +
    fs.bgCount.toNat * BG_DESCRIPTOR_LEN ≤ fs.tableStart d g
  reached : ∀ g < fs.bgCount.toNat,
    fs.tableStart d g + fs.inodesPerGroup.toNat * RECORD_LEN ≤ 2 ^ 28 * 512

/-- An inode number of the filesystem. -/
def InodeNumber : Prop :=
  1 ≤ n.toNat ∧ n.toNat ≤ fs.bgCount.toNat * fs.inodesPerGroup.toNat

/-- `d'` holds the same bytes as `d` outside of the inode table of the group `g`. -/
structure SameOutside (g : Nat) (d' : Drive) : Prop where
  healthy : d'.Healthy
  byte : ∀ pos, pos < fs.tableStart d g ∨
    fs.tableStart d g + fs.inodesPerGroup.toNat * RECORD_LEN ≤ pos → d'.byte pos = d.byte pos

/-- The position at which `read_inode` looks for an inode. -/
def slotStart : Nat :=
  fs.tableStart d (fs.inodeGroup n) +
    (fs.inodeIndex n / (fs.blockSize / INODE_LEN) * fs.blockSize +
      fs.inodeIndex n % (fs.blockSize / INODE_LEN) * INODE_LEN)

variable {fs d n} {d' : Drive}

theorem inodeIndex_lt (hn : fs.InodeNumber n) : fs.inodeIndex n < fs.inodesPerGroup.toNat := by
  refine Nat.mod_lt _ (Nat.pos_of_ne_zero fun hzero => ?_)
  have hle := hn.2
  have hpos := hn.1
  rw [hzero, Nat.mul_zero] at hle
  omega

theorem inodeGroup_lt (hn : fs.InodeNumber n) : fs.inodeGroup n < fs.bgCount.toNat := by
  have hpos := hn.1
  have hle := hn.2
  exact (Nat.div_lt_iff_lt_mul (Nat.zero_lt_of_lt (inodeIndex_lt hn))).mpr (by omega)

/-- An inode is determined by its group and its index. -/
theorem inode_ext {j : UInt32} (hj : fs.InodeNumber j) (hn : fs.InodeNumber n)
    (hgroup : fs.inodeGroup j = fs.inodeGroup n) (hindex : fs.inodeIndex j = fs.inodeIndex n) :
    j = n := by
  have hdivmod : ∀ i : UInt32, i.toNat - 1 =
      fs.inodesPerGroup.toNat * fs.inodeGroup i + fs.inodeIndex i :=
    fun i => (Nat.div_add_mod _ _).symm
  have hsame : j.toNat - 1 = n.toNat - 1 := by
    rw [hdivmod j, hdivmod n, hgroup, hindex]
  have hjpos := hj.1
  have hnpos := hn.1
  exact UInt32.toNat_inj.mp (by omega)

/-! ### Reading -/

theorem Image.power (h : fs.Image d) : ∃ k ≤ 2, fs.blockSize = 1024 * 2 ^ k := by
  rcases h.blockSize with hbs | hbs | hbs
  · exact ⟨0, by decide, hbs⟩
  · exact ⟨1, by decide, hbs⟩
  · exact ⟨2, le_rfl, hbs⟩

/-- A block is the bytes at its position. -/
theorem Image.readBlock (h : fs.Image d) (b : UInt32)
    (hb : b.toNat * fs.blockSize < 2 ^ 28 * 512) :
    fs.readBlock d b = .ok (d.bytes (b.toNat * fs.blockSize) fs.blockSize) := by
  obtain ⟨k, hk, hbs⟩ := h.power
  have hsectors : fs.blockSize / 512 * 512 = fs.blockSize := by omega
  have hreach : b.toNat * (fs.blockSize / 512) < 2 ^ 28 := by
    rw [← hsectors, ← Nat.mul_assoc] at hb
    omega
  rw [readBlock_healthy hbs (by omega) h.healthy, diskBlock_eq_block hbs (by omega) hreach, block,
    Drive.flatMap_sector, Nat.mul_assoc, hsectors]

/-- The group and the index of an inode, as the code computes them. -/
theorem divRem_inode (hn : fs.InodeNumber n) :
    ∃ group idx, divRem (n - 1) fs.inodesPerGroup = .ok (group, idx) ∧
      group.toNat = fs.inodeGroup n ∧ idx.toNat = fs.inodeIndex n := by
  have hpred : (n - 1).toNat = n.toNat - 1 := by
    have hle : (1 : UInt32) ≤ n := UInt32.le_iff_toNat_le.mpr hn.1
    rw [UInt32.toNat_sub_of_le _ _ hle]
    rfl
  obtain ⟨group, idx, hdiv, hg, hi⟩ := divRem_ofNat (n - 1)
    (Nat.zero_lt_of_lt (inodeIndex_lt hn)) fs.inodesPerGroup.toNat_lt
  rw [UInt32.ofNat_toNat] at hdiv
  rw [hpred, ← inodeGroup] at hg
  rw [hpred, ← inodeIndex] at hi
  exact ⟨group, idx, hdiv, hg, hi⟩

/-- The descriptor of a group is read from the table of descriptors. -/
theorem Image.readBgDesc (h : fs.Image d) {group : UInt32} (hg : group.toNat < fs.bgCount.toNat) :
    fs.readBgDesc d group = .ok (fs.groupDescriptor d group.toNat) := by
  have hbehind := h.behind _ hg
  have hreached := h.reached _ hg
  have hlen : BG_DESCRIPTOR_LEN = 32 := rfl
  have hper : 0 < fs.blockSize / BG_DESCRIPTOR_LEN ∧ fs.blockSize / BG_DESCRIPTOR_LEN < 2 ^ 32 := by
    rcases h.blockSize with hbs | hbs | hbs <;> rw [hbs] <;> decide
  obtain ⟨q, r, hdiv, hq, hr⟩ := divRem_ofNat group hper.1 hper.2
  -- the block and the offset make up the position
  have hplace : (fs.bgDescTableBlock + q).toNat * fs.blockSize + r.toNat * BG_DESCRIPTOR_LEN =
        fs.bgDescTableBlock.toNat * fs.blockSize + group.toNat * BG_DESCRIPTOR_LEN ∧
      r.toNat * BG_DESCRIPTOR_LEN + BG_DESCRIPTOR_LEN ≤ fs.blockSize ∧
      (fs.bgDescTableBlock + q).toNat * fs.blockSize < 2 ^ 28 * 512 := by
    rw [UInt32.toNat_add, hq, hr]
    rcases h.blockSize with hbs | hbs | hbs <;> rw [hbs, hlen] at hbehind hper ⊢ <;> omega
  have hread := h.readBlock _ hplace.2.2
  rw [Ext3Fs.readBgDesc, hdiv]
  simp only [bind, Except.bind, hread, pure, Except.pure]
  rw [BgDescriptor.ofBytes_bytes hplace.2.1, hplace.1, groupDescriptor]

/-- `read_inode` decodes the bytes at the position where it looks for the inode. -/
theorem Image.readInode (h : fs.Image d) (hn : fs.InodeNumber n) :
    fs.readInode d n = .ok (.ofBytes (d.bytes (fs.slotStart d n) INODE_LEN) 0) := by
  have hindex := inodeIndex_lt hn
  have hgroup := inodeGroup_lt hn
  have hreached := h.reached _ hgroup
  have hlen : INODE_LEN = 116 ∧ RECORD_LEN = 128 := ⟨rfl, rfl⟩
  obtain ⟨group, idx, hdiv, hg, hi⟩ := divRem_inode hn
  have hper : 0 < fs.blockSize / INODE_LEN ∧ fs.blockSize / INODE_LEN < 2 ^ 32 := by
    rcases h.blockSize with hbs | hbs | hbs <;> rw [hbs] <;> decide
  obtain ⟨q, r, hslot, hq, hr⟩ := divRem_ofNat idx hper.1 hper.2
  have hdesc := h.readBgDesc (show group.toNat < fs.bgCount.toNat by omega)
  have hplace : ((fs.groupDescriptor d group.toNat).inodeTable + q).toNat * fs.blockSize +
        r.toNat * INODE_LEN = fs.slotStart d n ∧ r.toNat * INODE_LEN + INODE_LEN ≤ fs.blockSize ∧
      ((fs.groupDescriptor d group.toNat).inodeTable + q).toNat * fs.blockSize < 2 ^ 28 * 512 := by
    rw [slotStart, tableStart, UInt32.toNat_add, hq, hr, hi, hg]
    rw [tableStart] at hreached
    rcases h.blockSize with hbs | hbs | hbs <;> rw [hbs, hlen.1] at hper ⊢ <;>
      rw [hbs, hlen.2] at hreached <;> omega
  have hread := h.readBlock _ hplace.2.2
  rw [Ext3Fs.readInode, inodeSlot, hdiv]
  simp only [bind, Except.bind, hdesc, hslot, pure, Except.pure, hread]
  rw [Inode.ofBytes_bytes hplace.2.1, hplace.1]

/-- The two positions agree at the start of a table, and with 1 KiB blocks at the start of each of
    its blocks. -/
private theorem slotStart_eq_iff (h : fs.Image d) :
    fs.slotStart d n = fs.recordStart d n ↔
      fs.inodeIndex n = 0 ∨ fs.blockSize = 1024 ∧ fs.inodeIndex n % 8 = 0 := by
  have hlen : INODE_LEN = 116 ∧ RECORD_LEN = 128 := ⟨rfl, rfl⟩
  rw [slotStart, recordStart, hlen.1, hlen.2]
  rcases h.blockSize with hbs | hbs | hbs <;> rw [hbs] <;> omega

/-! ### Other contents of an inode table -/

theorem SameOutside.groupDescriptor (h : fs.Image d) {g : Nat} (hg : g < fs.bgCount.toNat)
    (hsame : fs.SameOutside d g d') {i : Nat} (hi : i < fs.bgCount.toNat) :
    fs.groupDescriptor d' i = fs.groupDescriptor d i := by
  have hbehind := h.behind g hg
  rw [Ext3Fs.groupDescriptor, Ext3Fs.groupDescriptor]
  congr 1
  refine Drive.bytes_congr fun k hk => hsame.byte _ (.inl ?_)
  simp only [BG_DESCRIPTOR_LEN] at hbehind hk ⊢
  omega

theorem SameOutside.image (h : fs.Image d) {g : Nat} (hg : g < fs.bgCount.toNat)
    (hsame : fs.SameOutside d g d') : fs.Image d' where
  blockSize := h.blockSize
  healthy := hsame.healthy
  behind := fun i hi => by
    rw [tableStart, hsame.groupDescriptor h hg hi]
    exact h.behind i hi
  reached := fun i hi => by
    rw [tableStart, hsame.groupDescriptor h hg hi]
    exact h.reached i hi

theorem SameOutside.slotStart (h : fs.Image d) (hn : fs.InodeNumber n)
    (hsame : fs.SameOutside d (fs.inodeGroup n) d') :
    fs.slotStart d' n = fs.slotStart d n ∧ fs.recordStart d' n = fs.recordStart d n := by
  have hgroup := inodeGroup_lt hn
  rw [Ext3Fs.slotStart, Ext3Fs.slotStart, recordStart, recordStart, tableStart, tableStart,
    hsame.groupDescriptor h hgroup hgroup]
  exact ⟨rfl, rfl⟩

/-- A byte of a record lies in the inode table. -/
private theorem sameOutside_setByte (h : fs.Image d) (hn : fs.InodeNumber n) (v : UInt8) :
    fs.SameOutside d (fs.inodeGroup n) (d.setByte (fs.recordStart d n) v) where
  healthy := h.healthy
  byte := fun pos hpos => by
    have hindex := inodeIndex_lt hn
    rw [Drive.byte_setByte, if_neg]
    simp only [recordStart, RECORD_LEN] at hpos ⊢
    omega

/-- `read_inode` finds an inode's record, whatever the inode table of its group holds, exactly if
    the inode is the first one of the group or, with 1 KiB blocks, the first one of a block. -/
theorem readInode_record_iff (fs : Ext3Fs) (d : Drive) (n : UInt32) (h : fs.Image d)
    (hn : fs.InodeNumber n) :
    (∀ d', fs.SameOutside d (fs.inodeGroup n) d' → fs.readInode d' n = .ok (fs.record d' n)) ↔
      fs.inodeIndex n = 0 ∨ fs.blockSize = 1024 ∧ fs.inodeIndex n % 8 = 0 := by
  rw [← slotStart_eq_iff h]
  constructor
  · intro hread
    by_contra hne
    -- a record that differs from what `read_inode` finds in its first byte
    have hsame := sameOutside_setByte h hn (d.byte (fs.slotStart d n) + 1)
    obtain ⟨hslot, hrecord⟩ := hsame.slotStart h hn
    have hfound := hread _ hsame
    rw [(hsame.image h (inodeGroup_lt hn)).readInode hn] at hfound
    have hmode := congrArg (fun i : Inode => i.mode.toNat % 256) (Except.ok.inj hfound)
    simp only [record, Inode.mode_bytes] at hmode
    rw [UInt8.toNat_inj, hslot, hrecord, Drive.byte_setByte, Drive.byte_setByte, if_neg hne,
      if_pos rfl] at hmode
    exact absurd hmode (by simp)
  · intro heq d' hsame
    obtain ⟨hslot, hrecord⟩ := hsame.slotStart h hn
    rw [(hsame.image h (inodeGroup_lt hn)).readInode hn, record, hslot, hrecord, heq]

/-! ### A small image -/

/-- A filesystem of one group of 16 inodes with 1 KiB blocks. -/
def revision0Fs : Ext3Fs := ⟨1024, 16, 64, 2, 1⟩

/-- Its inode table is in the blocks 5 and 6; the records of inode 2, the root directory, and of
    inode 9 have a mode. -/
def revision0Image : Drive := .ofBlocks fun b =>
  if b = 1 then [16, 0, 0, 0, 64, 0, 0, 0] ++ List.replicate 12 0 ++ [1, 0, 0, 0] ++
    List.replicate 8 0 ++ [64, 0, 0, 0, 0, 0, 0, 0, 16, 0, 0, 0] ++ List.replicate 12 0 ++ [0x53, 0xEF]
  else if b = 2 then [3, 0, 0, 0, 4, 0, 0, 0, 5, 0, 0, 0]
  else if b = 5 then List.replicate 128 0 ++ [0xED, 0x41]
  else if b = 6 then [0xA4, 0x81]
  else []

example : mount revision0Image = .ok revision0Fs := by rfl

private theorem revision0_image : revision0Fs.Image revision0Image where
  blockSize := .inl rfl
  healthy := Drive.healthy_ofBlocks _
  behind := by decide +kernel
  reached := by decide +kernel

theorem ninth_inode_found :
    revision0Fs.readInode revision0Image 9 = .ok (revision0Fs.record revision0Image 9) := by
  have hiff := readInode_record_iff revision0Fs revision0Image 9 revision0_image
    (by unfold InodeNumber; decide)
  exact hiff.mpr (.inr ⟨rfl, rfl⟩) revision0Image ⟨Drive.healthy_ofBlocks _, fun _ _ => rfl⟩

/-- The root directory is not found: its record starts at byte 128 of the inode table, and
    `read_inode` reads from byte 116 on. -/
theorem root_inode_misplaced :
    ¬∀ (fs : Ext3Fs) (d : Drive) (n : UInt32), fs.Image d → fs.InodeNumber n →
      fs.readInode d n = .ok (fs.record d n) := by
  intro h
  have hnumber : revision0Fs.InodeNumber 2 := by
    unfold InodeNumber
    decide
  have hfound := h revision0Fs revision0Image 2 revision0_image hnumber
  rw [revision0_image.readInode hnumber] at hfound
  have hmode := congrArg (fun i : Inode => i.mode.toNat % 256) (Except.ok.inj hfound)
  simp only [record, Inode.mode_bytes] at hmode
  have hslot : revision0Image.byte (revision0Fs.slotStart revision0Image 2) = 0 := by decide +kernel
  have hrecord : revision0Image.byte (revision0Fs.recordStart revision0Image 2) = 0xED := by
    decide +kernel
  rw [hslot, hrecord] at hmode
  cases hmode

end Ext3Fs

end RustKernel.Fs
