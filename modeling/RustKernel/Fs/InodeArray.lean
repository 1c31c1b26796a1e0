import RustKernel.Fs.InodeLocation

/-!
# RustKernel.Fs.InodeArray

The inode tables of all groups taken together are an array of inodes, for every block size that the
driver can transfer and on drives with faulty sectors too.

`Tables` says where the tables are: apart from each other and from the descriptors, where 28-bit
addresses reach. Then `read_inode` and `write_inode` go to `slot`, and the slots of different inodes
are in different blocks or apart in the same one (`slot_apart`).

## Main result

* `writeInode_array`: an inode that was written is read back, and every other inode number reads as
  before, with its error where it had one.
-/

namespace RustKernel.Fs

open Lib

namespace Ext3Fs

variable (fs : Ext3Fs) (d : Drive)

/-! ### The tables -/

/-- The block that holds the descriptor of a group. -/
def descriptorBlock (g : Nat) : UInt32 :=
  fs.bgDescTableBlock + UInt32.ofNat (g / fs.descriptorsPerBlock)

/-- The descriptor of a group as its block has it. -/
def descriptorOf (g : Nat) : BgDescriptor :=
  .ofBytes (fs.diskBlock d (fs.descriptorBlock g)) (g % fs.descriptorsPerBlock * BG_DESCRIPTOR_LEN)

/-- The first block of the inode table of a group. -/
def tableOf (g : Nat) : Nat := (fs.descriptorOf d g).inodeTable.toNat

/-- The inode tables of the groups lie apart from each other and from the table of descriptors, and
    28-bit sector addresses reach all of them. -/
structure Tables : Prop where
  apart : ∀ g < fs.bgCount.toNat, ∀ h < fs.bgCount.toNat, g ≠ h →
    fs.tableOf d g + fs.inodeBlocks ≤ fs.tableOf d h ∨
      fs.tableOf d h + fs.inodeBlocks ≤ fs.tableOf d g
  outside : ∀ g < fs.bgCount.toNat,
    fs.tableOf d g + fs.inodeBlocks ≤ fs.bgDescTableBlock.toNat ∨
      fs.bgDescTableBlock.toNat + fs.descriptorBlocks ≤ fs.tableOf d g
  reached : ∀ g < fs.bgCount.toNat,
    (fs.tableOf d g + fs.inodeBlocks) * (fs.blockSize / 512) ≤ 2 ^ 28
  descriptors_reached :
    (fs.bgDescTableBlock.toNat + fs.descriptorBlocks) * (fs.blockSize / 512) ≤ 2 ^ 28

/-- The block of its table that holds an inode. -/
def slotIndex (n : UInt32) : Nat := fs.inodeIndex n / fs.inodesPerBlock

/-- The block of an inode's slot, and the offset of the slot in it. -/
def slot (n : UInt32) : UInt32 :=
  (fs.descriptorOf d (fs.inodeGroup n)).inodeTable + UInt32.ofNat (fs.slotIndex n)

def slotAt (n : UInt32) : Nat := fs.inodeIndex n % fs.inodesPerBlock * INODE_LEN

variable {fs d} {d' : Drive} {k : Nat} {n m : UInt32} {v : Inode}

/-! ### Positions -/

/-- A block among `count` blocks from `b` on, all of which 28-bit addresses reach. -/
private theorem toNat_add_lt (hbs : fs.blockSize = 1024 * 2 ^ k) {b : UInt32} {i count : Nat}
    (hi : i < count) (hreach : (b.toNat + count) * (fs.blockSize / 512) ≤ 2 ^ 28) :
    (b + UInt32.ofNat i).toNat = b.toNat + i ∧
      fs.Reached (b + UInt32.ofNat i) := by
  have hsectors : 1 ≤ fs.blockSize / 512 := by
    have hpos : 0 < 2 ^ k := Nat.two_pow_pos k
    omega
  have hcount : b.toNat + count ≤ 2 ^ 28 := le_trans (Nat.le_mul_of_pos_right _ hsectors) hreach
  have hsum : (b + UInt32.ofNat i).toNat = b.toNat + i := by
    rw [UInt32.toNat_add, UInt32.toNat_ofNat', Nat.mod_eq_of_lt (by omega : i < 2 ^ 32)]
    omega
  refine ⟨hsum, ?_⟩
  rw [Reached, hsum]
  refine lt_of_lt_of_le ?_ hreach
  exact Nat.mul_lt_mul_of_pos_right (by omega) hsectors

theorem Tables.descriptorBlock (ht : fs.Tables d) (hbs : fs.blockSize = 1024 * 2 ^ k) {g : Nat}
    (hg : g < fs.bgCount.toNat) :
    ∃ i < fs.descriptorBlocks,
      (fs.descriptorBlock g).toNat = fs.bgDescTableBlock.toNat + i ∧
      fs.Reached (fs.descriptorBlock g) := by
  have hlt : g / fs.descriptorsPerBlock < fs.descriptorBlocks :=
    div_lt_blocks (perBlock_pos hbs).1 hg
  exact ⟨_, hlt, toNat_add_lt hbs hlt ht.descriptors_reached⟩

theorem Tables.slot (ht : fs.Tables d) (hbs : fs.blockSize = 1024 * 2 ^ k)
    (hn : fs.InodeNumber n) :
    fs.slotIndex n < fs.inodeBlocks ∧
      (fs.slot d n).toNat = fs.tableOf d (fs.inodeGroup n) + fs.slotIndex n ∧
      fs.Reached (fs.slot d n) := by
  have hlt : fs.slotIndex n < fs.inodeBlocks :=
    div_lt_blocks (perBlock_pos hbs).2 (inodeIndex_lt hn)
  exact ⟨hlt, toNat_add_lt hbs hlt (ht.reached _ (inodeGroup_lt hn))⟩

/-- Blocks that 28-bit addresses reach have addresses of their own. -/
private theorem firstSector_ne (hbs : fs.blockSize = 1024 * 2 ^ k) (hk : k ≤ 6) {b c : UInt32}
    (hb : fs.Reached b) (hc : fs.Reached c)
    (hne : b ≠ c) : fs.firstSector b ≠ fs.firstSector c := by
  have hpos : 0 < 2 ^ k := Nat.two_pow_pos k
  rw [firstSector_of_reached hbs hk hb, firstSector_of_reached hbs hk hc]
  exact fun heq => hne (UInt32.toNat_inj.mp (Nat.eq_of_mul_eq_mul_right (by omega) heq))

private theorem Tables.slot_ne_descriptorBlock (ht : fs.Tables d)
    (hbs : fs.blockSize = 1024 * 2 ^ k)
    (hn : fs.InodeNumber n) {g : Nat} (hg : g < fs.bgCount.toNat) :
    fs.descriptorBlock g ≠ fs.slot d n := by
  obtain ⟨i, hi, hdesc, -⟩ := ht.descriptorBlock hbs hg
  obtain ⟨hlt, hslot, -⟩ := ht.slot hbs hn
  intro heq
  rw [heq, hslot] at hdesc
  -- the descriptor's block is in front of the inode table, or behind it
  rcases ht.outside _ (inodeGroup_lt hn) with hout | hout
  · omega
  · omega

/-- The slots of two inodes are in different blocks, or apart in the same one. -/
theorem Tables.slot_apart (ht : fs.Tables d) (hbs : fs.blockSize = 1024 * 2 ^ k)
    (hn : fs.InodeNumber n) (hm : fs.InodeNumber m) (hne : m ≠ n) :
    fs.slot d m ≠ fs.slot d n ∨
      fs.slotAt m + INODE_LEN ≤ fs.slotAt n ∨ fs.slotAt n + INODE_LEN ≤ fs.slotAt m := by
  by_cases hblock : fs.slot d m = fs.slot d n
  case neg => exact .inl hblock
  right
  obtain ⟨hnlt, hslotn, -⟩ := ht.slot hbs hn
  obtain ⟨hmlt, hslotm, -⟩ := ht.slot hbs hm
  rw [hblock, hslotn] at hslotm
  -- a block belongs to the table of one group
  have hgroup : fs.inodeGroup m = fs.inodeGroup n := by
    by_contra hgroups
    rcases ht.apart _ (inodeGroup_lt hm) _ (inodeGroup_lt hn) hgroups with hout | hout
    · omega
    · omega
  rw [hgroup] at hslotm
  -- group, block and remainder together are the inode number
  exact slots_apart (Nat.add_left_cancel hslotm) fun heq => hne (inode_ext hm hn hgroup heq.symm)

/-- A slot does not cross the end of its block. -/
private theorem slotAt_le (hbs : fs.blockSize = 1024 * 2 ^ k) (n : UInt32) :
    fs.slotAt n + INODE_LEN ≤ fs.blockSize := slot_le (perBlock_pos hbs).2 _

/-! ### Reading -/

variable (fs) in
/-- The inode as its slot has it. -/
def inodeIn (d : Drive) (n : UInt32) : Inode := .ofBytes (fs.diskBlock d (fs.slot d n))
    (fs.slotAt n)

theorem readBgDesc_eq (hbs : fs.blockSize = 1024 * 2 ^ k) (hk : k ≤ 6) (d : Drive)
    (group : UInt32) :
    fs.readBgDesc d group = (do
      let _ ← fs.readBlock d (fs.descriptorBlock group.toNat)
      return fs.descriptorOf d group.toNat) := by
  obtain ⟨q, r, hdiv, hq, hr⟩ := divRem_ofNat group (perBlock_pos hbs).1 (perBlock_lt hbs hk).1
  have hblock : fs.bgDescTableBlock + q = fs.descriptorBlock group.toNat := by
    rw [descriptorBlock, ← hq, UInt32.ofNat_toNat]
  rw [descriptorsPerBlock] at hdiv
  rw [readBgDesc, hdiv]
  simp only [bind, Except.bind, hblock]
  cases hread : fs.readBlock d (fs.descriptorBlock group.toNat) with
  | error e => rfl
  | ok buf =>
    rw [readBlock_ok hbs hread, descriptorOf, hr]

private theorem inodeSlot_eq_do (hbs : fs.blockSize = 1024 * 2 ^ k) (hk : k ≤ 6)
    (hn : fs.InodeNumber n) :
    fs.inodeSlot d n = (do
      let _ ← fs.readBlock d (fs.descriptorBlock (fs.inodeGroup n))
      return (fs.slot d n, fs.slotAt n)) := by
  obtain ⟨group, idx, hdiv, hg, hi⟩ := divRem_inode hn
  obtain ⟨q, r, hslot, hq, hr⟩ := divRem_ofNat idx (perBlock_pos hbs).2 (perBlock_lt hbs hk).2
  rw [inodesPerBlock] at hslot
  rw [inodeSlot, hdiv]
  simp only [bind, Except.bind, readBgDesc_eq hbs hk, hg, hslot]
  cases fs.readBlock d (fs.descriptorBlock (fs.inodeGroup n)) with
  | error e => rfl
  | ok buf =>
    simp only [pure, Except.pure]
    rw [slot, slotIndex, slotAt, ← hi, ← hq, hr, UInt32.ofNat_toNat]

/-- `read_inode` reads the descriptor of the group, and the inode from its slot. -/
private theorem readInode_eq_do (hbs : fs.blockSize = 1024 * 2 ^ k) (hk : k ≤ 6)
    (hn : fs.InodeNumber n) :
    fs.readInode d n = (do
      let _ ← fs.readBlock d (fs.descriptorBlock (fs.inodeGroup n))
      let _ ← fs.readBlock d (fs.slot d n)
      return fs.inodeIn d n) := by
  rw [readInode, inodeSlot_eq_do hbs hk hn]
  cases fs.readBlock d (fs.descriptorBlock (fs.inodeGroup n)) with
  | error e => rfl
  | ok desc =>
    simp only [bind, Except.bind, pure, Except.pure]
    cases hread : fs.readBlock d (fs.slot d n) with
    | error e => rfl
    | ok buf =>
      rw [readBlock_ok hbs hread]
      rfl

/-! ### Writing -/

/-- From 128 KiB on no inode is found. -/
private theorem inodeSlot_refused (hbs : fs.blockSize = 1024 * 2 ^ k) (hk : 7 ≤ k) (n : UInt32)
    (place : UInt32 × Nat) : fs.inodeSlot d n ≠ .ok place := by
  intro hslot
  rw [inodeSlot] at hslot
  cases hdiv : divRem (n - 1) fs.inodesPerGroup with
  | error e =>
    rw [hdiv] at hslot
    cases hslot
  | ok r =>
    rw [hdiv] at hslot
    -- the descriptor is read before the slot is computed
    simp only [bind, Except.bind, readBgDesc, readBlock_refused hbs hk] at hslot
    cases hper : divRem r.1 (UInt32.ofNat (fs.blockSize / BG_DESCRIPTOR_LEN)) with
    | error e =>
      rw [hper] at hslot
      cases hslot
    | ok r =>
      rw [hper] at hslot
      cases hslot

/-- Where an inode was found, its descriptor was read. -/
private theorem inodeSlot_ok (hbs : fs.blockSize = 1024 * 2 ^ k) (hk : k ≤ 6)
    (hn : fs.InodeNumber n)
    {place : UInt32 × Nat} (hslot : fs.inodeSlot d n = .ok place) :
    place = (fs.slot d n, fs.slotAt n) ∧
      ∃ buf, fs.readBlock d (fs.descriptorBlock (fs.inodeGroup n)) = .ok buf := by
  rw [inodeSlot_eq_do hbs hk hn] at hslot
  cases hdesc : fs.readBlock d (fs.descriptorBlock (fs.inodeGroup n)) with
  | error e =>
    rw [hdesc] at hslot
    cases hslot
  | ok buf =>
    rw [hdesc] at hslot
    exact ⟨(Except.ok.inj hslot).symm, buf, rfl⟩

variable (fs) in
/-- `d'` is `d` with the slot of one inode written, from which `write_inode` could read. -/
structure SlotWritten (d : Drive) (n : UInt32) (v : Inode) (d' : Drive) : Prop where
  faulty : d'.faulty = d.faulty
  descriptor : ∃ buf, fs.readBlock d (fs.descriptorBlock (fs.inodeGroup n)) = .ok buf
  slot : ∃ buf, fs.readBlock d (fs.slot d n) = .ok buf
  written : fs.BlockReplaced d (fs.slot d n)
    (overwrite (fs.diskBlock d (fs.slot d n)) (fs.slotAt n) v.toBytes) d'

private theorem length_overwrite_slot (hbs : fs.blockSize = 1024 * 2 ^ k) (b n : UInt32)
    (v : Inode) :
    (overwrite (fs.diskBlock d b) (fs.slotAt n) v.toBytes).length = fs.blockSize := by
  have hle := slotAt_le hbs n
  have hlen := length_diskBlock (d := d) hbs b
  rw [length_overwrite _ _ _ (by rwa [v.length_toBytes, hlen]), hlen]

/-- What a `write_inode` that returned has done. -/
private theorem writeInode_ok (hbs : fs.blockSize = 1024 * 2 ^ k) (hn : fs.InodeNumber n)
    {v : Inode}
    (hwrite : (fs.writeInode n v).exec d = (.ok (), d')) : k ≤ 6 ∧ fs.SlotWritten d n v d' := by
  rw [writeInode] at hwrite
  obtain ⟨place, hplace, hwrite⟩ := Fallible.exec_reading_bind_ok hwrite
  have hk : k ≤ 6 := by
    by_contra hk
    exact inodeSlot_refused hbs (by omega) n place hplace
  -- both reads have returned, so what is written is the block of the slot
  obtain ⟨rfl, hdesc⟩ := inodeSlot_ok hbs hk hn hplace
  obtain ⟨buf, hbuf, hwrite⟩ := Fallible.exec_reading_bind_ok hwrite
  obtain rfl := readBlock_ok hbs hbuf
  have hfaulty := writeBlock_faulty fs d (fs.slot d n)
    (overwrite (fs.diskBlock d (fs.slot d n)) (fs.slotAt n) v.toBytes)
  rw [hwrite] at hfaulty
  exact ⟨hk, hfaulty, hdesc, ⟨_, hbuf⟩,
    (writeBlock_ends hbs _ _ (length_overwrite_slot hbs _ n v)).ok hwrite⟩

/-- A block at another address reads as before. -/
theorem SlotWritten.diskBlock (h : fs.SlotWritten d n v d') {c : UInt32}
    (hne : fs.firstSector c ≠ fs.firstSector (fs.slot d n)) :
    fs.diskBlock d' c = fs.diskBlock d c := by
  rw [h.written, if_neg hne]

/-- The descriptors are in blocks that were not written. -/
theorem SlotWritten.descriptors (h : fs.SlotWritten d n v d') (hbs : fs.blockSize = 1024 * 2 ^ k)
    (hk : k ≤ 6) (ht : fs.Tables d) (hn : fs.InodeNumber n) {g : Nat}
    (hg : g < fs.bgCount.toNat) :
    fs.diskBlock d' (fs.descriptorBlock g) = fs.diskBlock d (fs.descriptorBlock g) := by
  obtain ⟨-, -, -, hdesc⟩ := ht.descriptorBlock hbs hg
  obtain ⟨-, -, hslot⟩ := ht.slot hbs hn
  exact h.diskBlock (firstSector_ne hbs hk hdesc hslot (ht.slot_ne_descriptorBlock hbs hn hg))

theorem SlotWritten.slot_eq (h : fs.SlotWritten d n v d') (hbs : fs.blockSize = 1024 * 2 ^ k)
    (hk : k ≤ 6) (ht : fs.Tables d) (hn : fs.InodeNumber n) (hm : fs.InodeNumber m) :
    fs.slot d' m = fs.slot d m := by
  rw [Ext3Fs.slot, Ext3Fs.slot, descriptorOf, descriptorOf,
    h.descriptors hbs hk ht hn (inodeGroup_lt hm)]

/-- The written slot holds the inode. -/
private theorem SlotWritten.inodeIn_self (h : fs.SlotWritten d n v d')
    (hbs : fs.blockSize = 1024 * 2 ^ k) (hk : k ≤ 6) (ht : fs.Tables d) (hn : fs.InodeNumber n) :
    fs.inodeIn d' n = v := by
  have hle := slotAt_le hbs n
  have hwindow := window_overwrite (fs.diskBlock d (fs.slot d n)) v.toBytes (fs.slotAt n)
    (by rw [length_diskBlock hbs]; omega)
  rw [v.length_toBytes] at hwindow
  rw [inodeIn, h.slot_eq hbs hk ht hn hn, h.written, if_pos rfl, ← Inode.ofBytes_window, hwindow,
    Inode.ofBytes_toBytes]

/-- Every other slot holds the inode it held. -/
private theorem SlotWritten.inodeIn_other (h : fs.SlotWritten d n v d')
    (hbs : fs.blockSize = 1024 * 2 ^ k) (hk : k ≤ 6) (ht : fs.Tables d) (hn : fs.InodeNumber n)
    (hm : fs.InodeNumber m) (hne : m ≠ n) : fs.inodeIn d' m = fs.inodeIn d m := by
  rw [inodeIn, inodeIn, h.slot_eq hbs hk ht hn hm]
  by_cases hblock : fs.slot d m = fs.slot d n
  · -- the slot lies beside the one that was written
    have hle := slotAt_le hbs n
    have hapart := (ht.slot_apart hbs hn hm hne).resolve_left fun hdiff => hdiff hblock
    rw [hblock, h.written, if_pos rfl, ← Inode.ofBytes_window,
      ← Inode.ofBytes_window (fs.diskBlock d _),
      window_overwrite_of_apart _ _ _ _ _ (by rwa [v.length_toBytes, length_diskBlock hbs])
        (by rwa [v.length_toBytes])]
  · obtain ⟨-, -, hslotm⟩ := ht.slot hbs hm
    obtain ⟨-, -, hslotn⟩ := ht.slot hbs hn
    rw [h.diskBlock (firstSector_ne hbs hk hslotm hslotn hblock)]

/-- The blocks that can be read are the same ones after the write. -/
private theorem SlotWritten.readBlock_map (h : fs.SlotWritten d n v d')
    (hbs : fs.blockSize = 1024 * 2 ^ k)
    (hk : k ≤ 6) (b : UInt32) :
    fs.readBlock d' b = (fs.readBlock d b).map fun _ => fs.diskBlock d' b := by
  have hsame : fs.blockFaulty d' b = fs.blockFaulty d b := by
    rw [blockFaulty, blockFaulty, h.faulty]
  rw [readBlock_eq_ite hbs hk, readBlock_eq_ite hbs hk, hsame]
  cases fs.blockFaulty d b
  · rfl
  · rfl

/-- The inode tables are an array: an inode that was written is read back, and every other inode
    number reads as before. -/
theorem writeInode_array (fs : Ext3Fs) (d d' : Drive) (k : Nat) (n m : UInt32) (v : Inode)
    (hbs : fs.blockSize = 1024 * 2 ^ k) (ht : fs.Tables d) (hn : fs.InodeNumber n)
    (hm : fs.InodeNumber m) (hwrite : (fs.writeInode n v).exec d = (.ok (), d')) :
    fs.readInode d' n = .ok v ∧ (m ≠ n → fs.readInode d' m = fs.readInode d m) := by
  obtain ⟨hk, h⟩ := writeInode_ok hbs hn hwrite
  constructor
  · -- the two reads that returned before return again
    obtain ⟨desc, hdesc⟩ := h.descriptor
    obtain ⟨buf, hslot⟩ := h.slot
    rw [readInode_eq_do hbs hk hn, h.slot_eq hbs hk ht hn hn, h.readBlock_map hbs hk,
      h.readBlock_map hbs hk, hdesc, hslot, h.inodeIn_self hbs hk ht hn]
    rfl
  · -- the two reads for `m` end as before, where they fail too
    intro hne
    have hdesc := readBlock_congr hbs h.faulty (h.descriptors hbs hk ht hn (inodeGroup_lt hm))
    rw [readInode_eq_do hbs hk hm, readInode_eq_do hbs hk hm, hdesc, h.slot_eq hbs hk ht hn hm,
      h.readBlock_map hbs hk (fs.slot d m), h.inodeIn_other hbs hk ht hn hm hne]
    cases fs.readBlock d (fs.slot d m) with
    | error e => rfl
    | ok buf => rfl

/-- Two groups of 16 inodes, with 1 KiB blocks: their tables are at blocks 5 and 9. -/
def twoTables : Ext3Fs := ⟨1024, 16, 64, 2, 2⟩

def twoTablesImage : Drive := .ofBlocks fun b =>
  if b = 2 then
    [3, 0, 0, 0, 4, 0, 0, 0, 5, 0, 0, 0] ++ List.replicate 20 0 ++
      [7, 0, 0, 0, 8, 0, 0, 0, 9, 0, 0, 0]
  else []

private theorem twoTables_tables : twoTables.Tables twoTablesImage where
  apart := by decide +kernel
  outside := by decide +kernel
  reached := by decide +kernel
  descriptors_reached := by decide +kernel

/-- Writing the second inode of the second group leaves the second one of the first group. -/
theorem inode_18_written :
    twoTables.readInode ((twoTables.writeInode 18 emptyFile).exec twoTablesImage).2 18 =
        .ok emptyFile ∧
      (2 ≠ (18 : UInt32) →
        twoTables.readInode ((twoTables.writeInode 18 emptyFile).exec twoTablesImage).2 2 =
          twoTables.readInode twoTablesImage 2) := by
  have hreturned : ((twoTables.writeInode 18 emptyFile).exec twoTablesImage).1 = .ok () := by
    decide +kernel
  exact writeInode_array twoTables twoTablesImage _ 0 18 2 emptyFile rfl twoTables_tables
    ⟨by decide, by decide⟩ ⟨by decide, by decide⟩ (Fallible.exec_eq_of_fst hreturned)

end Ext3Fs

end RustKernel.Fs
