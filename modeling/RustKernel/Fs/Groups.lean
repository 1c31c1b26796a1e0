import RustKernel.Fs.InodeLocation

/-!
# RustKernel.Fs.Groups

A volume of several block groups: where its metadata are, and reading and writing an inode of any
group.

A metadata block is named by what it holds (`MetaBlock`), and `place` says where it is. `Grouped`
says that blocks of different names are at different places. In a group, bit `i` of the block bitmap
stands for block `1 + g * blocks_per_group + i`, and bit `i` of the inode bitmap for inode
`1 + g * inodes_per_group + i`.

## Main results

- `Grouped.readInode`, `Grouped.writeInode`: an inode of any group is read, and writing it changes no
  other
- `Grouped.of_kept`: the geometry is kept while the descriptors are
- `Grouped.allocBlock`, `Grouped.allocInode`, `Grouped.freeBlock`, `Grouped.freeInode`: the bits that
  the allocators take and give back
-/

namespace RustKernel.Fs

open Lib

/-- The blocks that hold no file's data, by what they hold. -/
inductive MetaBlock
  | descriptors (k : Nat)
  | blockBitmap (g : Nat)
  | inodeBitmap (g : Nat)
  | inodeTable (g k : Nat)
deriving DecidableEq

namespace Ext3Fs

variable (fs : Ext3Fs) (d : Drive)

/-! ### Geometry -/

/-- The descriptor of a group. -/
def descriptorAt (g : Nat) : BgDescriptor :=
  .ofBytes (fs.block d (fs.bgDescTableBlock + UInt32.ofNat (g / fs.descriptorsPerBlock)))
    (g % fs.descriptorsPerBlock * BG_DESCRIPTOR_LEN)

/-- The block at which metadata are. -/
def place : MetaBlock → UInt32
  | .descriptors k => fs.bgDescTableBlock + UInt32.ofNat k
  | .blockBitmap g => (fs.descriptorAt d g).blockBitmap
  | .inodeBitmap g => (fs.descriptorAt d g).inodeBitmap
  | .inodeTable g k => (fs.descriptorAt d g).inodeTable + UInt32.ofNat k

/-- The metadata of a group. -/
def groupBlocks (g : Nat) : List MetaBlock :=
  .blockBitmap g :: .inodeBitmap g :: (List.range fs.inodeBlocks).map (.inodeTable g)

def metaBlocks : List MetaBlock :=
  (List.range fs.descriptorBlocks).map .descriptors ++
    (List.range fs.bgCount.toNat).flatMap fs.groupBlocks

/-- No faulty sector, and metadata in blocks of their own, which 28-bit addresses reach. -/
structure Grouped : Prop where
  sized : fs.Sized
  healthy : d.Healthy
  nodup : (fs.metaBlocks.map (fs.place d)).Nodup
  reached : ∀ m ∈ fs.metaBlocks, fs.Reached (fs.place d m)
  groups : 0 < fs.bgCount.toNat

/-- The metadata block that holds an inode. -/
def slotOf (n : UInt32) : MetaBlock :=
  .inodeTable (fs.inodeGroup n) (fs.inodeIndex n / fs.inodesPerBlock)

/-- The offset of an inode in its block. -/
def offsetOf (n : UInt32) : Nat := fs.inodeIndex n % fs.inodesPerBlock * INODE_LEN

/-- The inode as the table of its group has it. -/
def inodeOf (n : UInt32) : Inode := .ofBytes (fs.block d (fs.place d (fs.slotOf n))) (fs.offsetOf n)

variable {fs d} {d' : Drive} {n : UInt32} {m m' : MetaBlock} {g : Nat}

/-- The descriptor of a group is in one of the blocks of descriptors. -/
private theorem descriptors_lt (hsized : fs.Sized) (hg : g < fs.bgCount.toNat) :
    g / fs.descriptorsPerBlock < fs.descriptorBlocks :=
  div_lt_blocks hsized.descriptorsPerBlock.1 hg

private theorem descriptors_mem (hsized : fs.Sized) (hg : g < fs.bgCount.toNat) :
    .descriptors (g / fs.descriptorsPerBlock) ∈ fs.metaBlocks :=
  List.mem_append_left _ (List.mem_map_of_mem (List.mem_range.mpr (descriptors_lt hsized hg)))

private theorem groupBlocks_mem (hg : g < fs.bgCount.toNat) (hm : m ∈ fs.groupBlocks g) :
    m ∈ fs.metaBlocks :=
  List.mem_append_right _ (List.mem_flatMap.mpr ⟨g, List.mem_range.mpr hg, hm⟩)

theorem blockBitmap_mem (hg : g < fs.bgCount.toNat) : .blockBitmap g ∈ fs.metaBlocks :=
  groupBlocks_mem hg List.mem_cons_self

theorem inodeBitmap_mem (hg : g < fs.bgCount.toNat) : .inodeBitmap g ∈ fs.metaBlocks :=
  groupBlocks_mem hg (List.mem_cons_of_mem _ List.mem_cons_self)

theorem slotOf_mem (hsized : fs.Sized) (hn : fs.InodeNumber n) : fs.slotOf n ∈ fs.metaBlocks := by
  have hblock := div_lt_blocks hsized.inodesPerBlock.1 (inodeIndex_lt hn)
  refine groupBlocks_mem (inodeGroup_lt hn) (List.mem_cons_of_mem _ (List.mem_cons_of_mem _ ?_))
  exact List.mem_map_of_mem (List.mem_range.mpr hblock)

/-- Metadata at the same place are the same. -/
private theorem Grouped.place_inj (h : fs.Grouped d) (hm : m ∈ fs.metaBlocks)
    (hm' : m' ∈ fs.metaBlocks)
    (heq : fs.place d m = fs.place d m') : m = m' :=
  List.inj_on_of_nodup_map h.nodup hm hm' heq

theorem Grouped.place_ne (h : fs.Grouped d) (hm : m ∈ fs.metaBlocks) (hm' : m' ∈ fs.metaBlocks)
    (hne : m ≠ m') : fs.place d m ≠ fs.place d m' :=
  fun heq => hne (h.place_inj hm hm' heq)

/-- A member of `metaBlocks` is a block of descriptors, or belongs to a group. -/
private theorem mem_metaBlocks (hm : m ∈ fs.metaBlocks) :
    (∃ k < fs.descriptorBlocks, m = .descriptors k) ∨
      ∃ g < fs.bgCount.toNat, m = .blockBitmap g ∨ m = .inodeBitmap g ∨ ∃ k, m = .inodeTable g k := by
  rcases List.mem_append.mp hm with hm | hm
  · obtain ⟨k, hk, rfl⟩ := List.mem_map.mp hm
    exact .inl ⟨k, List.mem_range.mp hk, rfl⟩
  · obtain ⟨g, hg, hm⟩ := List.mem_flatMap.mp hm
    refine .inr ⟨g, List.mem_range.mp hg, ?_⟩
    rw [groupBlocks, List.mem_cons, List.mem_cons] at hm
    refine hm.imp_right (Or.imp_right fun hm => ?_)
    obtain ⟨k, -, rfl⟩ := List.mem_map.mp hm
    exact ⟨k, rfl⟩

/-! ### Drives with the same descriptors -/

variable (fs) in
/-- `d'` is healthy and has the descriptors of `d`. -/
structure KeptGroups (d d' : Drive) : Prop where
  healthy : d'.Healthy
  descriptors : ∀ k < fs.descriptorBlocks,
    fs.block d' (fs.place d (.descriptors k)) = fs.block d (fs.place d (.descriptors k))

theorem KeptGroups.descriptorAt (h : fs.KeptGroups d d') (hsized : fs.Sized)
    (hg : g < fs.bgCount.toNat) : fs.descriptorAt d' g = fs.descriptorAt d g := by
  have hblock := h.descriptors _ (descriptors_lt hsized hg)
  simp only [place] at hblock
  rw [Ext3Fs.descriptorAt, Ext3Fs.descriptorAt, hblock]

theorem KeptGroups.place (h : fs.KeptGroups d d') (hsized : fs.Sized) (hm : m ∈ fs.metaBlocks) :
    fs.place d' m = fs.place d m := by
  rcases mem_metaBlocks hm with ⟨k, -, rfl⟩ | ⟨g, hg, rfl | rfl | ⟨k, rfl⟩⟩
  · rfl
  · rw [Ext3Fs.place, Ext3Fs.place, h.descriptorAt hsized hg]
  · rw [Ext3Fs.place, Ext3Fs.place, h.descriptorAt hsized hg]
  · rw [Ext3Fs.place, Ext3Fs.place, h.descriptorAt hsized hg]

theorem KeptGroups.trans {d'' : Drive} (h : fs.KeptGroups d d') (h' : fs.KeptGroups d' d'') :
    fs.KeptGroups d d'' where
  healthy := h'.healthy
  descriptors := fun k hk => (h'.descriptors k hk).trans (h.descriptors k hk)

/-- A drive on which one block of metadata has changed that holds no descriptors. -/
theorem Grouped.keptGroups (h : fs.Grouped d) (hd' : d'.Healthy) (hm : m ∈ fs.metaBlocks)
    (hne : ∀ k, m ≠ .descriptors k) (hothers : ∀ c, c ≠ fs.place d m → fs.block d' c = fs.block d c) :
    fs.KeptGroups d d' where
  healthy := hd'
  descriptors := fun k hk => by
    have hmem : MetaBlock.descriptors k ∈ fs.metaBlocks :=
      List.mem_append_left _ (List.mem_map_of_mem (List.mem_range.mpr hk))
    exact hothers _ (h.place_ne hmem hm (hne k).symm)

theorem Grouped.of_kept (h : fs.Grouped d) (hk : fs.KeptGroups d d') : fs.Grouped d' where
  sized := h.sized
  healthy := hk.healthy
  nodup := by
    rw [List.map_congr_left fun m hm => hk.place h.sized hm]
    exact h.nodup
  reached := fun m hm => by
    rw [hk.place h.sized hm]
    exact h.reached m hm
  groups := h.groups

/-- The inode is that of the table while the table block is the same. -/
theorem KeptGroups.inodeOf (h : fs.KeptGroups d d') (hsized : fs.Sized) (hn : fs.InodeNumber n)
    (hblock : fs.block d' (fs.place d (fs.slotOf n)) = fs.block d (fs.place d (fs.slotOf n))) :
    fs.inodeOf d' n = fs.inodeOf d n := by
  rw [Ext3Fs.inodeOf, Ext3Fs.inodeOf, h.place hsized (slotOf_mem hsized hn), hblock]

/-! ### Reading and writing an inode -/

theorem Grouped.readBgDesc (h : fs.Grouped d) {group : UInt32}
    (hg : group.toNat < fs.bgCount.toNat) :
    fs.readBgDesc d group = .ok (fs.descriptorAt d group.toNat) := by
  obtain ⟨hpos, hlt⟩ := h.sized.descriptorsPerBlock
  obtain ⟨q, r, hdiv, hq, hr⟩ := divRem_ofNat group hpos hlt
  have hblock : fs.bgDescTableBlock + q =
      fs.place d (.descriptors (group.toNat / fs.descriptorsPerBlock)) := by
    rw [place, ← hq, UInt32.ofNat_toNat]
  have hread := readBlock_eq h.sized h.healthy (h.reached _ (descriptors_mem h.sized hg))
  rw [descriptorsPerBlock] at hdiv
  rw [Ext3Fs.readBgDesc, hdiv]
  simp only [bind, Except.bind, hblock, hread, pure, Except.pure, hr]
  rfl

theorem Grouped.inodeSlot (h : fs.Grouped d) (hn : fs.InodeNumber n) :
    fs.inodeSlot d n = .ok (fs.place d (fs.slotOf n), fs.offsetOf n) := by
  have hgroup := inodeGroup_lt hn
  obtain ⟨hpos, hlt⟩ := h.sized.inodesPerBlock
  obtain ⟨group, idx, hdiv, hg, hi⟩ := divRem_inode hn
  obtain ⟨q, r, hslot, hq, hr⟩ := divRem_ofNat idx hpos hlt
  have hdesc := h.readBgDesc (show group.toNat < fs.bgCount.toNat by omega)
  rw [inodesPerBlock] at hslot
  rw [Ext3Fs.inodeSlot, hdiv]
  simp only [bind, Except.bind, hdesc, hslot, pure, Except.pure]
  rw [slotOf, place, offsetOf, ← hi, ← hq, hr, hg, UInt32.ofNat_toNat]

theorem Grouped.readInode (h : fs.Grouped d) (hn : fs.InodeNumber n) :
    fs.readInode d n = .ok (fs.inodeOf d n) := by
  have hread := readBlock_eq h.sized h.healthy (h.reached _ (slotOf_mem h.sized hn))
  rw [Ext3Fs.readInode, h.inodeSlot hn]
  simp only [bind, Except.bind, hread, pure, Except.pure]
  rfl

/-- Two inodes are in different blocks, or apart in the same one. -/
private theorem slotOf_apart {j : UInt32} (hn : fs.InodeNumber n) (hj : fs.InodeNumber j)
    (hne : j ≠ n) :
    fs.slotOf j ≠ fs.slotOf n ∨
      fs.offsetOf j + INODE_LEN ≤ fs.offsetOf n ∨ fs.offsetOf n + INODE_LEN ≤ fs.offsetOf j := by
  by_cases hslot : fs.slotOf j = fs.slotOf n
  case neg => exact .inl hslot
  right
  simp only [slotOf, MetaBlock.inodeTable.injEq] at hslot
  exact slots_apart hslot.2.symm fun heq => hne (inode_ext hj hn hslot.1 heq.symm)

variable (fs) in
/-- `d'` is `d` with one inode written. -/
structure InodeSet (d : Drive) (n : UInt32) (inode : Inode) (d' : Drive) : Prop where
  healthy : d'.Healthy
  others : ∀ c, c ≠ fs.place d (fs.slotOf n) → fs.block d' c = fs.block d c
  written : fs.inodeOf d' n = inode
  kept : ∀ j, fs.InodeNumber j → j ≠ n → fs.inodeOf d' j = fs.inodeOf d j

theorem InodeSet.keptGroups {inode : Inode} (h : fs.Grouped d) (hn : fs.InodeNumber n)
    (hset : fs.InodeSet d n inode d') : fs.KeptGroups d d' :=
  h.keptGroups hset.healthy (slotOf_mem h.sized hn) nofun hset.others

theorem Grouped.writeInode (h : fs.Grouped d) (hn : fs.InodeNumber n) (inode : Inode) :
    ∃ d', (fs.writeInode n inode).exec d = (.ok (), d') ∧ fs.InodeSet d n inode d' := by
  have hlt := h.reached _ (slotOf_mem h.sized hn)
  have hoff : fs.offsetOf n + INODE_LEN ≤ fs.blockSize := slot_le h.sized.inodesPerBlock.1 _
  have hlength := length_block h.sized d (fs.place d (fs.slotOf n))
  have hinode := inode.length_toBytes
  set buf := overwrite (fs.block d (fs.place d (fs.slotOf n))) (fs.offsetOf n) inode.toBytes with hbuf
  have hlen : buf.length = fs.blockSize := by
    rw [hbuf, length_overwrite _ _ _ (by omega), hlength]
  have hothers : ∀ c, c ≠ fs.place d (fs.slotOf n) →
      fs.block (fs.setBlock d (fs.place d (fs.slotOf n)) buf) c = fs.block d c :=
    fun c hc => block_setBlock_ne h.sized d hlen hc
  have hgroups : fs.KeptGroups d (fs.setBlock d (fs.place d (fs.slotOf n)) buf) :=
    h.keptGroups (healthy_setBlock.mpr h.healthy) (slotOf_mem h.sized hn) nofun hothers
  refine ⟨fs.setBlock d (fs.place d (fs.slotOf n)) buf, ?_, hgroups.healthy, hothers, ?_,
    fun j hj hne => ?_⟩
  · rw [Ext3Fs.writeInode, Fallible.exec_bind, Fallible.exec_reading, h.inodeSlot hn]
    simp only
    rw [Fallible.exec_bind, Fallible.exec_reading, readBlock_eq h.sized h.healthy hlt]
    exact exec_writeBlock h.sized h.healthy hlt hlen
  · -- the slot that was written reads back
    have hwin : window buf (fs.offsetOf n) INODE_LEN = inode.toBytes := by
      rw [← hinode, hbuf]
      exact window_overwrite _ _ _ (by omega)
    rw [inodeOf, hgroups.place h.sized (slotOf_mem h.sized hn), block_setBlock_self h.sized d _ hlen,
      ← Inode.ofBytes_window, hwin, Inode.ofBytes_toBytes]
  · rcases slotOf_apart hn hj hne with hslot | hapart
    · exact hgroups.inodeOf h.sized hj
        (hothers _ (h.place_ne (slotOf_mem h.sized hj) (slotOf_mem h.sized hn) hslot))
    · by_cases hslot : fs.slotOf j = fs.slotOf n
      · -- another slot of the same block lies beside the one that was written
        rw [inodeOf, hgroups.place h.sized (slotOf_mem h.sized hj), hslot,
          block_setBlock_self h.sized d _ hlen,
          ← Inode.ofBytes_window, hbuf,
          window_overwrite_of_apart _ _ _ _ _ (by omega)
            (by rw [hinode]; exact hapart), Inode.ofBytes_window, inodeOf, hslot]
      · exact hgroups.inodeOf h.sized hj
          (hothers _ (h.place_ne (slotOf_mem h.sized hj) (slotOf_mem h.sized hn) hslot))

/-! ### Bitmaps -/

variable (fs d) in
/-- The bits of a group's block bitmap. -/
def blockBit (g i : Nat) : Bool := bitAt (fs.block d (fs.place d (.blockBitmap g))) i

variable (fs d) in
/-- The bits of a group's inode bitmap. -/
def inodeBit (g i : Nat) : Bool := bitAt (fs.block d (fs.place d (.inodeBitmap g))) i

variable (fs) in
/-- The group of a block, and its bit in the bitmap of the group. -/
def blockGroup (b : UInt32) : Nat := (b.toNat - 1) / fs.blocksPerGroup.toNat

variable (fs) in
def blockIndex (b : UInt32) : Nat := (b.toNat - 1) % fs.blocksPerGroup.toNat

variable (fs d) in
/-- The block is marked used in the bitmap of its group, as the allocator counts: from block 1 on,
    whatever the size of the blocks. -/
def Marked (b : UInt32) : Prop :=
  1 ≤ b.toNat ∧ fs.blockGroup b < fs.bgCount.toNat ∧
    fs.blockBit d (fs.blockGroup b) (fs.blockIndex b) = true

variable (fs d) in
/-- The inode is marked used in the bitmap of its group. -/
def InodeMarked (n : UInt32) : Prop :=
  fs.inodeBit d (fs.inodeGroup n) (fs.inodeIndex n) = true

variable (fs d) in
/-- The bits that the block allocator may take, in its order: it looks at group 0 only. -/
def freeBlocks : List Nat :=
  clearBits (fs.block d (fs.place d (.blockBitmap 0))) fs.blocksPerGroup.toNat

variable (fs d) in
/-- The bits that the inode allocator may take: it looks at group 0 only, too. -/
def freeInodes : List Nat :=
  clearBits (fs.block d (fs.place d (.inodeBitmap 0))) fs.inodesPerGroup.toNat

/-- The bitmap has a bit for an inode that is marked used. -/
theorem InodeMarked.index_lt (hsized : fs.Sized) (h : fs.InodeMarked d n) :
    fs.inodeIndex n < 8 * fs.blockSize := by
  have hlt := bitAt_lt h
  rwa [length_block hsized] at hlt

/-- A bit of group 0 stands for the block after its number. -/
theorem Marked.of_bit {b : UInt32} {k : Nat} (hgroups : 0 < fs.bgCount.toNat)
    (hlt : k < fs.blocksPerGroup.toNat) (hb : b.toNat = k + 1) (hbit : fs.blockBit d 0 k = true) :
    fs.Marked d b := by
  have hpred : b.toNat - 1 = k := by omega
  have hgroup : fs.blockGroup b = 0 := by rw [blockGroup, hpred, Nat.div_eq_of_lt hlt]
  have hindex : fs.blockIndex b = k := by rw [blockIndex, hpred, Nat.mod_eq_of_lt hlt]
  refine ⟨by omega, hgroup ▸ hgroups, ?_⟩
  rw [hgroup, hindex]
  exact hbit

/-- A bit of group 0 that may be taken is not that of a block marked used. -/
theorem Marked.notMem_free {b : UInt32} (h : fs.Marked d b) : b.toNat - 1 ∉ fs.freeBlocks d := by
  intro hmem
  obtain ⟨⟨-, hlt⟩, hclear⟩ := mem_clearBits.mp hmem
  have hmark := h.2.2
  rw [blockGroup, blockIndex, Nat.div_eq_of_lt hlt, Nat.mod_eq_of_lt hlt, blockBit, hclear] at hmark
  cases hmark

theorem Grouped.readBgDesc_zero (h : fs.Grouped d) :
    fs.readBgDesc d 0 = .ok (fs.descriptorAt d 0) := h.readBgDesc h.groups

/-- The drive has one bitmap changed. -/
theorem Grouped.bitsChanged (h : fs.Grouped d) (hm : m ∈ fs.metaBlocks)
    (hne : ∀ k, m ≠ .descriptors k) {bits : Nat → Bool}
    (hbits : fs.BitsChanged d d' (fs.place d m) bits) : fs.KeptGroups d d' :=
  h.keptGroups hbits.healthy hm hne hbits.others

theorem Grouped.allocBlock (h : fs.Grouped d) :
    Outcome fs.allocBlock d
      (fun bit d' => fs.freeBlocks d = bit.toNat :: fs.freeBlocks d' ∧
        fs.BitsChanged d d' (fs.place d (.blockBitmap 0))
          fun j => fs.blockBit d 0 j || decide (bit.toNat = j))
      (fun e d' => fs.freeBlocks d = [] ∧ d' = d ∧ e = .error "no free bits in bitmap") := by
  have hmem := blockBitmap_mem h.groups
  refine Outcome.bind_read h.readBgDesc_zero ?_
  refine (bitmapAlloc_outcome h.sized h.healthy (h.reached _ hmem) _).mono ?_ fun _ _ hE => hE
  rintro bit d' ⟨hcons, hbits⟩
  refine ⟨?_, hbits⟩
  rw [freeBlocks, freeBlocks, (h.bitsChanged hmem nofun hbits).place h.sized hmem]
  exact hcons

theorem Grouped.allocInode (h : fs.Grouped d) :
    Outcome fs.allocInode d
      (fun ino d' => 1 ≤ ino.toNat ∧ fs.freeInodes d = (ino.toNat - 1) :: fs.freeInodes d' ∧
        fs.BitsChanged d d' (fs.place d (.inodeBitmap 0))
          fun j => fs.inodeBit d 0 j || decide (ino.toNat - 1 = j))
      (fun e d' => fs.freeInodes d = [] ∧ d' = d ∧ e = .error "no free bits in bitmap") := by
  have hmem := inodeBitmap_mem h.groups
  refine Outcome.bind_read h.readBgDesc_zero ?_
  refine (bitmapAlloc_outcome h.sized h.healthy (h.reached _ hmem) _).bind ?_
  rintro bit d' ⟨hcons, hbits⟩
  have hbit : bit.toNat < 8 * fs.blockSize := by
    have hin : bit.toNat ∈ clearBits (fs.block d (fs.place d (.inodeBitmap 0)))
        fs.inodesPerGroup.toNat := by
      rw [hcons]
      exact List.mem_cons_self
    have hlt := (mem_clearBits.mp hin).1.1
    rwa [length_block h.sized] at hlt
  -- bit `k` is that of inode `k + 1`
  have hsucc : (bit + 1).toNat = bit.toNat + 1 := by
    have hbounds := h.sized.bounds
    rw [UInt32.toNat_add, UInt32.toNat_one]
    omega
  refine Outcome.pure ?_
  rw [hsucc, Nat.add_sub_cancel]
  refine ⟨Nat.le_add_left .., ?_, hbits⟩
  rw [freeInodes, freeInodes, (h.bitsChanged hmem nofun hbits).place h.sized hmem]
  exact hcons

/-- `free_block` takes the number of the block for its bit, and the bitmap of group 0 for that of
    its group. -/
theorem Grouped.freeBlock (h : fs.Grouped d) (b : UInt32) :
    Outcome (fs.freeBlock b) d
      (fun _ d' => b.toNat < 8 * fs.blockSize ∧ fs.BitsChanged d d' (fs.place d (.blockBitmap 0))
        fun j => fs.blockBit d 0 j && !decide (b.toNat = j))
      (fun e d' => 8 * fs.blockSize ≤ b.toNat ∧ d' = d ∧ e = .panic) := by
  refine Outcome.bind_read h.readBgDesc_zero ?_
  exact bitmapClear_outcome h.sized h.healthy (h.reached _ (blockBitmap_mem h.groups)) b

theorem Grouped.freeInode (h : fs.Grouped d) (hn : fs.InodeNumber n)
    (hbit : fs.inodeIndex n < 8 * fs.blockSize) :
    ∃ d', (fs.freeInode n).exec d = (.ok (), d') ∧
      fs.BitsChanged d d' (fs.place d (.inodeBitmap (fs.inodeGroup n)))
        fun j => fs.inodeBit d (fs.inodeGroup n) j && !decide (fs.inodeIndex n = j) := by
  obtain ⟨group, idx, hdiv, hg, hi⟩ := divRem_inode hn
  have hgroup : group.toNat < fs.bgCount.toNat := hg ▸ inodeGroup_lt hn
  have hclear := bitmapClear_outcome h.sized h.healthy
    (h.reached _ (inodeBitmap_mem (inodeGroup_lt hn))) idx
  have hexec : (fs.freeInode n).exec d =
      (fs.bitmapSet (fs.place d (.inodeBitmap (fs.inodeGroup n))) idx false).exec d := by
    rw [Ext3Fs.freeInode, Fallible.exec_bind, Fallible.exec_reading, hdiv]
    simp only
    rw [Fallible.exec_bind, Fallible.exec_reading, h.readBgDesc hgroup, hg]
    rfl
  rcases hrun : (fs.bitmapSet (fs.place d (.inodeBitmap (fs.inodeGroup n))) idx false).exec d with
    ⟨e | _, t⟩
  · have hbig := (hclear.failed hrun).1
    omega
  · refine ⟨t, by rw [hexec, hrun], ?_⟩
    rw [← hi]
    exact (hclear.ok hrun).2

end Ext3Fs

end RustKernel.Fs
