import RustKernel.Fs.Files
import RustKernel.Fs.Groups

/-!
# RustKernel.Fs.SingleGroup

A volume of one block group: its descriptor, its bitmaps and its inode table.

No call looks at the number of groups, so `fs.single`, the same filesystem with one group, reads and
writes as `fs` does. What is said of the one group (`Layout`, `inodeAt`, `InodeUsed`, `BlockUsed`)
is what is said of the first group of `fs.single`, and what is known of volumes of several groups
holds of it.

## Main results

- `createFile_single`: the calls are the same
- `Layout.grouped`, `Layout.of_grouped`: so is the geometry
- `inodeOf_single`, `inodeMarked_single`, `blockUsed_iff_bit`: and the inodes and the marks
- `readInode_eq`, `writeInode_exec`, `freeInode_ends`: reading, writing and freeing an inode
-/

namespace RustKernel.Fs

open Lib

namespace Ext3Fs

variable (fs : Ext3Fs)

/-! ### Geometry -/

/-- The blocks of the inode table. -/
def tableBlocks (d : Drive) : List UInt32 :=
  (List.range fs.inodeBlocks).map fun k =>
    (fs.descriptor d).inodeTable + UInt32.ofNat k

/-- The blocks that hold no file's data: the descriptor, the bitmaps and the inode table. -/
def metadata (d : Drive) : List UInt32 :=
  fs.bgDescTableBlock :: (fs.descriptor d).blockBitmap :: (fs.descriptor d).inodeBitmap ::
    fs.tableBlocks d

/-- The metadata lie in blocks of their own, which 28-bit addresses reach. -/
structure Layout (d : Drive) : Prop extends fs.Located d where
  nodup : (fs.metadata d).Nodup
  reached : ∀ b ∈ fs.metadata d, fs.Reached b

/-- The metadata are marked used. -/
structure Geometry (d : Drive) : Prop extends fs.Layout d where
  used : ∀ b ∈ fs.metadata d, fs.BlockUsed d b

/-- An inode number of the group. -/
def ValidInode (ino : UInt32) : Prop := 1 ≤ ino.toNat ∧ ino.toNat ≤ fs.inodesPerGroup.toNat

instance (ino : UInt32) : Decidable (fs.ValidInode ino) := inferInstanceAs (Decidable (_ ∧ _))

/-- The block of the inode table that holds an inode. -/
def slotBlock (d : Drive) (ino : UInt32) : UInt32 :=
  (fs.descriptor d).inodeTable + UInt32.ofNat ((ino.toNat - 1) / fs.inodesPerBlock)

/-- The offset of an inode in its block. -/
def slotOffset (ino : UInt32) : Nat := (ino.toNat - 1) % fs.inodesPerBlock * INODE_LEN

/-- The inode as the table has it. -/
def inodeAt (d : Drive) (ino : UInt32) : Inode :=
  .ofBytes (fs.block d (fs.slotBlock d ino)) (fs.slotOffset ino)

/-- The filesystem with one group. -/
def single : Ext3Fs := { fs with bgCount := 1 }

variable {fs} {d d' : Drive} {i b : UInt32} {m : MetaBlock}

theorem Geometry.toVolume (g : fs.Geometry d) : fs.Volume d where
  toLocated := g.toLocated
  descriptor_used := g.used _ List.mem_cons_self
  bitmap_used := g.used _ (List.mem_cons_of_mem _ List.mem_cons_self)

theorem metadata_congr (hdesc : fs.descriptor d' = fs.descriptor d) :
    fs.metadata d' = fs.metadata d := by
  rw [metadata, metadata, tableBlocks, tableBlocks, hdesc]

/-- The layout is kept while the descriptor is. -/
theorem Layout.of_kept (g : fs.Layout d) (hd' : d'.Healthy)
    (hdesc : fs.block d' fs.bgDescTableBlock = fs.block d fs.bgDescTableBlock) : fs.Layout d' where
  toLocated := g.toLocated.of_kept hd' hdesc
  nodup := metadata_congr (descriptor_congr hdesc) ▸ g.nodup
  reached := metadata_congr (descriptor_congr hdesc) ▸ g.reached

/-! ### The calls -/

@[simp] theorem refs_single : fs.single.refs = fs.refs := rfl

@[simp] theorem readDirInode_single : fs.single.readDirInode = fs.readDirInode := rfl

@[simp] theorem readInode_single : fs.single.readInode = fs.readInode := rfl

private theorem walkComponents_single (d : Drive) (comps : List String) (i : UInt32) (n : Inode) :
    fs.single.walkComponents d comps i n = fs.walkComponents d comps i n := by
  induction comps generalizing i n with
  | nil => rfl
  | cons component comps ih =>
    simp only [walkComponents, readDirInode_single, readInode_single, ih]

@[simp] theorem walk_single (d : Drive) (start : UInt32) (path : String) :
    fs.single.walk d start path = fs.walk d start path := by
  simp only [walk, walkComponents_single, readInode_single]

theorem createFile_single (path : String) : fs.single.createFile path = fs.createFile path := by
  rw [createFile, createFile]
  -- the number of groups is read by no call, but `walk` is a recursion of its own
  simp only [walk_single]
  rfl

/-! ### The geometry of a volume with one group -/

private theorem descriptorAt_zero (d : Drive) : fs.descriptorAt d 0 = fs.descriptor d := by
  have hblock : fs.bgDescTableBlock + UInt32.ofNat 0 = fs.bgDescTableBlock := UInt32.add_zero _
  rw [descriptorAt, descriptor, Nat.zero_div, Nat.zero_mod, hblock, Nat.zero_mul]

variable (fs) in
/-- Where the metadata of the first group are. -/
private theorem place_single (d : Drive) :
    fs.single.place d (.descriptors 0) = fs.bgDescTableBlock ∧
      fs.single.place d (.blockBitmap 0) = (fs.descriptor d).blockBitmap ∧
      fs.single.place d (.inodeBitmap 0) = (fs.descriptor d).inodeBitmap ∧
      ∀ k, fs.single.place d (.inodeTable 0 k) = (fs.descriptor d).inodeTable + UInt32.ofNat k := by
  have hplace : fs.single.place d = fs.place d := rfl
  rw [hplace]
  simp only [place, descriptorAt_zero, implies_true, and_true]
  exact UInt32.add_zero _

/-- One block of descriptors is enough. -/
private theorem descriptorBlocks_single (hsized : fs.Sized) : fs.single.descriptorBlocks = 1 := by
  change (1 + fs.descriptorsPerBlock - 1) / fs.descriptorsPerBlock = 1
  rw [Nat.add_sub_cancel_left, Nat.div_self hsized.descriptorsPerBlock.1]

private theorem map_place_single (hsized : fs.Sized) (d : Drive) :
    fs.single.metaBlocks.map (fs.single.place d) = fs.metadata d := by
  obtain ⟨hdesc, hblocks, hinodes, htable⟩ := place_single fs d
  have hmeta : fs.single.metaBlocks = .descriptors 0 :: fs.groupBlocks 0 := by
    rw [metaBlocks, descriptorBlocks_single hsized]
    change _ ++ (List.range 1).flatMap fs.groupBlocks = _
    rw [List.range_one, List.flatMap_singleton]
    rfl
  have hcomp : fs.single.place d ∘ MetaBlock.inodeTable 0 =
      fun k => (fs.descriptor d).inodeTable + UInt32.ofNat k := funext htable
  rw [hmeta, groupBlocks, metadata, tableBlocks]
  simp only [List.map_cons, List.map_map, hcomp, hdesc, hblocks, hinodes]

theorem mem_metadata_single (hsized : fs.Sized) :
    b ∈ fs.metadata d ↔ ∃ m ∈ fs.single.metaBlocks, fs.single.place d m = b := by
  rw [← map_place_single hsized, List.mem_map]

theorem Layout.grouped (h : fs.Layout d) : fs.single.Grouped d where
  sized := h.sized
  healthy := h.healthy
  nodup := map_place_single h.sized d ▸ h.nodup
  reached := fun m hm => h.reached _ ((mem_metadata_single h.sized).mpr ⟨m, hm, rfl⟩)
  groups := Nat.one_pos

theorem Layout.of_grouped (h : fs.single.Grouped d) : fs.Layout d := by
  have hsized : fs.Sized := h.sized
  have hnodup : (fs.metadata d).Nodup := map_place_single hsized d ▸ h.nodup
  have hreached : ∀ b ∈ fs.metadata d, fs.Reached b := by
    intro b hb
    obtain ⟨m, hm, rfl⟩ := (mem_metadata_single hsized).mp hb
    exact h.reached m hm
  -- the descriptor and the block bitmap come first among the metadata
  refine ⟨⟨hsized, h.healthy, hreached _ List.mem_cons_self,
    hreached _ (List.mem_cons_of_mem _ List.mem_cons_self), ?_⟩, hnodup, hreached⟩
  rintro heq
  exact (List.nodup_cons.mp hnodup).1 (heq ▸ List.mem_cons_self)

/-- A drive with the same descriptor, in the one sense and in the other. -/
theorem keptGroups_single_iff (hsized : fs.Sized) : fs.single.KeptGroups d d' ↔
    d'.Healthy ∧ fs.block d' fs.bgDescTableBlock = fs.block d fs.bgDescTableBlock := by
  have hdesc := (place_single fs d).1
  constructor
  · intro h
    have hblock := h.descriptors 0 (descriptorBlocks_single hsized ▸ Nat.one_pos)
    rw [hdesc] at hblock
    exact ⟨h.healthy, hblock⟩
  · rintro ⟨hhealthy, hblock⟩
    refine ⟨hhealthy, fun k hk => ?_⟩
    rw [descriptorBlocks_single hsized, Nat.lt_one_iff] at hk
    subst hk
    rw [hdesc]
    exact hblock

/-! ### Inodes -/

theorem inodeNumber_single : fs.single.InodeNumber i ↔ fs.ValidInode i := by
  change _ ∧ i.toNat ≤ 1 * fs.inodesPerGroup.toNat ↔ _
  rw [Nat.one_mul, ValidInode]

/-- Group and index of an inode. -/
private theorem inodeGroup_single (hi : fs.ValidInode i) :
    fs.single.inodeGroup i = 0 ∧ fs.single.inodeIndex i = i.toNat - 1 := by
  -- `inodesPerGroup` is that of `fs`, but `omega` does not see through `single`
  have hlt : i.toNat - 1 < fs.single.inodesPerGroup.toNat := by
    have hpos := hi.1
    have hle : i.toNat ≤ fs.single.inodesPerGroup.toNat := hi.2
    omega
  rw [inodeGroup, inodeIndex, Nat.div_eq_of_lt hlt, Nat.mod_eq_of_lt hlt]
  exact ⟨rfl, rfl⟩

/-- Where an inode is. -/
private theorem place_slotOf_single (hi : fs.ValidInode i) :
    fs.single.place d (fs.single.slotOf i) = fs.slotBlock d i := by
  obtain ⟨hgroup, hindex⟩ := inodeGroup_single hi
  rw [slotOf, hgroup, hindex, (place_single fs d).2.2.2]
  rfl

theorem inodeOf_single (hi : fs.ValidInode i) : fs.single.inodeOf d i = fs.inodeAt d i := by
  have hoffset : fs.single.offsetOf i = fs.slotOffset i := by
    rw [offsetOf, (inodeGroup_single hi).2]
    rfl
  rw [inodeOf, place_slotOf_single hi, hoffset]
  rfl

theorem slotBlock_mem (hsized : fs.Sized) (hi : fs.ValidInode i) :
    fs.slotBlock d i ∈ fs.metadata d := by
  rw [← place_slotOf_single hi]
  exact (mem_metadata_single hsized).mpr ⟨_, slotOf_mem hsized (inodeNumber_single.mpr hi), rfl⟩

/-- The table is apart from the other metadata. -/
theorem Layout.slotBlock_ne (h : fs.Layout d) (hi : fs.ValidInode i) :
    fs.slotBlock d i ≠ fs.bgDescTableBlock ∧
      fs.slotBlock d i ≠ (fs.descriptor d).blockBitmap ∧
      fs.slotBlock d i ≠ (fs.descriptor d).inodeBitmap := by
  obtain ⟨hdesc, hblocks, hinodes, -⟩ := place_single fs d
  have hg := h.grouped
  have hslot := slotOf_mem hg.sized (inodeNumber_single.mpr hi)
  rw [← place_slotOf_single hi, ← hdesc, ← hblocks, ← hinodes]
  refine ⟨hg.place_ne hslot ?_ (by simp [slotOf]),
    hg.place_ne hslot (blockBitmap_mem hg.groups) (by simp [slotOf]),
    hg.place_ne hslot (inodeBitmap_mem hg.groups) (by simp [slotOf])⟩
  rw [metaBlocks, descriptorBlocks_single h.sized]
  exact List.mem_cons_self

theorem readInode_eq (h : fs.Layout d) (hi : fs.ValidInode i) :
    fs.readInode d i = .ok (fs.inodeAt d i) := by
  rw [← inodeOf_single hi]
  exact h.grouped.readInode (inodeNumber_single.mpr hi)

variable (fs) in
/-- `d'` is `d` with one inode of the table written. -/
structure InodeWritten (d : Drive) (ino : UInt32) (inode : Inode) (d' : Drive) : Prop where
  healthy : d'.Healthy
  others : ∀ c, c ≠ fs.slotBlock d ino → fs.block d' c = fs.block d c
  descriptor : fs.descriptor d' = fs.descriptor d
  written : fs.inodeAt d' ino = inode
  kept : ∀ j, fs.ValidInode j → j ≠ ino → fs.inodeAt d' j = fs.inodeAt d j

theorem slotBlock_congr (hdesc : fs.descriptor d' = fs.descriptor d) (j : UInt32) :
    fs.slotBlock d' j = fs.slotBlock d j := by
  rw [slotBlock, slotBlock, hdesc]

theorem inodeAt_congr (hdesc : fs.descriptor d' = fs.descriptor d)
    (hblock : fs.block d' (fs.slotBlock d i) = fs.block d (fs.slotBlock d i)) :
    fs.inodeAt d' i = fs.inodeAt d i := by
  rw [inodeAt, inodeAt, slotBlock_congr hdesc, hblock]

theorem writeInode_exec (h : fs.Layout d) (hi : fs.ValidInode i) (inode : Inode) :
    ∃ d', (fs.writeInode i inode).exec d = (.ok (), d') ∧ fs.InodeWritten d i inode d' := by
  obtain ⟨d', hexec, hset⟩ := h.grouped.writeInode (inodeNumber_single.mpr hi) inode
  have hothers : ∀ c, c ≠ fs.slotBlock d i → fs.block d' c = fs.block d c := by
    intro c hc
    apply hset.others
    rwa [place_slotOf_single hi]
  refine ⟨d', hexec, hset.healthy, hothers, ?_, ?_, fun j hj hne => ?_⟩
  · exact descriptor_congr (hothers _ (h.slotBlock_ne hi).1.symm)
  · rw [← inodeOf_single hi]
    exact hset.written
  · rw [← inodeOf_single hj, ← inodeOf_single hj]
    exact hset.kept j (inodeNumber_single.mpr hj) hne

/-! ### Marks -/

theorem blockUsed_iff_bit :
    fs.BlockUsed d b ↔ 1 ≤ b.toNat ∧ fs.single.blockBit d 0 (b.toNat - 1) = true := by
  rw [blockBit, (place_single fs d).2.1]
  exact Iff.rfl

theorem inodeUsed_iff_bit :
    fs.InodeUsed d i ↔ 1 ≤ i.toNat ∧ fs.single.inodeBit d 0 (i.toNat - 1) = true := by
  rw [inodeBit, (place_single fs d).2.2.1]
  exact Iff.rfl

theorem inodeMarked_single (hi : fs.ValidInode i) :
    fs.single.InodeMarked d i ↔ fs.InodeUsed d i := by
  obtain ⟨hgroup, hindex⟩ := inodeGroup_single hi
  rw [InodeMarked, hgroup, hindex, inodeUsed_iff_bit]
  exact ⟨fun hbit => ⟨hi.1, hbit⟩, fun hused => hused.2⟩

/-- The bits that may be taken are those of blocks not marked used. -/
theorem not_blockUsed_of_free {k : Nat} (hk : k ∈ fs.single.freeBlocks d) (hb : b.toNat = k + 1) :
    ¬fs.BlockUsed d b := by
  rw [blockUsed_iff_bit, hb, Nat.add_sub_cancel]
  rintro ⟨-, hset⟩
  have hclear : fs.single.blockBit d 0 k = false := (mem_clearBits.mp hk).2
  rw [hclear] at hset
  cases hset

variable (fs) in
/-- `d'` differs from `d` in the inode bitmap only. -/
structure InodeStep (d d' : Drive) : Prop where
  healthy : d'.Healthy
  others : ∀ c, c ≠ (fs.descriptor d).inodeBitmap → fs.block d' c = fs.block d c
  descriptor : fs.descriptor d' = fs.descriptor d

theorem Layout.inodeBitmap_mem (_ : fs.Layout d) :
    (fs.descriptor d).inodeBitmap ∈ fs.metadata d :=
  List.mem_cons_of_mem _ (List.mem_cons_of_mem _ List.mem_cons_self)

theorem Layout.inodeBitmap_ne (g : fs.Layout d) :
    (fs.descriptor d).inodeBitmap ≠ fs.bgDescTableBlock ∧
      (fs.descriptor d).inodeBitmap ≠ (fs.descriptor d).blockBitmap := by
  obtain ⟨hdesc, hrest⟩ := List.nodup_cons.mp g.nodup
  obtain ⟨hblocks, -⟩ := List.nodup_cons.mp hrest
  refine ⟨fun heq => hdesc ?_, fun heq => hblocks ?_⟩
  · exact heq ▸ List.mem_cons_of_mem _ List.mem_cons_self
  · exact heq ▸ List.mem_cons_self

/-- Freeing an inode that is marked used. -/
theorem freeInode_ends (h : fs.Layout d) (hi : fs.ValidInode i) (hused : fs.InodeUsed d i) :
    Ends (fs.freeInode i) d
      (fun _ d' => fs.InodeStep d d' ∧ ∀ j, fs.InodeUsed d' j ↔ fs.InodeUsed d j ∧ j ≠ i)
      (fun _ => False) := by
  obtain ⟨hgroup, hindex⟩ := inodeGroup_single hi
  have hmark := (inodeMarked_single hi).mpr hused
  obtain ⟨d', hexec, hbits⟩ := h.grouped.freeInode (inodeNumber_single.mpr hi)
    (hmark.index_lt h.sized)
  have hbitmap := (place_single fs d).2.2.1
  rw [hgroup, hindex, hbitmap] at hbits
  -- bit `k` is that of inode `k + 1`
  have hset : ∀ k, bitAt (fs.block d' (fs.descriptor d).inodeBitmap) k =
      (fs.single.inodeBit d 0 k && !decide (i.toNat - 1 = k)) := hbits.bits
  have hdesc : fs.descriptor d' = fs.descriptor d :=
    descriptor_congr (hbits.others _ h.inodeBitmap_ne.1.symm)
  refine Ends.of_exec hexec ⟨⟨hbits.healthy, hbits.others, hdesc⟩, fun j => ?_⟩
  have hj : j = i ↔ j.toNat = i.toNat := UInt32.toNat_inj.symm
  have hpos := hi.1
  rw [InodeUsed, hdesc, Used, hset, inodeUsed_iff_bit, ne_eq, hj, Bool.and_eq_true,
    Bool.not_eq_true', decide_eq_false_iff_not]
  constructor
  · rintro ⟨hone, hbit, hne⟩
    exact ⟨⟨hone, hbit⟩, by omega⟩
  · rintro ⟨⟨hone, hbit⟩, hne⟩
    exact ⟨hone, hbit, by omega⟩

end Ext3Fs

end RustKernel.Fs
