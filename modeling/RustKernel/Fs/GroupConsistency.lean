import RustKernel.Fs.DirectoryCalls
import RustKernel.Fs.GroupWriting
import RustKernel.Fs.Paths

/-!
# RustKernel.Fs.GroupConsistency

Consistent filesystems of several block groups, and what saving one file does to the others.

`GroupOwned live d` says that the inodes in `live` have blocks of their own. `GroupConsistent live d`
adds that the directories in `live` are made of records and lead to inodes in `live`. For the clear
bit `i` of its bitmap the allocator hands out block `i + 1`, whatever the size of the blocks: `Spare`
says that the blocks it hands out next are nobody's, which holds if everything is `GroupMarked`.

## Main results

- `GroupOwned.frame`, `GroupOwned.insert`: ownership is kept by changes elsewhere, and a file may
  join
- `GroupSaved.consistent`: after `write_file_data` without a freed block and `write_inode` the
  filesystem is consistent again
-/

namespace RustKernel.Fs

open Lib

namespace Ext3Fs

variable (fs : Ext3Fs)

/-- The inodes in `live` are marked used and have distinct blocks of their own, which are no
    metadata. -/
structure GroupOwned (live : Set UInt32) (d : Drive) : Prop extends fs.Grouped d where
  valid : ∀ i ∈ live, fs.InodeNumber i
  inode_marked : ∀ i ∈ live, fs.InodeMarked d i
  refs_nodup : ∀ i ∈ live, (fs.refs d (fs.inodeOf d i)).Nodup
  refs_reached : ∀ i ∈ live, ∀ b ∈ fs.refs d (fs.inodeOf d i), fs.Reached b
  outside : ∀ i ∈ live, ∀ b ∈ fs.refs d (fs.inodeOf d i), ∀ m ∈ fs.metaBlocks, b ≠ fs.place d m
  disjoint : ∀ i ∈ live, ∀ j ∈ live, i ≠ j →
    (fs.refs d (fs.inodeOf d i)).Disjoint (fs.refs d (fs.inodeOf d j))

/-- A consistent filesystem, as far as the inodes in `live` are concerned. -/
structure GroupConsistent (live : Set UInt32) (d : Drive) : Prop extends fs.GroupOwned live d where
  root : 2 ∈ live
  dirs : ∀ i ∈ live, (fs.inodeOf d i).isDir = true →
    ∃ rs, fs.readFileInode d (fs.inodeOf d i) = .ok (encode rs) ∧ ∀ e ∈ listed rs, e.2.1 ∈ live

/-- `used` holds of the metadata and of the blocks of live inodes. -/
structure Covered (used : UInt32 → Prop) (live : Set UInt32) (d : Drive) : Prop where
  metadata : ∀ m ∈ fs.metaBlocks, used (fs.place d m)
  blocks : ∀ i ∈ live, ∀ b ∈ fs.refs d (fs.inodeOf d i), used b

/-- The metadata and the blocks of live inodes are marked used. -/
structure GroupMarked (live : Set UInt32) (d : Drive) : Prop extends
  fs.Covered (fs.Marked d) live d

/-- The block is no metadata, and no live inode has it. -/
def Unused (live : Set UInt32) (d : Drive) (b : UInt32) : Prop :=
  (∀ m ∈ fs.metaBlocks, b ≠ fs.place d m) ∧ ∀ i ∈ live, b ∉ fs.refs d (fs.inodeOf d i)

/-- The first `n` blocks that the allocator hands out are not in use. -/
def Spare (live : Set UInt32) (d : Drive) (n : Nat) : Prop :=
  ∀ k ∈ (fs.freeBlocks d).take n, ∀ b : UInt32, b.toNat = k + 1 → fs.Unused live d b

/-- `d'` keeps every inode in `live`, its mark and its blocks. -/
structure GroupFrame (live : Set UInt32) (d d' : Drive) : Prop extends fs.KeptGroups d d' where
  inodes : ∀ i ∈ live, fs.inodeOf d' i = fs.inodeOf d i
  blocks : ∀ i ∈ live, ∀ b ∈ fs.refs d (fs.inodeOf d i), fs.block d' b = fs.block d b
  inode_marked : ∀ i ∈ live, fs.InodeMarked d i → fs.InodeMarked d' i

variable {fs} {live live' : Set UInt32} {d d' : Drive} {i j p : UInt32} {n : Nat}
  {used used' : UInt32 → Prop}

theorem Covered.mono (h : fs.Covered used live d) (hsub : ∀ b, used b → used' b) :
    fs.Covered used' live d where
  metadata := fun m hm => hsub _ (h.metadata m hm)
  blocks := fun i hi b hb => hsub b (h.blocks i hi b hb)

/-! ### Blocks that are nobody's -/

/-- More blocks than the allocator has it does not hand out. -/
theorem Spare.of_all (h : fs.Spare live d (fs.freeBlocks d).length) (n : Nat) :
    fs.Spare live d n := by
  intro k hk
  apply h k
  rw [List.take_length]
  exact List.mem_of_mem_take hk

/-- Blocks that are marked used are not handed out. -/
theorem GroupMarked.spare (h : fs.GroupMarked live d) (n : Nat) : fs.Spare live d n := by
  intro k hk b hb
  have hfree : b.toNat - 1 ∈ fs.freeBlocks d := by
    rw [hb, Nat.add_sub_cancel]
    exact List.mem_of_mem_take hk
  constructor
  · rintro m hm rfl
    exact (h.metadata m hm).notMem_free hfree
  · intro i hi hmem
    exact (h.blocks i hi b hmem).notMem_free hfree

/-! ### Ownership -/

namespace GroupOwned

theorem mono (hsub : live' ⊆ live) (h : fs.GroupOwned live d) : fs.GroupOwned live' d where
  toGrouped := h.toGrouped
  valid := fun i hi => h.valid i (hsub hi)
  inode_marked := fun i hi => h.inode_marked i (hsub hi)
  refs_nodup := fun i hi => h.refs_nodup i (hsub hi)
  refs_reached := fun i hi => h.refs_reached i (hsub hi)
  outside := fun i hi => h.outside i (hsub hi)
  disjoint := fun i hi j hj => h.disjoint i (hsub hi) j (hsub hj)

theorem writable (h : fs.GroupOwned live d) (hi : i ∈ live)
    (hspare : fs.Spare live d (missing (fs.inodeOf d i) n)) :
    fs.Writable d (fs.inodeOf d i) n where
  nodup := h.refs_nodup i hi
  reached := h.refs_reached i hi
  outside := h.outside i hi
  fresh := fun k hk b hb => ⟨(hspare k hk b hb).2 i hi, (hspare k hk b hb).1⟩

theorem readInode (h : fs.GroupOwned live d) (hi : i ∈ live) :
    fs.readInode d i = .ok (fs.inodeOf d i) := h.toGrouped.readInode (h.valid i hi)

/-- A file that is kept has the blocks and the contents it had. -/
private theorem refs_frame (hf : fs.GroupFrame live d d') (hi : i ∈ live) :
    fs.refs d' (fs.inodeOf d' i) = fs.refs d (fs.inodeOf d i) := by
  rw [hf.inodes i hi]
  exact refs_congr (hf.blocks i hi)

theorem contents_frame (h : fs.GroupOwned live d) (hf : fs.GroupFrame live d d') (hi : i ∈ live) :
    fs.readFileInode d' (fs.inodeOf d' i) = fs.readFileInode d (fs.inodeOf d i) := by
  rw [hf.inodes i hi]
  exact readFileInode_congr h.sized h.healthy hf.healthy (h.refs_reached i hi) (hf.blocks i hi)

theorem frame (h : fs.GroupOwned live d) (hf : fs.GroupFrame live d d') :
    fs.GroupOwned live d' where
  toGrouped := h.toGrouped.of_kept hf.toKeptGroups
  valid := h.valid
  inode_marked := fun i hi => hf.inode_marked i hi (h.inode_marked i hi)
  refs_nodup := by
    intro i hi
    rw [refs_frame hf hi]
    exact h.refs_nodup i hi
  refs_reached := by
    intro i hi
    rw [refs_frame hf hi]
    exact h.refs_reached i hi
  outside := by
    intro i hi b hb m hm
    rw [refs_frame hf hi] at hb
    rw [hf.place h.sized hm]
    exact h.outside i hi b hb m hm
  disjoint := by
    intro i hi j hj hij
    rw [refs_frame hf hi, refs_frame hf hj]
    exact h.disjoint i hi j hj hij

theorem covered_frame (h : fs.GroupOwned live d) (hf : fs.GroupFrame live d d')
    (hm : fs.Covered used live d) : fs.Covered used live d' where
  metadata := by
    intro m hmem
    rw [hf.place h.sized hmem]
    exact hm.metadata m hmem
  blocks := by
    intro i hi b hb
    rw [refs_frame hf hi] at hb
    exact hm.blocks i hi b hb

/-- A file joins whose blocks are its own. -/
theorem insert (h : fs.GroupOwned live d) (hvalid : fs.InodeNumber p)
    (hmarked : fs.InodeMarked d p) (hnodup : (fs.refs d (fs.inodeOf d p)).Nodup)
    (hblocks : ∀ b ∈ fs.refs d (fs.inodeOf d p), fs.Reached b ∧
      (∀ m ∈ fs.metaBlocks, b ≠ fs.place d m) ∧
      ∀ j ∈ live, j ≠ p → b ∉ fs.refs d (fs.inodeOf d j)) : fs.GroupOwned (insert p live) d where
  toGrouped := h.toGrouped
  valid := by
    rintro i (rfl | hi)
    · exact hvalid
    · exact h.valid i hi
  inode_marked := by
    rintro i (rfl | hi)
    · exact hmarked
    · exact h.inode_marked i hi
  refs_nodup := by
    rintro i (rfl | hi)
    · exact hnodup
    · exact h.refs_nodup i hi
  refs_reached := by
    rintro i (rfl | hi) b hb
    · exact (hblocks b hb).1
    · exact h.refs_reached i hi b hb
  outside := by
    rintro i (rfl | hi) b hb
    · exact (hblocks b hb).2.1
    · exact h.outside i hi b hb
  disjoint := by
    rintro i (rfl | hi) j (rfl | hj) hij
    · exact absurd rfl hij
    · exact fun b hb => (hblocks b hb).2.2 j hj hij.symm
    · exact fun b hb hb' => (hblocks b hb').2.2 i hi hij hb
    · exact h.disjoint i hi j hj hij

end GroupOwned

namespace GroupConsistent

theorem frame (h : fs.GroupConsistent live d) (hf : fs.GroupFrame live d d') :
    fs.GroupConsistent live d' where
  toGroupOwned := h.toGroupOwned.frame hf
  root := h.root
  dirs := by
    intro i hi hdir
    rw [hf.inodes i hi] at hdir
    obtain ⟨rs, hraw, hlive⟩ := h.dirs i hi hdir
    exact ⟨rs, (h.contents_frame hf hi).trans hraw, hlive⟩

/-- A live directory lists live inodes. -/
theorem browsable (h : fs.GroupConsistent live d) : fs.Browsable live d (fs.inodeOf d) where
  root := h.root
  inodes := fun _ hi => h.readInode hi
  entries := by
    intro i hi hdir
    obtain ⟨rs, hread, hlive⟩ := h.dirs i hi hdir
    exact ⟨_, readDirInode_encode h.sized hread, hlive⟩

theorem walk_live (h : fs.GroupConsistent live d) {path : String} {n : Inode} {ft : UInt8}
    (hwalk : fs.walk d 2 path = .ok (j, n, ft)) :
    j ∈ live ∧ n = fs.inodeOf d j ∧ ft = fileType n := h.browsable.walk_mem hwalk

end GroupConsistent

/-! ### Saving a file -/

variable (fs) in
/-- `write_file_data` on the live file `p` with blocks that are not in use, giving `d₁`, then
    `write_inode`, giving `d₂`. -/
structure GroupSaved (live : Set UInt32) (d : Drive) (p : UInt32) (data : List UInt8)
    (inode' : Inode) (d₁ d₂ : Drive) : Prop where
  before : fs.GroupConsistent live d
  mem : p ∈ live
  spare : fs.Spare live d (missing (fs.inodeOf d p) (fs.blockCount data.length))
  wrote : fs.Wrote d (fs.inodeOf d p) data inode' d₁
  set : fs.InodeSet d₁ p inode' d₂

namespace GroupSaved

variable {data : List UInt8} {inode' : Inode} {d₁ d₂ : Drive} {m : MetaBlock}

theorem number (h : fs.GroupSaved live d p data inode' d₁ d₂) : fs.InodeNumber p :=
  h.before.valid p h.mem

private theorem writable (h : fs.GroupSaved live d p data inode' d₁ d₂) :
    fs.Writable d (fs.inodeOf d p) (fs.blockCount data.length) :=
  h.before.toGroupOwned.writable h.mem h.spare

private theorem kept₁ (h : fs.GroupSaved live d p data inode' d₁ d₂) : fs.KeptGroups d d₁ :=
  h.wrote.keptGroups h.before.toGrouped h.writable

theorem kept (h : fs.GroupSaved live d p data inode' d₁ d₂) : fs.KeptGroups d d₂ :=
  h.kept₁.trans (h.set.keptGroups (h.before.toGrouped.of_kept h.kept₁) h.number)

private theorem block_eq (h : fs.GroupSaved live d p data inode' d₁ d₂) {c : UInt32}
    (hbitmap : c ≠ fs.place d (.blockBitmap 0)) (hslot : c ≠ fs.place d (fs.slotOf p))
    (hnew : ∀ k < fs.blockCount data.length, c ≠ inode'.pointer k) :
    fs.block d₂ c = fs.block d c := by
  have hplace := h.kept₁.place h.before.sized (slotOf_mem h.before.sized h.number)
  rw [h.set.others c (by rwa [hplace]), h.wrote.others c hbitmap hnew]

/-- The other metadata are as before. -/
theorem block_meta (h : fs.GroupSaved live d p data inode' d₁ d₂) (hm : m ∈ fs.metaBlocks)
    (hbitmap : m ≠ .blockBitmap 0) (hslot : m ≠ fs.slotOf p) :
    fs.block d₂ (fs.place d m) = fs.block d (fs.place d m) := by
  have hg := h.before.toGrouped
  rw [h.set.others _ ?_, h.wrote.block_meta hg h.writable hm hbitmap]
  rw [h.kept₁.place h.before.sized (slotOf_mem h.before.sized h.number)]
  exact hg.place_ne hm (slotOf_mem hg.sized h.number) hslot

theorem inodeOf_self (h : fs.GroupSaved live d p data inode' d₁ d₂) : fs.inodeOf d₂ p = inode' :=
  h.set.written

theorem inodeOf_other (h : fs.GroupSaved live d p data inode' d₁ d₂) (hj : fs.InodeNumber j)
    (hne : j ≠ p) : fs.inodeOf d₂ j = fs.inodeOf d j := by
  rw [h.set.kept j hj hne]
  exact h.kept₁.inodeOf h.before.sized hj (h.wrote.block_meta h.before.toGrouped
    h.writable (slotOf_mem h.before.sized hj) nofun)

/-- The bitmap of group 0 is that of the write. -/
private theorem bitmap_eq (h : fs.GroupSaved live d p data inode' d₁ d₂) :
    fs.block d₂ (fs.place d₂ (.blockBitmap 0)) = fs.block d₁ (fs.place d (.blockBitmap 0)) :=
  h.wrote.block_set h.before.toGrouped h.writable h.number h.set
    (blockBitmap_mem h.before.groups) nofun

theorem freeBlocks_eq (h : fs.GroupSaved live d p data inode' d₁ d₂) :
    fs.freeBlocks d₂ =
      (fs.freeBlocks d).drop (missing (fs.inodeOf d p) (fs.blockCount data.length)) := by
  rw [freeBlocks, h.bitmap_eq, h.wrote.free]

theorem blockBit_eq (h : fs.GroupSaved live d p data inode' d₁ d₂) {g : Nat}
    (hg : g < fs.bgCount.toNat) (k : Nat) :
    fs.blockBit d₂ g k = (fs.blockBit d g k ||
      decide (g = 0 ∧ k ∈ fs.grantedBits d (fs.inodeOf d p) (fs.blockCount data.length))) :=
  h.wrote.blockBit_set h.before.toGrouped h.writable h.number h.set hg k

theorem inodeBit_eq (h : fs.GroupSaved live d p data inode' d₁ d₂) {g : Nat}
    (hg : g < fs.bgCount.toNat) (k : Nat) : fs.inodeBit d₂ g k = fs.inodeBit d g k :=
  h.wrote.inodeBit_set h.before.toGrouped h.writable h.number h.set hg k

theorem freeInodes_eq (h : fs.GroupSaved live d p data inode' d₁ d₂) :
    fs.freeInodes d₂ = fs.freeInodes d := by
  have hmem := inodeBitmap_mem h.before.groups
  rw [freeInodes, h.kept.place h.before.sized hmem, h.block_meta hmem (by simp) (by simp [slotOf]),
    freeInodes]

/-- The inode's own blocks lie apart from the inode table. -/
theorem refs_self (h : fs.GroupSaved live d p data inode' d₁ d₂) :
    (∀ b ∈ fs.refs d₁ inode', fs.block d₂ b = fs.block d₁ b) ∧
      fs.refs d₂ inode' = fs.refs d₁ inode' := by
  have hsame : ∀ b ∈ fs.refs d₁ inode', fs.block d₂ b = fs.block d₁ b := by
    intro b hb
    apply h.set.others
    have hmem : fs.slotOf p ∈ fs.metaBlocks := slotOf_mem h.before.sized h.number
    rw [h.kept₁.place h.before.sized hmem]
    rcases h.wrote.blocks b hb with hold | ⟨k, hk, -, hnat⟩
    · exact h.before.outside p h.mem b hold _ hmem
    · exact (h.spare k hk b hnat).1 _ hmem
  exact ⟨hsame, refs_congr hsame⟩

private theorem blocks_self (h : fs.GroupSaved live d p data inode' d₁ d₂) {b : UInt32}
    (hb : b ∈ fs.refs d₂ inode') :
    b ∈ fs.refs d (fs.inodeOf d p) ∨
      ∃ k ∈ fs.grantedBits d (fs.inodeOf d p) (fs.blockCount data.length),
        k < 8 * fs.blockSize ∧ b.toNat = k + 1 := by
  rw [h.refs_self.2] at hb
  exact h.wrote.blocks b hb

theorem contents_self (h : fs.GroupSaved live d p data inode' d₁ d₂) :
    fs.readFileInode d₂ inode' = .ok data := by
  rw [readFileInode_congr h.before.sized h.wrote.healthy h.set.healthy ?_ h.refs_self.1]
  · exact h.wrote.contents
  · intro b hb
    rcases h.wrote.blocks b hb with hold | ⟨k, -, hk, hnat⟩
    · exact h.before.refs_reached p h.mem b hold
    · exact h.before.sized.reached (by omega)

/-- The others are kept. -/
private theorem frame_others (h : fs.GroupSaved live d p data inode' d₁ d₂) :
    fs.GroupFrame (live \ {p}) d d₂ where
  toKeptGroups := h.kept
  inodes := fun i hi => h.inodeOf_other (h.before.valid i hi.1) hi.2
  blocks := by
    intro i hi b hb
    have houtside := h.before.outside i hi.1 b hb
    refine h.block_eq (houtside _ (blockBitmap_mem h.before.groups))
      (houtside _ (slotOf_mem h.before.sized h.number)) fun k hk heq => ?_
    -- what is written is in the file saved
    have hmem := h.wrote.written k hk
    rw [← heq] at hmem
    rcases h.wrote.blocks b hmem with hold | ⟨k, hk, -, hnat⟩
    · exact h.before.disjoint i hi.1 p h.mem hi.2 hb hold
    · exact (h.spare k hk b hnat).2 i hi.1 hb
  inode_marked := by
    intro i hi hmark
    rw [InodeMarked, h.inodeBit_eq (inodeGroup_lt (h.before.valid i hi.1))]
    exact hmark

theorem contents_other (h : fs.GroupSaved live d p data inode' d₁ d₂) (hi : i ∈ live)
    (hne : i ≠ p) : fs.readFileInode d₂ (fs.inodeOf d₂ i) = fs.readFileInode d (fs.inodeOf d i) :=
  (h.before.toGroupOwned.mono Set.sdiff_subset).contents_frame h.frame_others ⟨hi, hne⟩

theorem isDir_eq (h : fs.GroupSaved live d p data inode' d₁ d₂) (hi : i ∈ live) :
    (fs.inodeOf d₂ i).isDir = (fs.inodeOf d i).isDir := by
  by_cases hip : i = p
  · subst hip
    rw [h.inodeOf_self, Inode.isDir, Inode.isDir, h.wrote.mode]
  · rw [h.inodeOf_other (h.before.valid i hi) hip]

theorem owned (h : fs.GroupSaved live d p data inode' d₁ d₂) : fs.GroupOwned live d₂ := by
  have hothers := (h.before.toGroupOwned.mono Set.sdiff_subset).frame h.frame_others
  have hmarked : fs.InodeMarked d₂ p := by
    rw [InodeMarked, h.inodeBit_eq (inodeGroup_lt h.number)]
    exact h.before.inode_marked p h.mem
  have hjoin : fs.GroupOwned (insert p (live \ {p})) d₂ := by
    apply hothers.insert h.number hmarked
    · rw [h.inodeOf_self, h.refs_self.2]
      exact h.wrote.nodup
    rw [h.inodeOf_self]
    intro b hb
    refine ⟨?_, fun m hm => ?_, fun j hj hjp hb' => ?_⟩
    · rcases h.blocks_self hb with hold | ⟨k, -, hk, hnat⟩
      · exact h.before.refs_reached p h.mem b hold
      · exact h.before.sized.reached (by omega)
    · rw [h.kept.place h.before.sized hm]
      rcases h.blocks_self hb with hold | ⟨k, hk, -, hnat⟩
      · exact h.before.outside p h.mem b hold m hm
      · exact (h.spare k hk b hnat).1 m hm
    · rw [GroupOwned.refs_frame h.frame_others hj] at hb'
      rcases h.blocks_self hb with hold | ⟨k, hk, -, hnat⟩
      · exact h.before.disjoint j hj.1 p h.mem hjp hb' hold
      · exact (h.spare k hk b hnat).2 j hj.1 hb'
  rwa [Set.insert_sdiff_singleton, Set.insert_eq_of_mem h.mem] at hjoin

/-- The blocks of the saved file are those that it had, and those that the write got. -/
theorem covered (h : fs.GroupSaved live d p data inode' d₁ d₂) (hm : fs.Covered used live d)
    (hgot : ∀ k ∈ fs.grantedBits d (fs.inodeOf d p) (fs.blockCount data.length),
      ∀ b : UInt32, b.toNat = k + 1 → used b) : fs.Covered used live d₂ where
  metadata := by
    intro m hmem
    rw [h.kept.place h.before.sized hmem]
    exact hm.metadata m hmem
  blocks := by
    intro i hi b hb
    by_cases hip : i = p
    · subst hip
      rw [h.inodeOf_self] at hb
      rcases h.blocks_self hb with hold | ⟨k, hk, -, hnat⟩
      · exact hm.blocks i hi b hold
      · exact hgot k hk b hnat
    · rw [GroupOwned.refs_frame h.frame_others ⟨hi, hip⟩] at hb
      exact hm.blocks i hi b hb

/-- The blocks that are handed out after those of the write are as little in use as before. -/
theorem spare_after (h : fs.GroupSaved live d p data inode' d₁ d₂)
    (hspare : fs.Spare live d (missing (fs.inodeOf d p) (fs.blockCount data.length) + n)) :
    fs.Spare live d₂ n := by
  intro k hk b hb
  rw [h.freeBlocks_eq, List.take_drop] at hk
  obtain ⟨hmeta, hlive⟩ := hspare k (List.mem_of_mem_drop hk) b hb
  refine ⟨fun m hm => ?_, fun i hi hmem => ?_⟩
  · rw [h.kept.place h.before.sized hm]
    exact hmeta m hm
  by_cases hip : i = p
  case neg =>
    rw [GroupOwned.refs_frame h.frame_others ⟨hi, hip⟩] at hmem
    exact hlive i hi hmem
  case pos =>
    subst hip
    rw [h.inodeOf_self] at hmem
    rcases h.blocks_self hmem with hold | ⟨k', hk', -, hnat⟩
    · exact hlive i hi hold
    · -- the bits are handed out in ascending order
      rw [List.drop_take] at hk
      have hlater := List.mem_of_mem_take hk
      have hlt := (clearBits_sorted _ _).rel_of_mem_take_of_mem_drop hk' hlater
      omega

/-- A directory that is saved must list live inodes. -/
theorem consistent (h : fs.GroupSaved live d p data inode' d₁ d₂)
    (hdir : (fs.inodeOf d p).isDir = true →
      ∃ rs, data = encode rs ∧ ∀ e ∈ listed rs, e.2.1 ∈ live) : fs.GroupConsistent live d₂ where
  toGroupOwned := h.owned
  root := h.before.root
  dirs := by
    intro i hi hidir
    rw [h.isDir_eq hi] at hidir
    by_cases hip : i = p
    · subst hip
      obtain ⟨rs, rfl, hlive⟩ := hdir hidir
      exact ⟨rs, by rw [h.inodeOf_self]; exact h.contents_self, hlive⟩
    · rw [h.contents_other hi hip]
      exact h.before.dirs i hi hidir

/-- Paths resolve as before, if a directory that is saved still has its entries. -/
theorem outgrows (h : fs.GroupSaved live d p data inode' d₁ d₂)
    (hdir : (fs.inodeOf d p).isDir = true → ∀ entries,
      fs.readDirInode d (fs.inodeOf d p) = .ok entries →
        ∃ entries', fs.readDirInode d₂ inode' = .ok entries' ∧
          ∀ component e, lookup entries component = some e → lookup entries' component = some e) :
    fs.Outgrows live d (fs.inodeOf d) d₂ (fs.inodeOf d₂) where
  inodes := fun _ hi => h.owned.readInode hi
  kind := fun _ hi => h.isDir_eq hi
  lookups := by
    intro i hi hidir entries hread
    by_cases hip : i = p
    · subst hip
      rw [h.inodeOf_self]
      exact hdir hidir entries hread
    · -- another directory is not touched at all
      refine ⟨entries, ?_, fun _ _ he => he⟩
      rw [readDirInode] at hread ⊢
      rw [h.contents_other hi hip, h.inodeOf_other (h.before.valid i hi) hip]
      exact hread

end GroupSaved

/-- A failed write leaves all live files. -/
theorem Leak.frame (ho : fs.GroupOwned live d) (h : fs.Leak d d') : fs.GroupFrame live d d' where
  toKeptGroups := h.keptGroups ho.toGrouped
  inodes := fun i hi => h.inodeOf_eq ho.toGrouped (ho.valid i hi)
  blocks := fun i hi b hb => h.others b (ho.outside i hi b hb _ (blockBitmap_mem ho.groups))
  inode_marked := by
    intro i hi hmark
    rw [InodeMarked, h.inodeBit_eq ho.toGrouped (inodeGroup_lt (ho.valid i hi))]
    exact hmark

/-- Saving a live file fails exactly if the data does not fit. -/
theorem saveFile_outcome (hc : fs.GroupConsistent live d) (hi : i ∈ live) (data : List UInt8)
    (hspare : fs.Fits d (fs.inodeOf d i) data.length →
      fs.Spare live d (missing (fs.inodeOf d i) (fs.blockCount data.length))) :
    Outcome (fs.writeFileData (fs.inodeOf d i) data >>= fun inode => fs.writeInode i inode) d
      (fun _ d' => fs.Fits d (fs.inodeOf d i) data.length ∧
        ((fs.inodeOf d i).size.toNat ≤ data.length →
          ∃ inode' d₁, fs.GroupSaved live d i data inode' d₁ d'))
      (fun e d' => (fs.Fits d (fs.inodeOf d i) data.length ∧
          data.length < (fs.inodeOf d i).size.toNat ∧ e = .panic) ∨
        ¬fs.Fits d (fs.inodeOf d i) data.length ∧ (∃ msg, e = .error msg) ∧ fs.Leak d d') := by
  refine ((writeFileData_outcome hc.toGrouped fun hfits => hc.writable hi (hspare hfits)).mono
    (fun _ _ h => h) fun _ _ h => h).bind ?_
  rintro inode' d₁ ⟨hg₁, hfits, hwrote⟩
  obtain ⟨d₂, hexec, hset⟩ := hg₁.writeInode (hc.valid i hi) inode'
  refine Outcome.of_exec hexec ⟨hfits, fun hgrow => ⟨inode', d₁, ?_⟩⟩
  exact ⟨hc, hi, hspare hfits, hwrote hgrow, hset⟩

end Ext3Fs

end RustKernel.Fs
