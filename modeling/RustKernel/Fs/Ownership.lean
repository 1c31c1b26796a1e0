import RustKernel.Fs.GroupConsistency
import RustKernel.Fs.SingleGroup

/-!
# RustKernel.Fs.Ownership

Inodes that own their blocks, and what saving one file does to the blocks of all the others.

`Owned live d` is about the inodes in `live`: their blocks are distinct, marked used, and no
metadata. It says nothing of directories, so it also holds between the steps of a call, while an
entry and its inode disagree.

## Main results

- `Owned.group`, `Owned.of_group`: this is ownership on a volume of several groups, with one group
  and all blocks marked used
- `Preserved.owned`: a change that keeps the inodes, their blocks and the marks they need
- `Replaced.owned`: after `write_file_data` and `write_inode` the inodes own their blocks again, if
  the write clears no mark that is still needed

## Proof strategy

Every block that a call writes is the block bitmap, an inode table block, or a block of the file
it saves; ownership keeps these apart from the blocks of every other file.
-/

namespace RustKernel.Fs

open Lib

namespace Ext3Fs

variable (fs : Ext3Fs)

/-- The inodes in `live` own their blocks. -/
structure Owned (live : Set UInt32) (d : Drive) : Prop extends fs.Geometry d where
  valid : ∀ i ∈ live, fs.ValidInode i
  inode_used : ∀ i ∈ live, fs.InodeUsed d i
  refs_nodup : ∀ i ∈ live, (fs.refs d (fs.inodeAt d i)).Nodup
  block_used : ∀ i ∈ live, ∀ b ∈ fs.refs d (fs.inodeAt d i), fs.BlockUsed d b
  outside : ∀ i ∈ live, ∀ b ∈ fs.refs d (fs.inodeAt d i), b ∉ fs.metadata d
  disjoint : ∀ i ∈ live, ∀ j ∈ live, i ≠ j →
    (fs.refs d (fs.inodeAt d i)).Disjoint (fs.refs d (fs.inodeAt d j))

variable {fs} {live : Set UInt32} {d d' : Drive} {i j : UInt32}

namespace Owned

theorem mono {live' : Set UInt32} (hsub : live' ⊆ live) (h : fs.Owned live d) :
    fs.Owned live' d where
  toGeometry := h.toGeometry
  valid := fun i hi => h.valid i (hsub hi)
  inode_used := fun i hi => h.inode_used i (hsub hi)
  refs_nodup := fun i hi => h.refs_nodup i (hsub hi)
  block_used := fun i hi => h.block_used i (hsub hi)
  outside := fun i hi => h.outside i (hsub hi)
  disjoint := fun i hi j hj => h.disjoint i (hsub hi) j (hsub hj)

theorem sound (h : fs.Owned live d) (hi : i ∈ live) : fs.Sound d (fs.inodeAt d i) where
  nodup := h.refs_nodup i hi
  used := h.block_used i hi
  apart := fun b hb =>
    ⟨fun heq => h.outside i hi b hb (heq ▸ List.mem_cons_self),
      fun heq => h.outside i hi b hb (heq ▸ List.mem_cons_of_mem _ List.mem_cons_self)⟩

/-! #### As a volume with one group -/

/-- The blocks are owned in the volume with one group. -/
theorem group (h : fs.Owned live d) : fs.single.GroupOwned live d where
  toGrouped := h.toLayout.grouped
  valid := fun i hi => inodeNumber_single.mpr (h.valid i hi)
  inode_marked := fun i hi => (inodeMarked_single (h.valid i hi)).mpr (h.inode_used i hi)
  refs_nodup := fun i hi => inodeOf_single (h.valid i hi) ▸ h.refs_nodup i hi
  refs_reached := by
    intro i hi b hb
    rw [inodeOf_single (h.valid i hi)] at hb
    exact (h.block_used i hi b hb).reached h.sized
  outside := by
    intro i hi b hb m hm
    rw [inodeOf_single (h.valid i hi)] at hb
    rintro rfl
    exact h.outside i hi _ hb ((mem_metadata_single h.sized).mpr ⟨m, hm, rfl⟩)
  disjoint := by
    intro i hi j hj hij
    rw [inodeOf_single (h.valid i hi), inodeOf_single (h.valid j hj)]
    exact h.disjoint i hi j hj hij

/-- What is in use is marked used. -/
theorem covered (h : fs.Owned live d) : fs.single.Covered (fs.BlockUsed d) live d where
  metadata := fun m hm => h.used _ ((mem_metadata_single h.sized).mpr ⟨m, hm, rfl⟩)
  blocks := by
    intro i hi b hb
    rw [inodeOf_single (h.valid i hi)] at hb
    exact h.block_used i hi b hb

/-- So the blocks that the allocator hands out are not in use. -/
theorem spare (h : fs.Owned live d) (n : Nat) : fs.single.Spare live d n := by
  intro k hk b hb
  -- the bit is clear, while all that is in use is marked
  have hfree := not_blockUsed_of_free (List.mem_of_mem_take hk) hb
  constructor
  · rintro m hm rfl
    exact hfree (h.covered.metadata m hm)
  · exact fun i hi hmem => hfree (h.covered.blocks i hi b hmem)

/-- Ownership in the volume with one group, and the marks. -/
theorem of_group (h : fs.single.GroupOwned live d)
    (hused : fs.single.Covered (fs.BlockUsed d) live d) : fs.Owned live d := by
  have hsized : fs.Sized := h.sized
  have hvalid : ∀ i ∈ live, fs.ValidInode i := fun i hi => inodeNumber_single.mp (h.valid i hi)
  have hinode : ∀ i ∈ live, fs.single.inodeOf d i = fs.inodeAt d i :=
    fun i hi => inodeOf_single (hvalid i hi)
  -- inode and blocks are those of the one group
  have hrefs : ∀ i ∈ live, ∀ b ∈ fs.refs d (fs.inodeAt d i),
      b ∈ fs.single.refs d (fs.single.inodeOf d i) := by
    intro i hi b hb
    rw [hinode i hi]
    exact hb
  refine
    { toLayout := .of_grouped h.toGrouped
      used := fun b hb => ?_
      valid := hvalid
      inode_used := fun i hi => (inodeMarked_single (hvalid i hi)).mp (h.inode_marked i hi)
      refs_nodup := fun i hi => hinode i hi ▸ h.refs_nodup i hi
      block_used := fun i hi b hb => hused.blocks i hi b (hrefs i hi b hb)
      outside := fun i hi b hb hmeta => ?_
      disjoint := fun i hi j hj hij => ?_ }
  · obtain ⟨m, hm, rfl⟩ := (mem_metadata_single hsized).mp hb
    exact hused.metadata m hm
  · obtain ⟨m, hm, rfl⟩ := (mem_metadata_single hsized).mp hmeta
    exact h.outside i hi _ (hrefs i hi _ hb) m hm rfl
  · rw [← hinode i hi, ← hinode j hj]
    exact h.disjoint i hi j hj hij

end Owned

/-! ### Changes that leave the live inodes alone -/

variable (fs) in
/-- `d'` keeps every live inode of `d`, its blocks, and the marks that these and the metadata
    need. -/
structure Preserved (live : Set UInt32) (d d' : Drive) : Prop where
  healthy : d'.Healthy
  descriptor : fs.block d' fs.bgDescTableBlock = fs.block d fs.bgDescTableBlock
  inodes : ∀ i ∈ live, fs.inodeAt d' i = fs.inodeAt d i
  blocks : ∀ i ∈ live, ∀ b ∈ fs.refs d (fs.inodeAt d i), fs.block d' b = fs.block d b
  metadata_used : ∀ b ∈ fs.metadata d, fs.BlockUsed d' b
  block_used : ∀ i ∈ live, ∀ b ∈ fs.refs d (fs.inodeAt d i), fs.BlockUsed d' b
  inode_used : ∀ i ∈ live, fs.InodeUsed d' i

namespace Preserved

/-- The change keeps the live inodes in the volume with one group. -/
theorem frame (ho : fs.Owned live d) (h : fs.Preserved live d d') :
    fs.single.GroupFrame live d d' where
  toKeptGroups := (keptGroups_single_iff ho.sized).mpr ⟨h.healthy, h.descriptor⟩
  inodes := fun i hi => by
    rw [inodeOf_single (ho.valid i hi), inodeOf_single (ho.valid i hi), h.inodes i hi]
  blocks := fun i hi b hb => h.blocks i hi b (inodeOf_single (ho.valid i hi) ▸ hb)
  inode_marked := fun i hi _ => (inodeMarked_single (ho.valid i hi)).mpr (h.inode_used i hi)

theorem contents (ho : fs.Owned live d) (h : fs.Preserved live d d') (hi : i ∈ live) :
    fs.readFileInode d' (fs.inodeAt d' i) = fs.readFileInode d (fs.inodeAt d i) := by
  have hread := ho.group.contents_frame (h.frame ho) hi
  rwa [inodeOf_single (ho.valid i hi), inodeOf_single (ho.valid i hi)] at hread

private theorem metadata_eq (h : fs.Preserved live d d') : fs.metadata d' = fs.metadata d :=
  metadata_congr (descriptor_congr h.descriptor)

theorem owned (ho : fs.Owned live d) (h : fs.Preserved live d d') : fs.Owned live d' := by
  apply Owned.of_group (ho.group.frame (h.frame ho))
  -- what is left are the marks
  constructor
  · intro m hm
    apply h.metadata_used
    rw [← h.metadata_eq]
    exact (mem_metadata_single ho.sized).mpr ⟨m, hm, rfl⟩
  · intro i hi b hb
    apply h.block_used i hi
    rwa [inodeOf_single (ho.valid i hi), h.inodes i hi, refs_single,
      refs_congr (h.blocks i hi)] at hb

end Preserved

/-! ### Saving a file -/

variable (fs) in
/-- `write_file_data` on the live file `i`, giving `d₁`, then `write_inode`, giving `d₂`. -/
structure Replaced (live : Set UInt32) (d : Drive) (i : UInt32) (data : List UInt8) (inode' : Inode)
    (d₁ d₂ : Drive) : Prop where
  before : fs.Owned live d
  mem : i ∈ live
  rewritten : fs.Rewritten d (fs.inodeAt d i) data inode' d₁
  written : fs.InodeWritten d₁ i inode' d₂

namespace Replaced

variable {data : List UInt8} {inode' : Inode} {d₁ d₂ : Drive}

private theorem block_descriptor (h : fs.Replaced live d i data inode' d₁ d₂) :
    fs.block d₁ fs.bgDescTableBlock = fs.block d fs.bgDescTableBlock :=
  h.rewritten.descriptor_eq h.before.toVolume (h.before.sound h.mem)

private theorem slotBlock_eq (h : fs.Replaced live d i data inode' d₁ d₂) (j : UInt32) :
    fs.slotBlock d₁ j = fs.slotBlock d j :=
  slotBlock_congr (descriptor_congr h.block_descriptor) j

/-- The block of the inode, which `write_inode` writes, is metadata. -/
private theorem slot_mem (h : fs.Replaced live d i data inode' d₁ d₂) :
    fs.slotBlock d i ∈ fs.metadata d :=
  slotBlock_mem h.before.sized (h.before.valid i h.mem)

private theorem descriptor_kept (h : fs.Replaced live d i data inode' d₁ d₂) :
    fs.block d₂ fs.bgDescTableBlock = fs.block d fs.bgDescTableBlock := by
  have hne := (h.before.toLayout.slotBlock_ne (h.before.valid i h.mem)).1
  rw [h.written.others _ (by rw [h.slotBlock_eq]; exact hne.symm), h.block_descriptor]

theorem layout (h : fs.Replaced live d i data inode' d₁ d₂) : fs.Layout d₂ :=
  h.before.toLayout.of_kept h.written.healthy h.descriptor_kept

/-- Metadata other than the block bitmap survive `write_file_data`. -/
private theorem metadata_kept (h : fs.Replaced live d i data inode' d₁ d₂) {m : UInt32}
    (hm : m ∈ fs.metadata d) (hne : m ≠ (fs.descriptor d).blockBitmap) :
    fs.block d₁ m = fs.block d m :=
  h.rewritten.others m (h.before.used m hm) (fun hmem => h.before.outside i h.mem m hmem hm) hne

theorem inodeAt_self (h : fs.Replaced live d i data inode' d₁ d₂) : fs.inodeAt d₂ i = inode' :=
  h.written.written

theorem inodeAt_other (h : fs.Replaced live d i data inode' d₁ d₂) (hj : fs.ValidInode j)
    (hne : j ≠ i) : fs.inodeAt d₂ j = fs.inodeAt d j := by
  rw [h.written.kept j hj hne]
  exact inodeAt_congr (descriptor_congr h.block_descriptor)
    (h.metadata_kept (slotBlock_mem h.before.sized hj) (h.before.toLayout.slotBlock_ne hj).2.1)

/-- The saved file takes no metadata. -/
private theorem outside_self (h : fs.Replaced live d i data inode' d₁ d₂) :
    ∀ b ∈ fs.refs d₁ inode', b ∉ fs.metadata d := by
  intro b hb hm
  rcases h.rewritten.fresh b hb with hold | ⟨hfree, -⟩
  · exact h.before.outside i h.mem b hold hm
  · exact hfree (h.before.used b hm)

private theorem block_self (h : fs.Replaced live d i data inode' d₁ d₂) :
    ∀ b ∈ fs.refs d₁ inode', fs.block d₂ b = fs.block d₁ b := by
  intro b hb
  refine h.written.others b fun heq => ?_
  rw [h.slotBlock_eq] at heq
  exact h.outside_self b hb (heq ▸ h.slot_mem)

theorem refs_self (h : fs.Replaced live d i data inode' d₁ d₂) :
    fs.refs d₂ inode' = fs.refs d₁ inode' :=
  refs_congr h.block_self

theorem contents_self (h : fs.Replaced live d i data inode' d₁ d₂) :
    fs.readFileInode d₂ inode' = .ok data := by
  rw [← h.rewritten.contents]
  exact readFileInode_congr h.before.sized h.rewritten.healthy h.written.healthy
    h.rewritten.reached h.block_self

/-- The blocks of the other files are not touched. -/
private theorem block_other (h : fs.Replaced live d i data inode' d₁ d₂) (hj : j ∈ live)
    (hne : j ≠ i) :
    ∀ b ∈ fs.refs d (fs.inodeAt d j), fs.block d₂ b = fs.block d b := by
  intro b hb
  have hmeta := h.before.outside j hj b hb
  have hbitmap : b ≠ (fs.descriptor d).blockBitmap := by
    rintro rfl
    exact hmeta (List.mem_cons_of_mem _ List.mem_cons_self)
  have hslot : b ≠ fs.slotBlock d₁ i := by
    rw [h.slotBlock_eq]
    rintro rfl
    exact hmeta h.slot_mem
  rw [h.written.others b hslot]
  exact h.rewritten.others b (h.before.block_used j hj b hb)
    (fun hi => h.before.disjoint j hj i h.mem hne hb hi) hbitmap

private theorem refs_other (h : fs.Replaced live d i data inode' d₁ d₂) (hj : j ∈ live)
    (hne : j ≠ i) :
    fs.refs d₂ (fs.inodeAt d j) = fs.refs d (fs.inodeAt d j) :=
  refs_congr (h.block_other hj hne)

theorem contents_other (h : fs.Replaced live d i data inode' d₁ d₂) (hj : j ∈ live) (hne : j ≠ i) :
    fs.readFileInode d₂ (fs.inodeAt d₂ j) = fs.readFileInode d (fs.inodeAt d j) := by
  rw [h.inodeAt_other (h.before.valid j hj) hne]
  exact readFileInode_congr h.before.sized h.before.healthy h.written.healthy
    ((h.before.sound hj).reached h.before.sized) (h.block_other hj hne)

theorem isDir_eq (h : fs.Replaced live d i data inode' d₁ d₂) (hj : j ∈ live) :
    (fs.inodeAt d₂ j).isDir = (fs.inodeAt d j).isDir := by
  by_cases hji : j = i
  · subst hji
    rw [h.inodeAt_self, Inode.isDir, Inode.isDir, h.rewritten.mode]
  · rw [h.inodeAt_other (h.before.valid j hj) hji]

private theorem blockUsed_iff (h : fs.Replaced live d i data inode' d₁ d₂) (b : UInt32) :
    fs.BlockUsed d₂ b ↔ fs.BlockUsed d₁ b := by
  have hdesc : fs.descriptor d₁ = fs.descriptor d := descriptor_congr h.block_descriptor
  have hne := (h.before.toLayout.slotBlock_ne (h.before.valid i h.mem)).2.1
  refine blockUsed_congr h.written.descriptor (h.written.others _ ?_) b
  rw [hdesc, h.slotBlock_eq]
  exact hne.symm

theorem inodeUsed_iff (h : fs.Replaced live d i data inode' d₁ d₂) (j : UInt32) :
    fs.InodeUsed d₂ j ↔ fs.InodeUsed d j := by
  have hne := (h.before.toLayout.slotBlock_ne (h.before.valid i h.mem)).2.2
  have hblock :
      fs.block d₂ (fs.descriptor d).inodeBitmap = fs.block d (fs.descriptor d).inodeBitmap := by
    rw [h.written.others _ (by rw [h.slotBlock_eq]; exact hne.symm)]
    exact h.metadata_kept h.before.toLayout.inodeBitmap_mem h.before.toLayout.inodeBitmap_ne.2
  rw [InodeUsed, InodeUsed, descriptor_congr h.descriptor_kept, hblock]

/-- Saving keeps the blocks owned when the marks it clears are not needed. -/
theorem owned (h : fs.Replaced live d i data inode' d₁ d₂)
    (hsafe : ∀ b, fs.Unmarked (fs.inodeAt d i) (fs.blocksNeeded data) b →
      b ∉ fs.metadata d ∧ (∀ j ∈ live, j ≠ i → b ∉ fs.refs d (fs.inodeAt d j)) ∧
        b ∉ fs.refs d₁ inode') : fs.Owned live d₂ := by
  have hrefs : ∀ j ∈ live, fs.refs d₂ (fs.inodeAt d₂ j) =
      if j = i then fs.refs d₁ inode' else fs.refs d (fs.inodeAt d j) := by
    intro j hj
    split
    case isTrue hji => rw [hji, h.inodeAt_self, h.refs_self]
    case isFalse hji => rw [h.inodeAt_other (h.before.valid j hj) hji, h.refs_other hj hji]
  have hmeta : fs.metadata d₂ = fs.metadata d := metadata_congr (descriptor_congr h.descriptor_kept)
  have hkept : ∀ b, fs.BlockUsed d b → ¬fs.Unmarked (fs.inodeAt d i) (fs.blocksNeeded data) b →
      fs.BlockUsed d₂ b :=
    fun b hb hnot => (h.blockUsed_iff b).mpr ((h.rewritten.kept b hb).resolve_right hnot)
  -- what the saved file refers to is its own, or was free
  have hown : ∀ j ∈ live, j ≠ i → (fs.refs d₁ inode').Disjoint (fs.refs d (fs.inodeAt d j)) := by
    intro j hj hji b hb hb'
    rcases h.rewritten.fresh b hb with hold | ⟨hfree, -⟩
    · exact h.before.disjoint j hj i h.mem hji hb' hold
    · exact hfree (h.before.block_used j hj b hb')
  refine
    { toLayout := h.layout
      used := fun b hb => ?_
      valid := h.before.valid
      inode_used := fun j hj => (h.inodeUsed_iff j).mpr (h.before.inode_used j hj)
      refs_nodup := fun j hj => ?_
      block_used := fun j hj b hb => ?_
      outside := fun j hj b hb => ?_
      disjoint := fun j hj k hk hjk => ?_ }
  · -- the metadata keep their marks
    rw [hmeta] at hb
    exact hkept b (h.before.used b hb) fun hun => (hsafe b hun).1 hb
  · -- no block twice in one file
    rw [hrefs j hj]
    split
    · exact h.rewritten.nodup
    · exact h.before.refs_nodup j hj
  · -- the blocks referred to are marked used
    rw [hrefs j hj] at hb
    split at hb
    · exact (h.blockUsed_iff b).mpr
        ((h.rewritten.marked b hb).resolve_right fun hun => (hsafe b hun).2.2 hb)
    case isFalse hji =>
      exact hkept b (h.before.block_used j hj b hb) fun hun => (hsafe b hun).2.1 j hj hji hb
  · -- and no metadata
    rw [hmeta]
    rw [hrefs j hj] at hb
    split at hb
    · exact h.outside_self b hb
    · exact h.before.outside j hj b hb
  · -- no block in two files
    rw [hrefs j hj, hrefs k hk]
    split
    case isTrue hji =>
      rw [if_neg fun hki => hjk (hji.trans hki.symm)]
      exact hown k hk fun hki => hjk (hji.trans hki.symm)
    case isFalse hji =>
      split
      · exact (hown j hj hji).symm
      · exact h.before.disjoint j hj k hk hjk

end Replaced

end Ext3Fs

end RustKernel.Fs
