import RustKernel.Fs.Ownership
import RustKernel.Fs.Paths

/-!
# RustKernel.Fs.Consistency

Consistent filesystems of one block group, and what saving one file does to all the others.

`Consistent live d` is about a set `live` of inodes that contains the root and is closed under the
listed entries of its directories: their blocks are distinct, marked used, and no metadata.

## Main results

- `Consistent.group`, `Consistent.of_group`: it is consistent in the sense of several groups, with
  one group and all blocks marked used
- `Consistent.walk_live`: on a consistent filesystem a path resolves to a live inode
- `Saved.consistent`: after `write_file_data` and `write_inode` the filesystem is consistent again,
  if the write clears no mark that is still needed

## Proof strategy

The blocks are a matter of ownership (`Consistent.owned`); what is left are the directories, whose
contents change only when they are saved themselves.
-/

namespace RustKernel.Fs

open Lib

namespace Ext3Fs

variable (fs : Ext3Fs)

/-- A consistent filesystem, as far as the inodes in `live` are concerned. -/
structure Consistent (live : Set UInt32) (d : Drive) : Prop extends fs.Geometry d where
  root : 2 ∈ live
  valid : ∀ i ∈ live, fs.ValidInode i
  inode_used : ∀ i ∈ live, fs.InodeUsed d i
  refs_nodup : ∀ i ∈ live, (fs.refs d (fs.inodeAt d i)).Nodup
  block_used : ∀ i ∈ live, ∀ b ∈ fs.refs d (fs.inodeAt d i), fs.BlockUsed d b
  outside : ∀ i ∈ live, ∀ b ∈ fs.refs d (fs.inodeAt d i), b ∉ fs.metadata d
  disjoint : ∀ i ∈ live, ∀ j ∈ live, i ≠ j →
    (fs.refs d (fs.inodeAt d i)).Disjoint (fs.refs d (fs.inodeAt d j))
  dirs : ∀ i ∈ live, (fs.inodeAt d i).isDir = true →
    ∃ rs, fs.readFileInode d (fs.inodeAt d i) = .ok (encode rs) ∧
      ∀ e ∈ listed rs, e.2.1 ∈ live

variable {fs} {live : Set UInt32} {d d' : Drive} {i j : UInt32}

/-- What owning the blocks leaves to show. -/
theorem Owned.consistent (ho : fs.Owned live d) (hroot : 2 ∈ live)
    (hdirs : ∀ i ∈ live, (fs.inodeAt d i).isDir = true →
      ∃ rs, fs.readFileInode d (fs.inodeAt d i) = .ok (encode rs) ∧
        ∀ e ∈ listed rs, e.2.1 ∈ live) : fs.Consistent live d where
  toGeometry := ho.toGeometry
  root := hroot
  valid := ho.valid
  inode_used := ho.inode_used
  refs_nodup := ho.refs_nodup
  block_used := ho.block_used
  outside := ho.outside
  disjoint := ho.disjoint
  dirs := hdirs

namespace Consistent

theorem owned (h : fs.Consistent live d) : fs.Owned live d where
  toGeometry := h.toGeometry
  valid := h.valid
  inode_used := h.inode_used
  refs_nodup := h.refs_nodup
  block_used := h.block_used
  outside := h.outside
  disjoint := h.disjoint

theorem sound (h : fs.Consistent live d) (hi : i ∈ live) : fs.Sound d (fs.inodeAt d i) :=
  h.owned.sound hi

theorem readInode (h : fs.Consistent live d) (hi : i ∈ live) :
    fs.readInode d i = .ok (fs.inodeAt d i) :=
  readInode_eq h.toLayout (h.valid i hi)

/-- A live directory lists live inodes. -/
theorem readDirInode (h : fs.Consistent live d) (hi : i ∈ live)
    (hdir : (fs.inodeAt d i).isDir = true) :
    ∃ entries, fs.readDirInode d (fs.inodeAt d i) = .ok entries ∧ ∀ e ∈ entries, e.2.1 ∈ live := by
  obtain ⟨rs, hread, hlive⟩ := h.dirs i hi hdir
  exact ⟨_, readDirInode_encode h.sized hread, hlive⟩

/-! ### As a volume with one group -/

theorem group (h : fs.Consistent live d) : fs.single.GroupConsistent live d where
  toGroupOwned := h.owned.group
  root := h.root
  dirs := fun i hi => inodeOf_single (h.valid i hi) ▸ h.dirs i hi

theorem of_group (h : fs.single.GroupConsistent live d)
    (hused : fs.single.Covered (fs.BlockUsed d) live d) : fs.Consistent live d := by
  have ho : fs.Owned live d := .of_group h.toGroupOwned hused
  apply ho.consistent h.root
  intro i hi hdir
  rw [← inodeOf_single (ho.valid i hi)] at hdir ⊢
  exact h.dirs i hi hdir

/-- With a bitmap that is used up to its end, the marks are those of the group. -/
theorem groupMarked (h : fs.Consistent live d)
    (hper : fs.blocksPerGroup.toNat = 8 * fs.blockSize) : fs.single.GroupMarked live d where
  toCovered := by
    apply h.owned.covered.mono
    intro b hb
    -- a marked block lies within the bitmap, so within the group
    have hle := Used.le hb
    rw [length_block h.sized] at hle
    obtain ⟨hpos, hset⟩ := blockUsed_iff_bit.mp hb
    have hlt : b.toNat - 1 < fs.single.blocksPerGroup.toNat := by
      change _ < fs.blocksPerGroup.toNat
      omega
    exact Marked.of_bit Nat.one_pos hlt (by omega) hset

theorem inodeOf_single (h : fs.Consistent live d) (hi : i ∈ live) :
    fs.single.inodeOf d i = fs.inodeAt d i := Ext3Fs.inodeOf_single (h.valid i hi)

/-! ### Paths -/

theorem browsable (h : fs.Consistent live d) : fs.Browsable live d (fs.inodeAt d) where
  root := h.root
  inodes := fun _ hi => h.readInode hi
  entries := fun _ hi hdir => h.readDirInode hi hdir

theorem walk_live (h : fs.Consistent live d) {path : String} {n : Inode} {ft : UInt8}
    (hwalk : fs.walk d 2 path = .ok (j, n, ft)) :
    j ∈ live ∧ n = fs.inodeAt d j ∧ ft = fileType n :=
  h.browsable.walk_mem hwalk

end Consistent

/-! ### Changes that leave the live inodes alone -/

variable (fs) in
/-- `d'` keeps every live inode of `d` and its blocks, and all the marks. -/
structure Kept (live : Set UInt32) (d d' : Drive) : Prop where
  healthy : d'.Healthy
  descriptor : fs.block d' fs.bgDescTableBlock = fs.block d fs.bgDescTableBlock
  inodes : ∀ i ∈ live, fs.inodeAt d' i = fs.inodeAt d i
  blocks : ∀ i ∈ live, ∀ b ∈ fs.refs d (fs.inodeAt d i), fs.block d' b = fs.block d b
  block_used : ∀ b, fs.BlockUsed d b → fs.BlockUsed d' b
  inode_used : ∀ i, fs.InodeUsed d i → fs.InodeUsed d' i

theorem Kept.preserved (ho : fs.Owned live d) (h : fs.Kept live d d') :
    fs.Preserved live d d' where
  healthy := h.healthy
  descriptor := h.descriptor
  inodes := h.inodes
  blocks := h.blocks
  metadata_used := fun b hb => h.block_used b (ho.used b hb)
  block_used := fun i hi b hb => h.block_used b (ho.block_used i hi b hb)
  inode_used := fun i hi => h.inode_used i (ho.inode_used i hi)

theorem Kept.contents (hc : fs.Consistent live d) (h : fs.Kept live d d') (hi : i ∈ live) :
    fs.readFileInode d' (fs.inodeAt d' i) = fs.readFileInode d (fs.inodeAt d i) :=
  (h.preserved hc.owned).contents hc.owned hi

theorem Kept.consistent (hc : fs.Consistent live d) (h : fs.Kept live d d') :
    fs.Consistent live d' := by
  apply ((h.preserved hc.owned).owned hc.owned).consistent hc.root
  intro i hi hdir
  rw [h.contents hc hi]
  rw [h.inodes i hi] at hdir
  exact hc.dirs i hi hdir

/-! ### Saving a file -/

variable (fs) in
/-- `write_file_data` on the live file `i`, giving `d₁`, then `write_inode`, giving `d₂`. -/
structure Saved (live : Set UInt32) (d : Drive) (i : UInt32) (data : List UInt8) (inode' : Inode)
    (d₁ d₂ : Drive) : Prop where
  before : fs.Consistent live d
  mem : i ∈ live
  rewritten : fs.Rewritten d (fs.inodeAt d i) data inode' d₁
  written : fs.InodeWritten d₁ i inode' d₂

namespace Saved

variable {data : List UInt8} {inode' : Inode} {d₁ d₂ : Drive}

theorem replaced (h : fs.Saved live d i data inode' d₁ d₂) :
    fs.Replaced live d i data inode' d₁ d₂ :=
  ⟨h.before.owned, h.mem, h.rewritten, h.written⟩

/-- Saving keeps the filesystem consistent when the marks it clears are not needed, and a
    directory that is saved lists live inodes. -/
theorem consistent (h : fs.Saved live d i data inode' d₁ d₂)
    (hsafe : ∀ b, fs.Unmarked (fs.inodeAt d i) (fs.blocksNeeded data) b →
      b ∉ fs.metadata d ∧ (∀ j ∈ live, j ≠ i → b ∉ fs.refs d (fs.inodeAt d j)) ∧
        b ∉ fs.refs d₁ inode')
    (hdir : (fs.inodeAt d i).isDir = true →
      ∃ rs, data = encode rs ∧ ∀ e ∈ listed rs, e.2.1 ∈ live) : fs.Consistent live d₂ := by
  have hr := h.replaced
  apply (hr.owned hsafe).consistent h.before.root
  intro j hj hjdir
  by_cases hji : j = i
  · subst hji
    obtain ⟨rs, rfl, hlive⟩ := hdir ((hr.isDir_eq hj).symm.trans hjdir)
    exact ⟨rs, by rw [hr.inodeAt_self]; exact hr.contents_self, hlive⟩
  · -- another directory is not touched
    rw [hr.contents_other hj hji]
    exact h.before.dirs j hj ((hr.isDir_eq hj).symm.trans hjdir)

/-- Paths resolve as before, if a directory that is saved still has its entries. -/
theorem outgrows (h : fs.Saved live d i data inode' d₁ d₂)
    (hdir : (fs.inodeAt d i).isDir = true → ∀ entries,
      fs.readDirInode d (fs.inodeAt d i) = .ok entries →
        ∃ entries', fs.readDirInode d₂ inode' = .ok entries' ∧
          ∀ component e, lookup entries component = some e → lookup entries' component = some e) :
    fs.Outgrows live d (fs.inodeAt d) d₂ (fs.inodeAt d₂) where
  inodes := fun j hj => readInode_eq h.replaced.layout (h.before.valid j hj)
  kind := fun j hj => h.replaced.isDir_eq hj
  lookups := by
    intro j hj hjdir entries hread
    by_cases hji : j = i
    · subst hji
      rw [h.replaced.inodeAt_self]
      exact hdir hjdir entries hread
    · -- another directory is not touched at all
      refine ⟨entries, ?_, fun _ _ he => he⟩
      rw [readDirInode] at hread ⊢
      rw [h.replaced.contents_other hj hji, h.replaced.inodeAt_other (h.before.valid j hj) hji]
      exact hread

end Saved

/-! ### Reading a file -/

/-- A path that still resolves is read as before, if the file it leads to is. -/
theorem Consistent.readFile_eq (h : fs.Consistent live d)
    (hext : fs.Outgrows live d (fs.inodeAt d) d' (fs.inodeAt d')) {path : String} {n : Inode}
    {ft : UInt8} (hwalk : fs.walk d 2 path = .ok (j, n, ft))
    (hsame : (fs.inodeAt d j).isDir = false →
      fs.readFileInode d' (fs.inodeAt d' j) = fs.readFileInode d (fs.inodeAt d j)) :
    fs.readFile d' path = fs.readFile d path := by
  obtain ⟨hj, rfl, -⟩ := h.walk_live hwalk
  rw [readFile_of_walk hwalk, readFile_of_walk (h.browsable.walk_outgrown hext hwalk),
    hext.kind j hj]
  by_cases hdir : (fs.inodeAt d j).isDir = true
  · rw [if_pos hdir, if_pos hdir]
  · rw [if_neg hdir, if_neg hdir]
    apply hsame
    simpa using hdir

end Ext3Fs

end RustKernel.Fs
