import RustKernel.Fs.Consistency
import RustKernel.Fs.GroupCreating

/-!
# RustKernel.Fs.Creating

Creating a file on a volume of one block group: what `create_file` does to a volume of several, read
off for a volume with one.

## Main result

* `createFile_ends`: on a consistent filesystem `create_file` ends in `Created`, or it fails with
  nothing changed but an inode taken that no directory lists, and blocks marked used

## Proof strategy

All blocks in use are marked used, so the blocks that the allocator hands out are not in use, and
`createFile_outcome` applies. An inode that `Joined` the live ones keeps the filesystem consistent,
whether `create_file` returned or not.
-/

namespace RustKernel.Fs

open Lib

namespace Ext3Fs

variable {fs : Ext3Fs} {live : Set UInt32} {d d' d₁ : Drive} {j p ino : UInt32}
  {path name : String} {rs : List Record}

variable (fs) in
/-- The inode `ino` has joined the live ones, as an empty file, and these are as they were, but for
    those in `changed`. -/
structure Joined (changed live : Set UInt32) (d : Drive) (ino : UInt32) (d' : Drive) : Prop where
  consistent : fs.Consistent (insert ino live) d'
  notMem : ino ∉ live
  empty : fs.inodeAt d' ino = emptyFile
  inode_used : ∀ j, fs.InodeUsed d' j ↔ fs.InodeUsed d j ∨ j = ino
  inodes : ∀ j ∈ live, j ∉ changed → fs.inodeAt d' j = fs.inodeAt d j
  contents : ∀ j ∈ live, j ∉ changed →
    fs.readFileInode d' (fs.inodeAt d' j) = fs.readFileInode d (fs.inodeAt d j)

variable (fs) in
/-- `create_file` has returned: the inode `ino` has the entry `name` in the directory `p`, whose
    records were `rs`. -/
structure Created (live : Set UInt32) (d : Drive) (path name : String) (p ino : UInt32)
    (rs : List Record) (d' : Drive) : Prop extends fs.Joined {p} live d ino d' where
  last : name ∈ splitSlash path
  mem : p ∈ live
  dir : (fs.inodeAt d p).isDir = true
  raw : fs.readFileInode d (fs.inodeAt d p) = .ok (encode rs)
  raw_after : ∃ rs', fs.readFileInode d' (fs.inodeAt d' p) = .ok (encode rs') ∧
    listed rs' = listed rs ++ if Visible rs name then [(name, ino, FT_REG)] else []
  filled : ∀ k, k * fs.blockSize < (fs.inodeAt d' p).size.toNat → (fs.inodeAt d' p).pointer k ≠ 0
  outgrows : fs.Outgrows live d (fs.inodeAt d) d' (fs.inodeAt d')
  walk_path : fs.walk d' 2 path =
    if Visible rs name then .ok (ino, emptyFile, FT_REG) else .error (.error "file not found")

variable (fs) in
/-- `create_file` has failed: the drive is as it was, or an inode has been taken that no directory
    lists. -/
def CreateFailed (live : Set UInt32) (d d' : Drive) : Prop :=
  d' = d ∨ ∃ ino, fs.Joined ∅ live d ino d'

/-! ### From a volume with one group -/

/-- A bit of the inode bitmap, in terms of the inodes marked used. -/
private theorem inodeUsed_iff_of_bits (hino : 1 ≤ ino.toNat)
    (hbits : ∀ k, fs.single.inodeBit d' 0 k =
      (fs.single.inodeBit d 0 k || decide (ino.toNat - 1 = k))) (j : UInt32) :
    fs.InodeUsed d' j ↔ fs.InodeUsed d j ∨ j = ino := by
  have hj : j = ino ↔ j.toNat = ino.toNat := UInt32.toNat_inj.symm
  rw [inodeUsed_iff_bit, inodeUsed_iff_bit, hbits, Bool.or_eq_true, decide_eq_true_eq, hj]
  constructor
  · rintro ⟨hpos, hset | heq⟩
    · exact .inl ⟨hpos, hset⟩
    · exact .inr (by omega)
  · rintro (⟨hpos, hset⟩ | heq)
    · exact ⟨hpos, .inl hset⟩
    · exact ⟨by omega, .inr (by omega)⟩

/-- Nothing has happened but that an inode was taken, and blocks were marked. -/
private theorem Joined.of_leak (hc : fs.Consistent live d)
    (hclaimed : fs.single.GroupClaimed live d ino d₁) (hleak : fs.single.Leak d₁ d') :
    fs.Joined ∅ live d ino d' := by
  have hg := hclaimed.consistent
  have hframe := hleak.frame hg.toGroupOwned
  have hused : fs.single.Covered (fs.BlockUsed d') (insert ino live) d' := by
    -- the leak clears no bit
    apply (hg.covered_frame hframe (hclaimed.covered hc.owned.covered)).mono
    intro b hb
    obtain ⟨hpos, hset⟩ := blockUsed_iff_bit.mp hb
    refine blockUsed_iff_bit.mpr ⟨hpos, ?_⟩
    rw [blockBit, hframe.place hg.sized (blockBitmap_mem hg.groups)]
    exact hleak.kept _ (by rwa [hclaimed.blockBit_eq hc.group.groups])
  have hc' : fs.Consistent (insert ino live) d' := .of_group (hg.frame hframe) hused
  have hinode : ∀ j ∈ live, fs.single.inodeOf d' j = fs.single.inodeOf d j := by
    intro j hj
    rw [hframe.inodes j (.inr hj), hclaimed.frame.inodes j hj]
  refine ⟨hc', hclaimed.notMem, ?_, ?_, fun j hj _ => ?_, fun j hj _ => ?_⟩
  · rw [← hc'.inodeOf_single (.inl rfl), hframe.inodes ino (.inl rfl), hclaimed.empty]
  · apply inodeUsed_iff_of_bits hclaimed.positive
    intro k
    rw [hleak.inodeBit_eq hg.toGrouped hg.groups, hclaimed.bits]
  · rw [← hc'.inodeOf_single (.inr hj), ← hc.inodeOf_single hj, hinode j hj]
  · rw [← hc'.inodeOf_single (.inr hj), ← hc.inodeOf_single hj]
    exact (hg.contents_frame hframe (.inr hj)).trans (hclaimed.contents hj)

private theorem Created.of_group (hc : fs.Consistent live d)
    (h : fs.single.GroupCreated live d path name p ino rs d₁ d') :
    fs.Created live d path name p ino rs d' := by
  have hused : fs.single.Covered (fs.BlockUsed d') (insert ino live) d' := by
    apply h.covered hc.owned.covered
    -- the marks of before are there still, and those of the new blocks are set
    · intro b hb
      obtain ⟨hpos, hset⟩ := blockUsed_iff_bit.mp hb
      exact blockUsed_iff_bit.mpr ⟨hpos, h.blockBit_mono hc.group.groups hset⟩
    · intro k _ b hb hset
      rw [blockUsed_iff_bit, hb, Nat.add_sub_cancel]
      exact ⟨Nat.le_add_left .., hset⟩
  have hc' : fs.Consistent (insert ino live) d' := .of_group h.consistent hused
  -- the inodes are those of the one group
  have hold : ∀ j ∈ live, fs.single.inodeOf d j = fs.inodeAt d j := fun _ hj => hc.inodeOf_single hj
  have hnew : ∀ j ∈ live, fs.single.inodeOf d' j = fs.inodeAt d' j :=
    fun _ hj => hc'.inodeOf_single (.inr hj)
  obtain ⟨parent, hsplit, ft, hwalk⟩ := h.ready.split
  have hp := h.mem
  have hout := h.outgrows
  refine
    { consistent := hc'
      notMem := h.claimed.notMem
      empty := by rw [← hc'.inodeOf_single (.inl rfl), h.inodeOf_new]
      inode_used := inodeUsed_iff_of_bits h.claimed.positive fun k => ?_
      inodes := fun j hj hne => ?_
      contents := fun j hj hne => ?_
      last := ?_
      mem := hp
      dir := hold p hp ▸ h.ready.dir
      raw := hold p hp ▸ h.ready.raw
      raw_after := ?_
      filled := fun k hk => ?_
      outgrows := ⟨fun j hj => hc'.readInode (.inr hj), fun j hj => ?_, fun j hj => ?_⟩
      walk_path := (walk_single d' 2 path).symm.trans h.walk_path }
  · rw [h.inodeBit_eq hc.group.groups]
    simp
  · rw [← hold j hj, ← hnew j hj, h.inodeOf_other hj hne]
  · rw [← hold j hj, ← hnew j hj]
    exact h.contents_other hj hne
  · rw [splitSlash_of_splitParent hsplit]
    exact List.mem_append_right _ List.mem_cons_self
  · obtain ⟨small, hraw⟩ := h.raw_after
    rw [← hnew p hp]
    exact ⟨_, hraw, h.listed_eq small⟩
  · rw [← hnew p hp] at hk ⊢
    exact h.filled hk
  · rw [← hold j hj, ← hnew j hj]
    exact hout.kind j hj
  · rw [← hold j hj, ← hnew j hj]
    exact hout.lookups j hj

theorem createFile_ends (hc : fs.Consistent live d) (path : String) :
    Ends (fs.createFile path) d (fun _ d' => ∃ name p ino rs, fs.Created live d path name p ino rs d')
      (fs.CreateFailed live d) := by
  rw [← createFile_single]
  -- this is where the marks come in: what the allocator hands out is not in use
  have hspare : fs.single.EntrySpare live d path := fun _ _ _ _ _ _ => hc.owned.spare _
  refine ((createFile_outcome hc.group path hspare).mono (fun _ d' => ?_) fun e d' => ?_).ends
  · rintro ⟨name, p, ino, rs, d₁, hcreated⟩
    exact ⟨name, p, ino, rs, .of_group hc hcreated⟩
  · rintro (⟨rfl, -⟩ | ⟨name, p, rs, -, -, hfails⟩)
    · exact .inl rfl
    · cases hfails with
      | noInode => exact .inl rfl
      | noBlocks hclaimed _ hleak => exact .inr ⟨_, .of_leak hc hclaimed hleak⟩

end Ext3Fs

end RustKernel.Fs
