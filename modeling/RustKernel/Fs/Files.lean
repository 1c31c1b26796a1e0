import RustKernel.Fs.Volume

/-!
# RustKernel.Fs.Files

The blocks a file refers to, and reading the file's contents.

`refs` lists the blocks of an inode: what its 15 pointers lead to, the blocks of the pointer trees
included. A file is `Sound` when it refers to no block twice and all its blocks are marked used.

## Main results

- `nodup_setPointer`, `mem_refs_setPointer`: what setting a direct pointer does to the references
- `readFileInode_congr`: the contents of a file depend on the blocks it refers to
- `length_readFileInode`: the contents are as long as the size says
-/

namespace RustKernel.Fs

open Lib

namespace Ext3Fs

variable {fs : Ext3Fs}

/-! ### The blocks of a file -/

variable (fs) in
/-- The block pointers of an indirect block. -/
def blockPointers (buf : List UInt8) : List UInt32 :=
  (List.range (fs.blockSize / 4)).map fun k => u32At buf (k * 4)

variable (fs) in
/-- The blocks of a pointer tree with `depth` levels of indirection; 0 is no block. -/
def treeBlocks (d : Drive) : Nat → UInt32 → List UInt32
  | 0, b => if b = 0 then [] else [b]
  | depth + 1, b =>
    if b = 0 then [] else b :: (fs.blockPointers (fs.block d b)).flatMap (treeBlocks d depth)

variable (fs) in
/-- The blocks under pointer `i`: pointers 12, 13 and 14 are indirect. -/
def pointerBlocks (d : Drive) (inode : Inode) (i : Nat) : List UInt32 :=
  fs.treeBlocks d (i - 11) (inode.pointer i)

variable (fs) in
/-- The blocks an inode refers to. -/
def refs (d : Drive) (inode : Inode) : List UInt32 :=
  (List.range 15).flatMap (fs.pointerBlocks d inode)

section Refs

variable {d d' : Drive} {inode : Inode} {b c : UInt32} {i : Nat}

theorem mem_refs : b ∈ fs.refs d inode ↔ ∃ i < 15, b ∈ fs.pointerBlocks d inode i := by
  simp [refs, List.mem_flatMap]

private theorem treeBlocks_congr (depth : Nat) (b : UInt32)
    (h : ∀ c ∈ fs.treeBlocks d depth b, fs.block d' c = fs.block d c) :
    fs.treeBlocks d' depth b = fs.treeBlocks d depth b := by
  induction depth generalizing b with
  | zero => rfl
  | succ depth ih =>
    by_cases hb : b = 0
    · simp [treeBlocks, hb]
    · simp only [treeBlocks, if_neg hb] at h ⊢
      rw [h b List.mem_cons_self]
      congr 1
      refine List.flatMap_congr fun p hp => ih p fun c hc => h c ?_
      exact List.mem_cons_of_mem _ (List.mem_flatMap.mpr ⟨p, hp, hc⟩)

private theorem zero_notMem_treeBlocks (depth : Nat) (b : UInt32) :
    0 ∉ fs.treeBlocks d depth b := by
  induction depth generalizing b with
  | zero =>
    rw [treeBlocks]
    split
    · simp
    · simp [eq_comm, *]
  | succ depth ih =>
    rw [treeBlocks]
    split
    · simp
    · simp [List.mem_flatMap, eq_comm, *]

theorem zero_notMem_refs : 0 ∉ fs.refs d inode := by
  rw [mem_refs]
  rintro ⟨i, -, hi⟩
  exact zero_notMem_treeBlocks _ _ hi

/-- A direct pointer leads to one block, whatever the drive holds. -/
theorem mem_pointerBlocks_direct (hi : i < 12) :
    b ∈ fs.pointerBlocks d inode i ↔ b ≠ 0 ∧ b = inode.pointer i := by
  rw [pointerBlocks, show i - 11 = 0 by omega, treeBlocks]
  split
  case isTrue h =>
    rw [h]
    simp
  case isFalse h =>
    rw [List.mem_singleton]
    exact ⟨fun hb => ⟨hb ▸ h, hb⟩, And.right⟩

theorem pointer_mem_refs (hi : i < 15) (h : inode.pointer i ≠ 0) :
    inode.pointer i ∈ fs.refs d inode := by
  refine mem_refs.mpr ⟨i, hi, ?_⟩
  rw [pointerBlocks]
  generalize i - 11 = depth
  cases depth <;> simp [treeBlocks, h]

/-- Only the blocks of the pointer trees decide which blocks are referred to. -/
theorem refs_congr_trees
    (h : ∀ i, 12 ≤ i → i < 15 → ∀ c ∈ fs.pointerBlocks d inode i, fs.block d' c = fs.block d c) :
    fs.refs d' inode = fs.refs d inode := by
  refine List.flatMap_congr fun i hi => ?_
  by_cases hdirect : i < 12
  · rw [pointerBlocks, pointerBlocks, show i - 11 = 0 by omega]
    rfl
  · exact treeBlocks_congr _ _ (h i (by omega) (List.mem_range.mp hi))

theorem refs_congr (h : ∀ c ∈ fs.refs d inode, fs.block d' c = fs.block d c) :
    fs.refs d' inode = fs.refs d inode :=
  refs_congr_trees fun i _ hi c hc => h c (mem_refs.mpr ⟨i, hi, hc⟩)

/-- No block is referred to twice: not within one pointer, nor by two. -/
theorem nodup_refs_iff :
    (fs.refs d inode).Nodup ↔
      (∀ i < 15, (fs.pointerBlocks d inode i).Nodup) ∧
      ∀ i < 15, ∀ j < 15, i ≠ j →
        (fs.pointerBlocks d inode i).Disjoint (fs.pointerBlocks d inode j) := by
  rw [refs, List.nodup_flatMap]
  simp only [List.mem_range]
  refine and_congr_right fun _ => ⟨fun h i hi j hj hij => ?_, fun h => ?_⟩
  · have : Std.Symm (Function.onFun List.Disjoint (fs.pointerBlocks d inode)) :=
      ⟨fun _ _ hd => List.Disjoint.symm hd⟩
    exact h.forall (List.mem_range.mpr hi) (List.mem_range.mpr hj) hij
  · exact List.nodup_range.pairwise_of_forall_ne fun i hi j hj hij =>
      h i (List.mem_range.mp hi) j (List.mem_range.mp hj) hij

/-! ### Setting a direct pointer -/

theorem pointer_setPointer (hi : i < 15) (j : Nat) :
    (inode.setPointer i b).pointer j = if i = j then b else inode.pointer j := by
  simp only [Inode.pointer, Inode.setPointer, Vector.getElem?_setIfInBounds]
  split <;> simp_all

private theorem pointerBlocks_setPointer_ne (hi : i < 15) {j : Nat} (hij : i ≠ j) :
    fs.pointerBlocks d (inode.setPointer i b) j = fs.pointerBlocks d inode j := by
  rw [pointerBlocks, pointerBlocks, pointer_setPointer hi, if_neg hij]

theorem mem_refs_setPointer (hi : i < 12) :
    c ∈ fs.refs d (inode.setPointer i b) ↔
      (c ≠ 0 ∧ c = b) ∨ ∃ j < 15, i ≠ j ∧ c ∈ fs.pointerBlocks d inode j := by
  rw [mem_refs]
  constructor
  · rintro ⟨j, hj, hc⟩
    by_cases hij : i = j
    · subst hij
      rw [mem_pointerBlocks_direct hi, pointer_setPointer hj, if_pos rfl] at hc
      exact .inl hc
    · rw [pointerBlocks_setPointer_ne (by omega) hij] at hc
      exact .inr ⟨j, hj, hij, hc⟩
  · rintro (hc | ⟨j, hj, hij, hc⟩)
    · refine ⟨i, by omega, ?_⟩
      rwa [mem_pointerBlocks_direct hi, pointer_setPointer (by omega), if_pos rfl]
    · exact ⟨j, hj, by rwa [pointerBlocks_setPointer_ne (by omega) hij]⟩

theorem nodup_setPointer (hi : i < 12) (h : (fs.refs d inode).Nodup) (hb : b ∉ fs.refs d inode) :
    (fs.refs d (inode.setPointer i b)).Nodup := by
  obtain ⟨hone, htwo⟩ := nodup_refs_iff.mp h
  -- the new block of pointer `i` is in no other pointer's blocks
  have hnew : ∀ j < 15, i ≠ j → (fs.pointerBlocks d (inode.setPointer i b) i).Disjoint
      (fs.pointerBlocks d inode j) := by
    intro j hj hij c hc hc'
    rw [mem_pointerBlocks_direct hi, pointer_setPointer (by omega), if_pos rfl] at hc
    exact hb (hc.2 ▸ mem_refs.mpr ⟨j, hj, hc'⟩)
  refine nodup_refs_iff.mpr ⟨fun j hj => ?_, fun j hj k hk hjk => ?_⟩
  · by_cases hij : i = j
    · rw [← hij, pointerBlocks, show i - 11 = 0 by omega, treeBlocks]
      split <;> simp
    · rw [pointerBlocks_setPointer_ne (by omega) hij]
      exact hone j hj
  · by_cases hij : i = j
    · subst hij
      rw [pointerBlocks_setPointer_ne (by omega) hjk]
      exact hnew k hk hjk
    · rw [pointerBlocks_setPointer_ne (by omega) hij]
      by_cases hik : i = k
      · subst hik
        exact (hnew j hj hij).symm
      · rw [pointerBlocks_setPointer_ne (by omega) hik]
        exact htwo j hj k hk hjk

/-- Clearing a pointer takes its block out of the references. -/
theorem mem_refs_clearPointer (hi : i < 12) (h : c ∈ fs.refs d (inode.setPointer i 0)) :
    c ∈ fs.refs d inode := by
  rcases (mem_refs_setPointer hi).mp h with ⟨hne, h0⟩ | ⟨j, hj, -, hc⟩
  · exact absurd h0 hne
  · exact mem_refs.mpr ⟨j, hj, hc⟩

end Refs

variable {d d' : Drive} {inode : Inode}

/-! ### Reading -/

/-- A block that `inode_block` resolves is one the inode refers to. -/
private theorem inodeBlock_mem {k : Nat} {b : UInt32} (h : fs.Sized) (hd : d.Healthy)
    (hlt : ∀ c ∈ fs.refs d inode, fs.Reached c) (hb : fs.inodeBlock d inode k = .ok b)
    (hne : b ≠ 0) : b ∈ fs.refs d inode := by
  rw [inodeBlock] at hb
  split at hb
  case isTrue hk =>
    obtain rfl := Except.ok.inj hb
    exact pointer_mem_refs (by omega) hne
  case isFalse hk =>
    split at hb
    case isFalse => cases hb
    case isTrue hlim =>
      by_cases hzero : inode.pointer INDIRECT_BLOCK = 0
      · simp only [if_pos hzero] at hb
        cases hb
      -- past the direct pointers the number is read from the indirect block
      have hroot : inode.pointer INDIRECT_BLOCK ∈ fs.refs d inode :=
        pointer_mem_refs (by decide) hzero
      simp only [if_neg hzero, readBlock_eq h hd (hlt _ hroot), bind, Except.bind] at hb
      obtain rfl := Except.ok.inj hb
      refine mem_refs.mpr ⟨12, by decide, ?_⟩
      simp only [pointerBlocks, treeBlocks, INDIRECT_BLOCK] at hzero hne ⊢
      rw [if_neg hzero]
      refine List.mem_cons_of_mem _ (List.mem_flatMap.mpr ⟨_, List.mem_map.mpr
        ⟨k - 12, List.mem_range.mpr (by omega), rfl⟩, ?_⟩)
      rw [if_neg hne]
      exact List.mem_singleton_self _

/-- The contents of a file depend on the blocks it refers to. -/
theorem readFileInode_congr (h : fs.Sized) (hd : d.Healthy) (hd' : d'.Healthy)
    (hlt : ∀ c ∈ fs.refs d inode, fs.Reached c)
    (hsame : ∀ c ∈ fs.refs d inode, fs.block d' c = fs.block d c) :
    fs.readFileInode d' inode = fs.readFileInode d inode := by
  have hread : ∀ c ∈ fs.refs d inode, fs.readBlock d' c = fs.readBlock d c := by
    intro c hc
    rw [readBlock_eq h hd (hlt c hc), readBlock_eq h hd' (hlt c hc), hsame c hc]
  have hblock : ∀ k, fs.inodeBlock d' inode k = fs.inodeBlock d inode k := by
    intro k
    by_cases hzero : inode.pointer INDIRECT_BLOCK = 0
    · simp only [inodeBlock, if_pos hzero]
      rfl
    · simp only [inodeBlock, hread _ (pointer_mem_refs (by decide) hzero)]
  have hchunk : fs.readFileBlock d' inode = fs.readFileBlock d inode := by
    funext k
    rw [readFileBlock, readFileBlock, hblock k]
    rcases hb : fs.inodeBlock d inode k with e | b
    · rfl
    by_cases hzero : b = 0
    · simp only [bind, Except.bind, if_pos hzero]
    · simp only [bind, Except.bind, hread b (inodeBlock_mem h hd hlt hb hzero)]
  rw [readFileInode, readFileInode, hchunk]

/-- The contents are as long as the size says. -/
theorem length_readFileInode {data : List UInt8} (h : fs.Sized)
    (hread : fs.readFileInode d inode = .ok data) : data.length = inode.size.toNat := by
  set zeros : List UInt8 := List.replicate inode.size.toNat 0
  have hzeros : zeros.length = inode.size.toNat := List.length_replicate
  -- turn `k` returns as many bytes as there are in window `k` of a string of that size
  have hturn : ∀ k buf, fs.readFileBlock d inode k = .ok buf →
      buf.length = (window zeros (k * fs.blockSize) fs.blockSize).length := by
    intro k buf hbuf
    have hwin : (window zeros (k * fs.blockSize) fs.blockSize).length =
        min (inode.size.toNat - k * fs.blockSize) fs.blockSize := by
      rw [window, List.length_take, List.length_drop, hzeros, min_comm]
    rw [hwin]
    rw [readFileBlock] at hbuf
    rcases hblk : fs.inodeBlock d inode k with e | b
    · rw [hblk] at hbuf
      cases hbuf
    simp only [hblk, bind, Except.bind, readBlock] at hbuf
    split at hbuf
    · obtain rfl := Except.ok.inj hbuf
      exact List.length_replicate
    · split at hbuf
      case h_1 => cases hbuf
      case h_2 _ _ hpad =>
        split at hpad
        case h_1 => cases hpad
        case h_2 =>
          obtain rfl := Except.ok.inj hpad
          obtain rfl := Except.ok.inj hbuf
          rw [List.length_take, List.takeD_length]
          omega
  rw [readFileInode] at hread
  rcases hmap : (List.range ((inode.size.toNat + fs.blockSize - 1) / fs.blockSize)).mapM
    (fs.readFileBlock d inode) with e | chunks
  · simp only [hmap] at hread
    cases hread
  simp only [hmap] at hread
  obtain rfl := Except.ok.inj hread
  have hlens : chunks.map List.length =
      (List.range ((inode.size.toNat + fs.blockSize - 1) / fs.blockSize)).map
        fun k => (window zeros (k * fs.blockSize) fs.blockSize).length := by
    rw [← List.forall₂_eq_eq_eq, List.forall₂_map_left_iff, List.forall₂_map_right_iff]
    exact ((mapM_ok_iff _ _ _).mp hmap).flip.imp fun _ _ hbuf => hturn _ _ hbuf
  have htotal := congrArg List.length (flatMap_window zeros fs.blockSize
    ((inode.size.toNat + fs.blockSize - 1) / fs.blockSize))
  have hcover := h.le_blocks inode.size.toNat
  rw [List.length_flatMap, List.length_take, hzeros] at htotal
  rw [List.length_flatten, hlens, htotal]
  omega

/-! ### The empty file -/

theorem pointer_emptyFile (k : Nat) : emptyFile.pointer k = 0 := by
  rw [Inode.pointer, emptyFile, Vector.getElem?_replicate]
  split <;> rfl

theorem refs_emptyFile (d : Drive) : fs.refs d emptyFile = [] := by
  refine List.eq_nil_iff_forall_not_mem.mpr fun b hb => ?_
  obtain ⟨k, -, hmem⟩ := mem_refs.mp hb
  rw [pointerBlocks, pointer_emptyFile] at hmem
  cases hdepth : k - 11 <;> simp [hdepth, treeBlocks] at hmem

/-! ### Sound files -/

variable (fs) in
/-- The file refers to no block twice, and its blocks are marked used and none of the allocator's
    own. -/
structure Sound (d : Drive) (inode : Inode) : Prop where
  nodup : (fs.refs d inode).Nodup
  used : ∀ b ∈ fs.refs d inode, fs.BlockUsed d b
  apart : ∀ b ∈ fs.refs d inode, b ≠ fs.bgDescTableBlock ∧ b ≠ (fs.descriptor d).blockBitmap

theorem Sound.reached (hsized : fs.Sized) (h : fs.Sound d inode) :
    ∀ b ∈ fs.refs d inode, fs.Reached b :=
  fun b hb => (h.used b hb).reached hsized

end Ext3Fs

end RustKernel.Fs
