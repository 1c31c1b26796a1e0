import RustKernel.Fs.Blocks

/-!
# RustKernel.Fs.BlockMap

Reading a file through its block map, for every block size that `mount` can arrive at.

`Ext3Fs.mapped` says which disk block holds block `idx` of a file, 0 where none does: a pointer, or
an entry of the single indirect block, may be missing. `Ext3Fs.contents` are the bytes that this map
gives.

## Main result

* `readFileInode_contents_iff`: where no sector fails, `read_file_inode` returns those bytes exactly
  if the file does not need an indirect block that is missing.

## Proof strategy

A block read gives the bytes of the block or the driver's error (`readBlock_cases`), so one turn of
the loop gives the bytes of its window of the contents or that error (`readFileBlock_cases`). The
windows make up the contents.
-/

namespace RustKernel.Fs

open Lib

/-! ### The bytes that the block map gives -/

namespace Ext3Fs

variable (fs : Ext3Fs) (d : Drive) (inode : Inode)

/-- The disk block that holds block `idx` of the file, 0 if none does. -/
def mapped (idx : Nat) : UInt32 :=
  if idx < 12 then inode.pointer idx
  else if inode.pointer INDIRECT_BLOCK = 0 then 0
  else u32At (fs.diskBlock d (inode.pointer INDIRECT_BLOCK)) ((idx - 12) * 4)

/-- Byte `i` of the file. -/
def mappedByte (i : Nat) : UInt8 :=
  if fs.mapped d inode (i / fs.blockSize) = 0 then 0
  else (fs.diskBlock d (fs.mapped d inode (i / fs.blockSize))).getD (i % fs.blockSize) 0

def contents : List UInt8 := (List.range inode.size.toNat).map (fs.mappedByte d inode)

/-! ### Reading the file -/

section Read

variable {fs d inode} {k idx : Nat}

/-- A block lookup gives what the map says, or the driver's error. -/
private theorem inodeBlock_cases (hbs : fs.blockSize = 1024 * 2 ^ k)
    (hroom : idx < 12 + fs.blockSize / 4)
    (hlist : 12 ≤ idx → inode.pointer INDIRECT_BLOCK ≠ 0) :
    fs.inodeBlock d inode idx = .ok (fs.mapped d inode idx) ∨
      fs.inodeBlock d inode idx = .error ATA_READ_ERROR := by
  rw [inodeBlock, mapped]
  by_cases hdirect : idx < 12
  · left
    rw [if_pos hdirect, if_pos hdirect]
    rfl
  · have hne := hlist (by omega)
    rw [if_neg hdirect, if_neg hdirect, if_pos hroom, if_neg hne, if_neg hne]
    rcases readBlock_cases (d := d) hbs (inode.pointer INDIRECT_BLOCK) with hok | ⟨-, herror⟩
    · left
      rw [hok]
      rfl
    · right
      rw [herror]
      rfl

/-- The bytes of the file that lie in block `idx`. -/
private theorem window_contents (hbs : fs.blockSize = 1024 * 2 ^ k) (idx : Nat) :
    window (fs.contents d inode) (idx * fs.blockSize) fs.blockSize =
      if fs.mapped d inode idx = 0 then
        List.replicate (min (inode.size.toNat - idx * fs.blockSize) fs.blockSize) 0
      else (fs.diskBlock d (fs.mapped d inode idx)).take
        (min (inode.size.toNat - idx * fs.blockSize) fs.blockSize) := by
  have hlen := length_diskBlock (d := d) hbs (fs.mapped d inode idx)
  refine List.ext_getElem ?_ fun j hj _ => ?_
  · split <;> simp [window, contents, hlen] <;> omega
  · have hin : j < fs.blockSize := by
      simp only [window, List.length_take] at hj
      omega
    have hdiv : (idx * fs.blockSize + j) / fs.blockSize = idx := by
      rw [Nat.mul_comm, Nat.mul_add_div (by omega), Nat.div_eq_of_lt hin, Nat.add_zero]
    have hmod : (idx * fs.blockSize + j) % fs.blockSize = j := by
      rw [Nat.mul_comm, Nat.mul_add_mod, Nat.mod_eq_of_lt hin]
    simp only [window, contents, List.getElem_take, List.getElem_drop, List.getElem_map,
      List.getElem_range, mappedByte, hdiv, hmod]
    split
    case isTrue => simp
    case isFalse => simp [hlen, hin]

/-- One turn of the loop gives its bytes of the file, or the driver's error. -/
theorem readFileBlock_cases (hbs : fs.blockSize = 1024 * 2 ^ k)
    (hroom : idx < 12 + fs.blockSize / 4)
    (hlist : 12 ≤ idx → inode.pointer INDIRECT_BLOCK ≠ 0) :
    fs.readFileBlock d inode idx =
        .ok (window (fs.contents d inode) (idx * fs.blockSize) fs.blockSize) ∨
      fs.readFileBlock d inode idx = .error ATA_READ_ERROR := by
  rw [readFileBlock, window_contents hbs]
  rcases inodeBlock_cases (d := d) hbs hroom hlist with hok | herror
  · rw [hok]
    simp only [bind, Except.bind]
    by_cases hhole : fs.mapped d inode idx = 0
    · left
      rw [if_pos hhole, if_pos hhole]
      rfl
    · rw [if_neg hhole, if_neg hhole]
      rcases readBlock_cases (d := d) hbs (fs.mapped d inode idx) with hread | ⟨-, hread⟩
      · left
        rw [hread]
        rfl
      · right
        rw [hread]
  · right
    rw [herror]
    rfl

/-- A file that needs an indirect block it does not have is not read. -/
private theorem readFileInode_hole (hbs : fs.blockSize = 1024 * 2 ^ k)
    (hsize : 12 * fs.blockSize < inode.size.toNat) (hhole : inode.pointer INDIRECT_BLOCK = 0)
    (bytes : List UInt8) : fs.readFileInode d inode ≠ .ok bytes := by
  intro hread
  have hpos := blockSize_pos hbs
  have htwelve : 12 < (inode.size.toNat + fs.blockSize - 1) / fs.blockSize := by
    rw [Nat.lt_div_iff_mul_lt hpos]
    omega
  -- the loop reaches the first block behind the direct ones
  rw [readFileInode] at hread
  rcases hmap : (List.range ((inode.size.toNat + fs.blockSize - 1) / fs.blockSize)).mapM
    (fs.readFileBlock d inode) with e | chunks
  · rw [hmap] at hread
    cases hread
  have hturns := (mapM_ok_iff _ _ _).mp hmap
  have hlen := hturns.length_eq
  rw [List.length_range] at hlen
  have hturn := hturns.get (i := 12) (by rwa [List.length_range]) (by omega)
  simp only [List.get_eq_getElem, List.getElem_range] at hturn
  rw [readFileBlock, inodeBlock, if_neg (by decide), if_pos (by omega), if_pos hhole] at hturn
  cases hturn

private theorem length_contents : (fs.contents d inode).length = inode.size.toNat := by
  rw [contents, List.length_map, List.length_range]

/-- A file that has the indirect block it needs is read, unless the driver fails. -/
private theorem readFileInode_cases (hbs : fs.blockSize = 1024 * 2 ^ k)
    (hsize : inode.size.toNat ≤ (12 + fs.blockSize / 4) * fs.blockSize)
    (hlist : 12 * fs.blockSize < inode.size.toNat → inode.pointer INDIRECT_BLOCK ≠ 0) :
    fs.readFileInode d inode = .ok (fs.contents d inode) ∨
      fs.readFileInode d inode = .error ATA_READ_ERROR := by
  have hpos := blockSize_pos hbs
  have hturns : ∀ idx ∈ List.range ((inode.size.toNat + fs.blockSize - 1) / fs.blockSize),
      fs.readFileBlock d inode idx =
          .ok (window (fs.contents d inode) (idx * fs.blockSize) fs.blockSize) ∨
        fs.readFileBlock d inode idx = .error ATA_READ_ERROR := by
    intro idx hidx
    -- each turn begins within the file
    have hlt : idx * fs.blockSize < inode.size.toNat := by
      have hmul := (Nat.lt_div_iff_mul_lt hpos).mp (List.mem_range.mp hidx)
      omega
    refine readFileBlock_cases hbs ?_ fun htwelve => hlist ?_
    · exact Nat.lt_of_mul_lt_mul_right (hlt.trans_le hsize)
    · exact (Nat.mul_le_mul_right _ htwelve).trans_lt hlt
  rw [readFileInode]
  rcases mapM_ok_or_error hturns with hok | herror
  · left
    -- the windows are read in order and cover the contents
    have hcover : (fs.contents d inode).length ≤
        (inode.size.toNat + fs.blockSize - 1) / fs.blockSize * fs.blockSize := by
      have hlt := Nat.lt_div_mul_add (a := inode.size.toNat + fs.blockSize - 1) hpos
      rw [length_contents]
      omega
    rw [hok]
    simp only [bind, Except.bind, pure, Except.pure]
    rw [← List.flatMap_def, flatMap_window, List.take_of_length_le hcover]
  · right
    rw [herror]
    rfl

end Read

/-- Reading follows the block map: where the driver does not fail, `read_file_inode` returns the
    bytes that the map gives, exactly if the file does not need an indirect block it has not. -/
theorem readFileInode_contents_iff (fs : Ext3Fs) (d : Drive) (inode : Inode) (k : Nat)
    (hbs : fs.blockSize = 1024 * 2 ^ k)
    (hsize : inode.size.toNat ≤ (12 + fs.blockSize / 4) * fs.blockSize)
    (hread : fs.readFileInode d inode ≠ .error ATA_READ_ERROR) :
    fs.readFileInode d inode = .ok (fs.contents d inode) ↔
      ¬(12 * fs.blockSize < inode.size.toNat ∧ inode.pointer INDIRECT_BLOCK = 0) := by
  constructor
  · rintro hok ⟨hlong, hhole⟩
    exact readFileInode_hole hbs hlong hhole _ hok
  · intro hlist
    rcases readFileInode_cases (d := d) hbs hsize fun hlong hhole => hlist ⟨hlong, hhole⟩ with
      hok | herror
    · exact hok
    · exact absurd herror hread

/-! ### A file with a hole -/

/-- A filesystem of 1 KiB blocks whose block 5 holds the bytes of `text`. -/
def textDrive (text : String) : Drive :=
  Drive.ofBlocks fun b => if b = 5 then asBytes text else []

def smallFs : Ext3Fs := ⟨1024, 16, 64, 2, 1⟩

/-- A file of 1030 bytes: its first block is a hole, the second one is block 5. -/
def holedFile : Inode := { emptyFile with size := 1030 }.setPointer 1 5

theorem holed_file_read :
    smallFs.readFileInode (textDrive "kernel") holedFile =
      .ok (smallFs.contents (textDrive "kernel") holedFile) :=
  (readFileInode_contents_iff smallFs (textDrive "kernel") holedFile 0 rfl (by decide)
    (by intro h; cases h)).mpr (by decide)

/-- A file of 12289 bytes that has no block, and no indirect block either. -/
def sparseFile : Inode := { emptyFile with size := 12289 }

/-- It consists of zeros, but `read_file_inode` takes its last block for an error. -/
theorem sparse_file_not_read :
    ¬∀ (fs : Ext3Fs) (d : Drive) (inode : Inode) (k : Nat), fs.blockSize = 1024 * 2 ^ k →
      inode.size.toNat ≤ (12 + fs.blockSize / 4) * fs.blockSize →
      fs.readFileInode d inode ≠ .error ATA_READ_ERROR →
      fs.readFileInode d inode = .ok (fs.contents d inode) := by
  intro h
  have hhole : smallFs.readFileInode (textDrive "kernel") sparseFile =
      .error (.error "hole in file") := rfl
  have hok := h smallFs (textDrive "kernel") sparseFile 0 rfl (by decide) (by
    rw [hhole, ATA_READ_ERROR]
    simp)
  rw [hhole] at hok
  cases hok

end Ext3Fs

end RustKernel.Fs
