import RustKernel.Fs.InodeArray

/-!
# RustKernel.Fs.Mounting

What `mount` makes of a superblock of any content, and what the calls that follow do with the
geometry: shifts, divisions and moduli by words that nobody has checked.

## Main result

* `mountSafe_iff`: `mount` fails with a message, or arrives at a geometry with which nothing goes out
  of range, exactly if the superblock cannot be read, or its magic number is wrong, or the three
  words that it relies on are in range.
-/

namespace RustKernel.Fs

open Lib

/-! ### The superblock -/

/-- The 1024 bytes that `mount` reads. -/
def superblock (d : Drive) : List UInt8 := d.sector 2 ++ d.sector 3

/-- The fields of the superblock that `mount` reads. -/
def sbBlocksCount (d : Drive) : UInt32 := u32At (superblock d) 0x04

def sbLogBlockSize (d : Drive) : UInt32 := u32At (superblock d) 0x18

def sbBlocksPerGroup (d : Drive) : UInt32 := u32At (superblock d) 0x20

def sbInodesPerGroup (d : Drive) : UInt32 := u32At (superblock d) 0x28

def sbMagic (d : Drive) : UInt16 := u16At (superblock d) 0x38

/-- The block size that `mount` computes: the shift of a 64-bit word takes 6 bits of the count. -/
def sbBlockSize (d : Drive) : Nat := 1024 <<< ((sbLogBlockSize d).toNat % 64) % 2 ^ 64

/-- A block size that is a power of two from 1024 on, with a number of sectors that fits in 8 bits
    and is not 0, and groups that are not empty. -/
structure SafeGeometry (fs : Ext3Fs) : Prop where
  power : ∃ k, fs.blockSize = 2 ^ k
  large : 1024 ≤ fs.blockSize
  sectors : 0 < fs.blockSize / 512 ∧ fs.blockSize / 512 < 256
  blocks : fs.blocksPerGroup ≠ 0
  inodes : fs.inodesPerGroup ≠ 0

/-- `mount` fails with a message, or it returns a safe geometry, has not shifted by the width of a
    word or more, and no descriptor or inode that is read then makes the kernel divide by zero. -/
def MountSafe (d : Drive) : Prop :=
  (∃ message, mount d = .error (.error message)) ∨
    ∃ fs, mount d = .ok fs ∧ SafeGeometry fs ∧ (sbLogBlockSize d).toNat < 64 ∧
      (∀ group, fs.readBgDesc d group ≠ .error .panic) ∧
      ∀ n, fs.readInode d n ≠ .error .panic

variable {d : Drive} {fs : Ext3Fs} {k : Nat}

/-! ### Mounting -/

private theorem ataRead_superblock (d : Drive) :
    Ata.read d 2 2 1024 =
      if d.faulty 2 ∨ d.faulty 3 then .error "ATA error" else .ok (superblock d) := by
  have hany : ((List.range (2 : UInt8).toNat).any fun i => d.faulty (Ata.address 2 + i)) =
      (d.faulty 2 || (d.faulty 3 || false)) := rfl
  have hbytes : ((List.range (2 : UInt8).toNat).flatMap fun i => d.sector (Ata.address 2 + i)) =
      d.sector 2 ++ (d.sector 3 ++ []) := rfl
  rw [Ext3Fs.ataRead_eq 2 2 1024 (by decide) (by decide), hany, hbytes, List.append_nil, superblock]
  simp only [Bool.or_false, Bool.or_eq_true]

/-- The outcome of `mount`, case by case. -/
private theorem mount_eq (d : Drive) :
    mount d =
      if d.faulty 2 ∨ d.faulty 3 then .error (.error "ATA read error")
      else if sbMagic d ≠ EXT_MAGIC then .error (.error "not an ext2/3/4 filesystem")
      else if sbBlocksPerGroup d = 0 then .error .panic
      else .ok {
        blockSize := sbBlockSize d
        inodesPerGroup := sbInodesPerGroup d
        blocksPerGroup := sbBlocksPerGroup d
        bgDescTableBlock := if sbBlockSize d = 1024 then 2 else 1
        bgCount := (sbBlocksCount d + sbBlocksPerGroup d - 1) / sbBlocksPerGroup d } := by
  rw [mount, ataRead_superblock]
  split
  · rfl
  · simp only [Except.mapError, bind, Except.bind]
    rw [← sbMagic]
    split
    · rfl
    · rw [divRem, ← sbBlocksPerGroup]
      by_cases hzero : sbBlocksPerGroup d = 0
      · rw [if_pos hzero, if_pos hzero]
      · rw [if_neg hzero, if_neg hzero]
        rfl

/-- The geometry that a `mount` which returned has arrived at. -/
private theorem mount_ok (h : mount d = .ok fs) :
    sbBlocksPerGroup d ≠ 0 ∧ fs.blockSize = sbBlockSize d ∧
      fs.inodesPerGroup = sbInodesPerGroup d ∧ fs.blocksPerGroup = sbBlocksPerGroup d := by
  rw [mount_eq] at h
  split at h
  · cases h
  split at h
  · cases h
  split at h
  · cases h
  case isFalse hpos =>
    cases h
    exact ⟨hpos, rfl, rfl, rfl⟩

/-- The block sizes that `mount` arrives at: 0, or 1024 times a power of two. -/
private theorem sbBlockSize_cases (d : Drive) :
    sbBlockSize d = 0 ∧ 54 ≤ (sbLogBlockSize d).toNat % 64 ∨
      sbBlockSize d = 1024 * 2 ^ ((sbLogBlockSize d).toNat % 64) := by
  generalize hn : (sbLogBlockSize d).toNat % 64 = n
  rw [sbBlockSize, hn, Nat.shiftLeft_eq]
  by_cases hlarge : 54 ≤ n
  · -- the only bit of 1024 is shifted out
    left
    obtain ⟨j, rfl⟩ := Nat.exists_eq_add_of_le hlarge
    have hmul : 1024 * 2 ^ (54 + j) = 2 ^ 64 * 2 ^ j := by
      rw [Nat.pow_add, ← Nat.mul_assoc, show 1024 * 2 ^ 54 = 2 ^ 64 by decide]
    rw [hmul]
    exact ⟨Nat.mul_mod_right _ _, hlarge⟩
  · right
    have hle : 2 ^ n ≤ 2 ^ 53 := Nat.pow_le_pow_right (by decide) (by omega)
    exact Nat.mod_eq_of_lt (by omega)

/-! ### Descriptors and inodes -/

namespace Ext3Fs

/-- With a block size that the driver can transfer, reading a descriptor fails only where the driver
    does. -/
private theorem readBgDesc_error (hbs : fs.blockSize = 1024 * 2 ^ k) (hk : k ≤ 6) {group : UInt32}
    {e : Failure} (h : fs.readBgDesc d group = .error e) : e = ATA_READ_ERROR := by
  rw [readBgDesc_eq hbs hk] at h
  rcases readBlock_cases (d := d) hbs (fs.descriptorBlock group.toNat) with hok | ⟨-, herror⟩
  · rw [hok] at h
    cases h
  · rw [herror] at h
    exact (Except.error.inj h).symm

/-- Reading an inode of any number fails only where the driver does, if groups have inodes. -/
private theorem readInode_error (hbs : fs.blockSize = 1024 * 2 ^ k) (hk : k ≤ 6)
    (hinodes : fs.inodesPerGroup ≠ 0) {n : UInt32} {e : Failure}
    (h : fs.readInode d n = .error e) : e = ATA_READ_ERROR := by
  -- no other divisor comes from the disk
  rw [readInode, inodeSlot, divRem, if_neg hinodes] at h
  simp only [bind, Except.bind] at h
  cases hdesc : fs.readBgDesc d ((n - 1) / fs.inodesPerGroup) with
  | error e' =>
    rw [hdesc] at h
    obtain rfl := Except.error.inj h
    exact readBgDesc_error hbs hk hdesc
  | ok bg =>
    obtain ⟨q, r, hslot, -, -⟩ := divRem_ofNat ((n - 1) % fs.inodesPerGroup)
      (perBlock_pos hbs).2 (perBlock_lt hbs hk).2
    rw [inodesPerBlock] at hslot
    rw [hdesc] at h
    simp only [hslot, pure, Except.pure] at h
    rcases readBlock_cases (d := d) hbs (bg.inodeTable + q) with hok | ⟨-, herror⟩
    · rw [hok] at h
      cases h
    · rw [herror] at h
      exact (Except.error.inj h).symm

end Ext3Fs

/-! ### Safe superblocks -/

/-- A safe geometry has a block size of at most 64 KiB. -/
private theorem logBlockSize_le (hlog : (sbLogBlockSize d).toNat < 64)
    (hlarge : 1024 ≤ sbBlockSize d)
    (hsectors : sbBlockSize d / 512 < 256) : (sbLogBlockSize d).toNat ≤ 6 := by
  rcases sbBlockSize_cases d with ⟨hzero, -⟩ | hpower
  · omega
  rw [Nat.mod_eq_of_lt hlog] at hpower
  by_contra hgt
  have hle : 2 ^ 7 ≤ 2 ^ (sbLogBlockSize d).toNat := Nat.pow_le_pow_right (by decide) (by omega)
  omega

private theorem sbBlockSize_of_le (hlog : (sbLogBlockSize d).toNat ≤ 6) :
    sbBlockSize d = 1024 * 2 ^ (sbLogBlockSize d).toNat := by
  have hmod : (sbLogBlockSize d).toNat % 64 = (sbLogBlockSize d).toNat :=
    Nat.mod_eq_of_lt (by omega)
  rcases sbBlockSize_cases d with ⟨-, hlarge⟩ | hpower
  · omega
  · rw [hpower, hmod]

/-- The geometry is safe if the three words are in range. -/
private theorem mountSafe_of_words (hlog : (sbLogBlockSize d).toNat ≤ 6)
    (hblocks : sbBlocksPerGroup d ≠ 0)
    (hinodes : sbInodesPerGroup d ≠ 0) (h : mount d = .ok fs) :
    SafeGeometry fs ∧ (∀ group, fs.readBgDesc d group ≠ .error .panic) ∧
      ∀ n, fs.readInode d n ≠ .error .panic := by
  obtain ⟨-, hsize, hipg, hbpg⟩ := mount_ok h
  have hbs : fs.blockSize = 1024 * 2 ^ (sbLogBlockSize d).toNat := by
    rw [hsize, sbBlockSize_of_le hlog]
  have hle : 2 ^ (sbLogBlockSize d).toNat ≤ 2 ^ 6 := Nat.pow_le_pow_right (by decide) hlog
  have hpos : 0 < 2 ^ (sbLogBlockSize d).toNat := Nat.two_pow_pos _
  refine ⟨⟨⟨10 + (sbLogBlockSize d).toNat, ?_⟩, by omega, by omega, ?_, ?_⟩, ?_, ?_⟩
  · rw [hbs, Nat.pow_add]
  · rwa [hbpg]
  · rwa [hipg]
  · intro group hpanic
    cases Ext3Fs.readBgDesc_error hbs hlog hpanic
  · intro n hpanic
    cases Ext3Fs.readInode_error hbs hlog (by rwa [hipg]) hpanic

/-- `mount` fails with a message, or arrives at a safe geometry, exactly if the superblock cannot be
    read, or its magic number is wrong, or the three words are in range. -/
theorem mountSafe_iff (d : Drive) :
    MountSafe d ↔ (d.faulty 2 ∨ d.faulty 3) ∨ sbMagic d ≠ EXT_MAGIC ∨
      (sbLogBlockSize d).toNat ≤ 6 ∧ sbBlocksPerGroup d ≠ 0 ∧ sbInodesPerGroup d ≠ 0 := by
  have hmount := mount_eq d
  constructor
  · rintro (⟨message, herror⟩ | ⟨fs, hok, hsafe, hlog, -, -⟩)
    · -- the only errors with a message are those of the driver and of the magic number
      by_contra hcondition
      obtain ⟨hread, hrest⟩ := not_or.mp hcondition
      obtain ⟨hmagic, -⟩ := not_or.mp hrest
      rw [if_neg hread, if_neg hmagic, herror] at hmount
      split at hmount
      · cases hmount
      · cases hmount
    · -- what makes the geometry safe is read back from its fields
      obtain ⟨hblocks, hsize, hipg, -⟩ := mount_ok hok
      have hlarge := hsafe.large
      have hsectors := hsafe.sectors.2
      have hinodes := hsafe.inodes
      rw [hsize] at hlarge hsectors
      rw [hipg] at hinodes
      exact .inr (.inr ⟨logBlockSize_le hlog hlarge hsectors, hblocks, hinodes⟩)
  · -- the conditions in the order in which `mount` comes to them
    intro hcondition
    by_cases hread : d.faulty 2 ∨ d.faulty 3
    · rw [if_pos hread] at hmount
      exact .inl ⟨_, hmount⟩
    by_cases hmagic : sbMagic d ≠ EXT_MAGIC
    · rw [if_neg hread, if_pos hmagic] at hmount
      exact .inl ⟨_, hmount⟩
    obtain ⟨hlog, hblocks, hinodes⟩ := (hcondition.resolve_left hread).resolve_left hmagic
    rw [if_neg hread, if_neg hmagic, if_neg hblocks] at hmount
    obtain ⟨hsafe, hdesc, hinode⟩ := mountSafe_of_words hlog hblocks hinodes hmount
    exact .inr ⟨_, hmount, hsafe, by omega, hdesc, hinode⟩

/-! ### Superblocks that are not safe -/

/-- A superblock with the right magic number and nothing else. -/
def emptySuperblock : Drive := .ofBlocks fun b =>
  if b = 1 then List.replicate 0x38 0 ++ [0x53, 0xEF] else []

/-- Groups of no blocks: `mount` divides by zero. -/
theorem emptySuperblock_panics : ¬∀ d : Drive, MountSafe d := by
  intro h
  have hpanic : mount emptySuperblock = .error .panic := by rfl
  rcases h emptySuperblock with ⟨message, herror⟩ | ⟨fs, hok, -⟩
  · rw [hpanic] at herror
    cases herror
  · rw [hpanic] at hok
    cases hok

end RustKernel.Fs
