import RustKernel.Fs.Blocks

/-!
# RustKernel.Fs.BlockAliasing

Which blocks of a filesystem the driver cannot tell apart. A block number is multiplied by the
number of sectors of a block in 32 bits, and the address registers of the drive take 28 bits of the
product.

`sectors` are the sectors that a call on a block addresses, and `Refuses` says that the calls on a
block fail before they move data (`refuses_iff`: the first of its sectors is faulty).

## Main result

* `sectors_apart_iff`: two blocks are apart on the drive, or the calls on one of them are refused,
  exactly if their numbers differ modulo the number of blocks that 28 bits can address, or the
  first sector of one of them is faulty.
-/

namespace RustKernel.Fs

open Lib

namespace Ext3Fs

variable (fs : Ext3Fs)

/-- The sectors that `read_block` and `write_block` address for a block. -/
def sectors (b : UInt32) : Finset Nat :=
  Finset.Ico (fs.firstSector b) (fs.firstSector b + fs.blockSize / 512)

/-- The number of blocks that 28-bit sector addresses tell apart. -/
def addressable : Nat := 2 ^ 28 / (fs.blockSize / 512)

/-- The calls on a block fail without moving data: a write leaves the drive as it is, whatever it
    is given. -/
def Refuses (d : Drive) (b : UInt32) : Prop :=
  (∃ e, fs.readBlock d b = .error e) ∧
    ∀ buf, ∃ e, (fs.writeBlock b buf).exec d = (.error e, d)

variable {fs} {d : Drive} {k : Nat} {a b : UInt32} {buf : List UInt8}

/-! ### The first sector -/

/-- The turns of a write, as the first one and the others. -/
private theorem exec_write_first (lba : UInt32) (count : UInt8)
    (hbuf : count.toNat * 512 ≤ buf.length)
    (hcount : count ≠ 0) :
    (Ata.write lba count buf).exec d =
      (Ata.writeSector (Ata.address lba) (window buf 0 512) >>= fun _ =>
        (List.range' 1 (count.toNat - 1)).foldlM (fun _ i =>
          Ata.writeSector (Ata.address lba + i) (window buf (i * 512) 512)) ()).exec d := by
  have hpos : count.toNat ≠ 0 := fun h => hcount (UInt8.toNat_inj.mp h)
  obtain ⟨n, hn⟩ := Nat.exists_eq_succ_of_ne_zero hpos
  rw [Ata.write, if_neg (by simp only [hcount, false_or]; omega), hn, List.range_eq_range',
    List.range'_succ, List.foldlM_cons, Nat.succ_eq_add_one, Nat.add_sub_cancel]
  rfl

/-- A write that finds its first sector faulty has written nothing. -/
private theorem writeBlock_faulty_first (hbs : fs.blockSize = 1024 * 2 ^ k) (hk : k ≤ 6)
    (hfaulty : d.faulty (fs.firstSector b) = true) (buf : List UInt8) :
    ∃ e, (fs.writeBlock b buf).exec d = (.error e, d) := by
  refine ⟨.error "ATA write error", ?_⟩
  have hcount := sectorsPerBlock_ne hbs hk
  rw [writeBlock, Fallible.exec_adapt]
  by_cases hbuf : fs.sectorsPerBlock.toNat * 512 ≤ buf.length
  · rw [exec_write_first _ _ hbuf hcount, Fallible.exec_bind, Ata.writeSector, Fallible.exec_bind,
      Fallible.exec_reading, ← firstSector, hfaulty]
    rfl
  · rw [Ata.write, if_pos (.inr (by omega))]
    rfl

/-- A write that finds its first sector sound has written it, however it ends. -/
private theorem writeBlock_sound_first (hbs : fs.blockSize = 1024 * 2 ^ k) (hk : k ≤ 6)
    (hsound : d.faulty (fs.firstSector b) = false) (hbuf : buf.length = fs.blockSize) :
    ((fs.writeBlock b buf).exec d).2.sector (fs.firstSector b) = window buf 0 512 := by
  have hcount := sectorsPerBlock_toNat hbs hk
  have hlen : (window buf 0 512).length = 512 := by
    have hpos : 0 < 2 ^ k := Nat.two_pow_pos k
    exact length_window _ _ _ (by omega)
  rw [writeBlock, Fallible.exec_adapt]
  dsimp only
  rw [exec_write_first _ _ (by omega) (sectorsPerBlock_ne hbs hk), ← firstSector]
  refine Ends.final (E := fun (d' : Drive) => d'.sector (fs.firstSector b) = window buf 0 512) ?_
  refine Ends.bind (Q := fun _ (d' : Drive) => d'.sector (fs.firstSector b) = window buf 0 512) ?_ ?_
  · rw [Ata.writeSector]
    refine Ends.bind_read (congrArg Except.ok hsound) ?_
    refine Ends.writing ?_
    rw [Drive.sector_setSector _ _ _ _ hlen, if_pos rfl]
  · intro _ d' hwritten
    refine Ends.foldlM (fun _ _ d' => d'.sector (fs.firstSector b) = window buf 0 512) _
      _ 1 () d' ?_ hwritten
    intro i _ d' hi _ hkept
    rw [Ata.writeSector]
    refine Ends.bind_reading (fun faulty _ => ?_) fun _ _ => hkept
    split
    case isTrue => exact Ends.throw hkept
    case isFalse =>
      -- the later sectors are other ones
      refine Ends.writing ?_
      simp only [Drive.setSector]
      rw [if_neg (by omega)]
      exact hkept

/-- The calls on a block are refused exactly if its first sector is faulty. -/
theorem refuses_iff (hbs : fs.blockSize = 1024 * 2 ^ k) (hk : k ≤ 6) :
    fs.Refuses d b ↔ d.faulty (fs.firstSector b) = true := by
  have hsectors : 0 < fs.blockSize / 512 := by
    have hpos : 0 < 2 ^ k := Nat.two_pow_pos k
    omega
  constructor
  · rintro ⟨-, hwrite⟩
    by_contra hsound
    rw [Bool.not_eq_true] at hsound
    -- a block whose bytes differ from the first one of the sector would have been written
    obtain ⟨e, hexec⟩ := hwrite (List.replicate fs.blockSize
      ((d.sector (fs.firstSector b)).getD 0 0 + 1))
    have hwritten := writeBlock_sound_first (b := b) hbs hk hsound
      (List.length_replicate (n := fs.blockSize)
        (a := (d.sector (fs.firstSector b)).getD 0 0 + 1))
    rw [hexec] at hwritten
    have hfirst := congrArg (fun l => l.getD 0 0) hwritten
    obtain ⟨n, hn⟩ : ∃ n, fs.blockSize = n + 1 :=
      Nat.exists_eq_add_one.mpr (blockSize_pos hbs)
    simp [window, hn, List.replicate_succ] at hfirst
  · intro hfaulty
    refine ⟨⟨ATA_READ_ERROR, ?_⟩, writeBlock_faulty_first hbs hk hfaulty⟩
    rw [readBlock_eq_ite hbs hk, if_pos]
    exact List.any_eq_true.mpr ⟨0, List.mem_range.mpr hsectors, hfaulty⟩

/-! ### Addresses -/

/-- Two blocks have the same address exactly if their numbers agree modulo the number of blocks
    that can be addressed. -/
private theorem firstSector_eq_iff (hbs : fs.blockSize = 1024 * 2 ^ k) (hk : k ≤ 6) :
    fs.firstSector a = fs.firstSector b ↔ a.toNat % fs.addressable = b.toNat % fs.addressable := by
  have hsectors : fs.blockSize / 512 = 2 ^ (k + 1) := by
    rw [hbs, pow_succ]
    omega
  have hpow : 2 ^ 28 = fs.addressable * 2 ^ (k + 1) := by
    rw [addressable, hsectors, Nat.div_mul_cancel (pow_dvd_pow 2 (by omega))]
  rw [firstSector_eq hbs hk, firstSector_eq hbs hk, hsectors, hpow, Nat.mul_mod_mul_right,
    Nat.mul_mod_mul_right]
  exact Nat.mul_left_inj (Nat.two_pow_pos _).ne'

private theorem sectors_disjoint_iff (hbs : fs.blockSize = 1024 * 2 ^ k) (hk : k ≤ 6) :
    Disjoint (fs.sectors a) (fs.sectors b) ↔
      a.toNat % fs.addressable ≠ b.toNat % fs.addressable := by
  rw [ne_eq, ← firstSector_eq_iff hbs hk]
  constructor
  · intro hdisjoint heq
    have hpos : 0 < 2 ^ k := Nat.two_pow_pos k
    have hmem : fs.firstSector a ∈ fs.sectors a := Finset.mem_Ico.mpr ⟨le_rfl, by omega⟩
    refine Finset.disjoint_left.mp hdisjoint hmem ?_
    rw [sectors, ← heq]
    exact hmem
  · intro hne
    rw [Finset.disjoint_left]
    intro i hi hi'
    obtain ⟨hlo, hhi⟩ := Finset.mem_Ico.mp hi
    obtain ⟨hlo', hhi'⟩ := Finset.mem_Ico.mp hi'
    rcases firstSector_apart hbs hk hne with hapart | hapart
    · omega
    · omega

/-- Two blocks are apart on the drive, or the calls on one of them are refused, exactly if their
    numbers differ modulo the number of blocks that 28 bits can address, or the first sector of one
    of them is faulty. -/
theorem sectors_apart_iff (fs : Ext3Fs) (d : Drive) (a b : UInt32)
    (hbs : fs.blockSize = 1024 ∨ fs.blockSize = 2048 ∨ fs.blockSize = 4096) :
    (Disjoint (fs.sectors a) (fs.sectors b) ∨ fs.Refuses d a ∨ fs.Refuses d b) ↔
      a.toNat % fs.addressable ≠ b.toNat % fs.addressable ∨
        d.faulty (fs.firstSector a) = true ∨ d.faulty (fs.firstSector b) = true := by
  obtain ⟨k, hk, hbs⟩ : ∃ k ≤ 6, fs.blockSize = 1024 * 2 ^ k := by
    rcases hbs with hbs | hbs | hbs
    · exact ⟨0, by decide, hbs⟩
    · exact ⟨1, by decide, hbs⟩
    · exact ⟨2, by decide, hbs⟩
  rw [sectors_disjoint_iff hbs hk, refuses_iff hbs hk, refuses_iff hbs hk]

/-! ### The superblock and its alias -/

/-- A filesystem with 1 KiB blocks. -/
def smallBlocks : Ext3Fs := ⟨1024, 16, 64, 2, 1⟩

theorem superblock_apart :
    Disjoint (smallBlocks.sectors 1) (smallBlocks.sectors 2) ∨
      smallBlocks.Refuses (.ofBlocks fun _ => []) 1 ∨
        smallBlocks.Refuses (.ofBlocks fun _ => []) 2 :=
  (sectors_apart_iff smallBlocks _ 1 2 (.inl rfl)).mpr (.inl (by decide))

/-- Block `2 ^ 27 + 1` is addressed as block 1, the superblock. -/
theorem superblock_aliased :
    ¬∀ (fs : Ext3Fs) (d : Drive) (a b : UInt32),
      fs.blockSize = 1024 ∨ fs.blockSize = 2048 ∨ fs.blockSize = 4096 → a ≠ b →
        Disjoint (fs.sectors a) (fs.sectors b) ∨ fs.Refuses d a ∨ fs.Refuses d b := by
  intro h
  have hbs : smallBlocks.blockSize = 1024 * 2 ^ 0 := rfl
  rcases h smallBlocks (.ofBlocks fun _ => []) 1 134217729 (.inl rfl) (by decide) with
    hdisjoint | hrefused | hrefused
  · exact (sectors_disjoint_iff hbs (by decide)).mp hdisjoint (by decide)
  · rw [refuses_iff hbs (by decide)] at hrefused
    cases hrefused
  · rw [refuses_iff hbs (by decide)] at hrefused
    cases hrefused

end Ext3Fs

end RustKernel.Fs
