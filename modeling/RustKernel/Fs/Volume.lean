import RustKernel.Fs.Blocks

/-!
# RustKernel.Fs.Volume

A volume of one block group: where its bitmaps are, which blocks and inodes they mark used, and
what the allocator does to them.

`allocBlock` marks a block that was free (`allocBlock_ends`). `freeBlock b` clears the mark of the
block `b + 1`, not of `b` (`freeBlock_ends`): `alloc_block`'s caller adds one to the bit it gets,
`free_block` does not subtract it.
-/

namespace RustKernel.Fs

open Lib

namespace Ext3Fs

variable (fs : Ext3Fs)

/-- The descriptor of the block group. -/
def descriptor (d : Drive) : BgDescriptor := .ofBytes (fs.block d fs.bgDescTableBlock) 0

/-- The block is marked used as the allocator counts: bit `i` of the bitmap stands for block
    `i + 1`, whatever the size of the blocks. -/
def BlockUsed (d : Drive) (b : UInt32) : Prop := Used (fs.block d (fs.descriptor d).blockBitmap) b

/-- The inode is marked used: bit `i` of the bitmap stands for inode `i + 1`. -/
def InodeUsed (d : Drive) (ino : UInt32) :
    Prop := Used (fs.block d (fs.descriptor d).inodeBitmap) ino

instance (d : Drive) (b : UInt32) : Decidable (fs.BlockUsed d b) :=
  inferInstanceAs (Decidable (Used _ _))

instance (d : Drive) (ino : UInt32) : Decidable (fs.InodeUsed d ino) :=
  inferInstanceAs (Decidable (Used _ _))

/-- What reaching the block bitmap relies on: no faulty sector, and a descriptor and a block bitmap
    that 28-bit addresses reach. -/
structure Located (d : Drive) : Prop where
  sized : fs.Sized
  healthy : d.Healthy
  descriptor_reached : fs.Reached fs.bgDescTableBlock
  bitmap_reached : fs.Reached (fs.descriptor d).blockBitmap
  bitmap_ne : (fs.descriptor d).blockBitmap ≠ fs.bgDescTableBlock

/-- What the block allocator relies on: the descriptor and the block bitmap are marked used. -/
structure Volume (d : Drive) : Prop extends fs.Located d where
  descriptor_used : fs.BlockUsed d fs.bgDescTableBlock
  bitmap_used : fs.BlockUsed d (fs.descriptor d).blockBitmap

/-- `d'` differs from `d` in the block bitmap only. -/
structure BitmapStep (d d' : Drive) : Prop where
  healthy : d'.Healthy
  others : ∀ c, c ≠ (fs.descriptor d).blockBitmap → fs.block d' c = fs.block d c

variable {fs} {d d' : Drive}

/-! ### The volume -/

theorem BlockUsed.reached {b : UInt32} (hsized : fs.Sized) (h : fs.BlockUsed d b) :
    fs.Reached b := by
  have hle := Used.le h
  rw [length_block hsized] at hle
  exact hsized.reached hle

theorem descriptor_congr (h : fs.block d' fs.bgDescTableBlock = fs.block d fs.bgDescTableBlock) :
    fs.descriptor d' = fs.descriptor d := by
  rw [descriptor, descriptor, h]

theorem Located.of_kept (h : fs.Located d) (hd' : d'.Healthy)
    (hdesc : fs.block d' fs.bgDescTableBlock = fs.block d fs.bgDescTableBlock) : fs.Located d' where
  sized := h.sized
  healthy := hd'
  descriptor_reached := h.descriptor_reached
  bitmap_reached := descriptor_congr hdesc ▸ h.bitmap_reached
  bitmap_ne := descriptor_congr hdesc ▸ h.bitmap_ne

/-- The volume is kept while its descriptor is, and what was marked used stays so. -/
theorem Volume.of_kept (h : fs.Volume d) (hd' : d'.Healthy)
    (hdesc : fs.block d' fs.bgDescTableBlock = fs.block d fs.bgDescTableBlock)
    (hkept : ∀ b, fs.BlockUsed d b → fs.BlockUsed d' b) : fs.Volume d' where
  toLocated := h.toLocated.of_kept hd' hdesc
  descriptor_used := hkept _ h.descriptor_used
  bitmap_used := by
    rw [descriptor_congr hdesc]
    exact hkept _ h.bitmap_used

theorem BitmapStep.descriptor_eq (h : fs.BitmapStep d d') (hv : fs.Located d) :
    fs.descriptor d' = fs.descriptor d :=
  descriptor_congr (h.others _ hv.bitmap_ne.symm)

theorem BitmapStep.located (h : fs.BitmapStep d d') (hv : fs.Located d) : fs.Located d' :=
  hv.of_kept h.healthy (h.others _ hv.bitmap_ne.symm)

theorem BitmapStep.refl (hd : d.Healthy) : fs.BitmapStep d d := ⟨hd, fun _ _ => rfl⟩

theorem BitmapStep.trans {d'' : Drive} (hv : fs.Located d) (h : fs.BitmapStep d d')
    (h' : fs.BitmapStep d' d'') : fs.BitmapStep d d'' where
  healthy := h'.healthy
  others := fun c hc =>
    (h'.others c (by rwa [h.descriptor_eq hv])).trans (h.others c hc)

theorem BitmapStep.volume (h : fs.BitmapStep d d') (hv : fs.Volume d)
    (hused : ∀ b, fs.BlockUsed d b → fs.BlockUsed d' b) : fs.Volume d' :=
  hv.of_kept h.healthy (h.others _ hv.bitmap_ne.symm) hused

theorem readBgDesc_zero (hv : fs.Located d) : fs.readBgDesc d 0 = .ok (fs.descriptor d) := by
  have hdiv : divRem 0 (UInt32.ofNat (fs.blockSize / BG_DESCRIPTOR_LEN)) = .ok (0, 0) := by
    rcases hv.sized with h | h | h
    · rw [h]
      decide
    · rw [h]
      decide
    · rw [h]
      decide
  rw [readBgDesc, hdiv]
  simp only [bind, Except.bind, UInt32.add_zero,
    readBlock_eq hv.sized hv.healthy hv.descriptor_reached]
  rfl

/-! ### Blocks -/

/-- A change of one bit of the block bitmap, in terms of the blocks marked used. -/
private theorem BitsChanged.blockUsed {bits : Nat → Bool} (hv : fs.Located d)
    (h : fs.BitsChanged d d' (fs.descriptor d).blockBitmap bits) :
    fs.BitmapStep d d' ∧ ∀ c, fs.BlockUsed d' c ↔ 1 ≤ c.toNat ∧ bits (c.toNat - 1) = true := by
  have hstep : fs.BitmapStep d d' := ⟨h.healthy, h.others⟩
  refine ⟨hstep, fun c => ?_⟩
  rw [BlockUsed, hstep.descriptor_eq hv, Used, h.bits]

theorem allocBlock_ends (hv : fs.Located d) :
    Ends fs.allocBlock d
      (fun n d' => fs.BitmapStep d d' ∧ ¬fs.BlockUsed d (n + 1) ∧
        ∀ c, fs.BlockUsed d' c ↔ fs.BlockUsed d c ∨ c = n + 1)
      (fun d' => d' = d) := by
  refine Ends.bind_read (readBgDesc_zero hv) ?_
  refine (bitmapAlloc_ends hv.sized hv.healthy hv.bitmap_reached _).mono ?_ fun _ h => h
  rintro n d' ⟨hn, -, hclear, hbits⟩
  obtain ⟨hstep, hused⟩ := hbits.blockUsed hv
  have hsucc : (n + 1).toNat = n.toNat + 1 := by
    have hbounds := hv.sized.bounds
    rw [UInt32.toNat_add, UInt32.toNat_one]
    omega
  refine ⟨hstep, ?_, fun c => ?_⟩
  · rw [BlockUsed, Used, hsucc, Nat.add_sub_cancel, hclear]
    simp
  · have hc : c = n + 1 ↔ 1 ≤ c.toNat ∧ n.toNat = c.toNat - 1 := by
      rw [← UInt32.toNat_inj, hsucc]
      omega
    rw [hused, BlockUsed, Used, hc, Bool.or_eq_true, decide_eq_true_eq]
    tauto

theorem freeBlock_ends (hv : fs.Located d) (b : UInt32) :
    Ends (fs.freeBlock b) d
      (fun _ d' => fs.BitmapStep d d' ∧
        ∀ c, fs.BlockUsed d' c ↔ fs.BlockUsed d c ∧ c.toNat ≠ b.toNat + 1)
      (fun d' => d' = d ∧ 8 * fs.blockSize ≤ b.toNat) := by
  refine Ends.bind_read (readBgDesc_zero hv) ?_
  refine (bitmapClear_ends hv.sized hv.healthy hv.bitmap_reached _).mono ?_ fun _ h => h
  intro _ d' hbits
  obtain ⟨hstep, hused⟩ := hbits.blockUsed hv
  refine ⟨hstep, fun c => ?_⟩
  rw [hused, BlockUsed, Used]
  simp only [Bool.and_eq_true, Bool.not_eq_true', decide_eq_false_iff_not]
  constructor
  · rintro ⟨hpos, hbit, hne⟩
    exact ⟨⟨hpos, hbit⟩, by omega⟩
  · rintro ⟨⟨hpos, hbit⟩, hne⟩
    exact ⟨hpos, hbit, by omega⟩

end Ext3Fs

end RustKernel.Fs
