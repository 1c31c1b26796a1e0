import RustKernel.Fs.Writing

/-!
# RustKernel.Fs.BlockAllocation

Which blocks `write_file_data` takes for a file, for every block size that `mount` arrives at.

Bit `i` of the block bitmap stands for block `first_data_block + i`, and `first_data_block` is 1
with 1 KiB blocks and 0 with larger ones. `write_file_data` always adds 1 to the bit it is given,
and `free_block` never subtracts anything.

## Main result

* `writeFileData_newBlocks_iff`: every block newly stored in the inode was free before the call and
  is used after it if no block is missing, or the blocks have 1 KiB, the call does not write the
  descriptor or the bitmap, and no bit that is taken has the number of a block that is freed. On a
  volume where the call keeps off these two blocks, it is so only then.

## Proof strategy

`Marks` describes the bitmap relative to the one before the call. The first loop takes the first
bits that are free, one for each missing block (`Allotted`); the second one leaves the bitmap alone
where the blocks it writes are not the bitmap itself; the third one clears the bits whose numbers
are those of the excess blocks (`Cleared`).
-/

namespace RustKernel.Fs

open Lib

/-- In a sorted list, the first member that is not among the first `h` ones comes next. -/
private theorem take_succ_of_least {l : List Nat} (hsorted : l.Pairwise (· < ·)) {h i : Nat}
    (hmem : i ∈ l)
    (hnew : i ∉ l.take h) (hleast : ∀ j ∈ l, j < i → j ∈ l.take h) :
    h < l.length ∧ l.take (h + 1) = l.take h ++ [i] := by
  induction l generalizing h with
  | nil => cases hmem
  | cons a l ih =>
    obtain ⟨hhead, htail⟩ := List.pairwise_cons.mp hsorted
    cases h with
    | zero =>
      rcases List.mem_cons.mp hmem with rfl | hmem
      · exact ⟨Nat.succ_pos _, rfl⟩
      · have ha := hleast a List.mem_cons_self (hhead i hmem)
        cases ha
    | succ h =>
      rw [List.take_succ_cons, List.mem_cons, not_or] at hnew
      have hin := (List.mem_cons.mp hmem).resolve_left hnew.1
      obtain ⟨hlt, htake⟩ := ih htail hin hnew.2 fun j hj hji => by
        have hprev := hleast j (List.mem_cons_of_mem a hj) hji
        rw [List.take_succ_cons] at hprev
        exact (List.mem_cons.mp hprev).resolve_left (hhead j hj).ne'
      refine ⟨Nat.succ_lt_succ hlt, ?_⟩
      rw [List.take_succ_cons, htake, List.take_succ_cons, List.cons_append]

namespace Ext3Fs

variable (fs : Ext3Fs) (d : Drive)

/-- The block that the first bit of the block bitmap stands for. -/
def firstDataBlock : Nat := if fs.blockSize = 1024 then 1 else 0

/-- The descriptor of group 0. -/
def firstDescriptor : BgDescriptor := .ofBytes (fs.diskBlock d fs.bgDescTableBlock) 0

/-- The block bitmap of group 0. -/
def blockBitmap : List UInt8 := fs.diskBlock d (fs.firstDescriptor d).blockBitmap

/-- The bitmap marks the block free. -/
def MarkedFree (b : UInt32) : Prop :=
  fs.firstDataBlock ≤ b.toNat ∧ b.toNat - fs.firstDataBlock < 8 * fs.blockSize ∧
    bitAt (fs.blockBitmap d) (b.toNat - fs.firstDataBlock) = false

/-- The bitmap marks the block used. -/
def MarkedUsed (b : UInt32) : Prop :=
  fs.firstDataBlock ≤ b.toNat ∧ bitAt (fs.blockBitmap d) (b.toNat - fs.firstDataBlock) = true

/-- The bits that the allocator may take, in its order. -/
def freeBits : List Nat :=
  (List.range (min (8 * fs.blockSize) fs.blocksPerGroup.toNat)).filter fun i =>
    !bitAt (fs.blockBitmap d) i

/-- The number of blocks missing among the first `n` of a file. -/
def missing (inode : Inode) (n : Nat) : Nat :=
  ((List.range n).filter fun j => inode.pointer j = 0).length

/-- The block numbers that a call has newly stored in an inode. -/
def newBlocks (inode inode' : Inode) : List UInt32 :=
  ((List.range 15).filter fun j =>
    inode'.pointer j ≠ 0 ∧ inode'.pointer j ≠ inode.pointer j).map inode'.pointer

/-- The block is neither the descriptor nor the block bitmap. -/
def Outside (b : UInt32) : Prop :=
  fs.firstSector b ≠ fs.firstSector fs.bgDescTableBlock ∧
    fs.firstSector b ≠ fs.firstSector (fs.firstDescriptor d).blockBitmap

/-- The bits that the blocks missing among the first `n` get. -/
def takenBits (inode : Inode) (n : Nat) : List Nat := (fs.freeBits d).take (missing inode n)

/-- The descriptor and the block bitmap do not share a sector. -/
def BitmapApart : Prop :=
  fs.firstSector (fs.firstDescriptor d).blockBitmap ≠ fs.firstSector fs.bgDescTableBlock

/-- The descriptor and the block bitmap are apart, and neither is among the blocks that the call
    writes: the first `n` blocks of the file, and the block behind a bit that the call takes, if it
    is free. -/
structure Sited (inode : Inode) (n : Nat) : Prop where
  bitmap_apart : fs.BitmapApart d
  file : ∀ j < n, inode.pointer j ≠ 0 → fs.Outside d (inode.pointer j)
  taken : ∀ f ∈ fs.takenBits d inode n, ∀ b : UInt32, b.toNat = f + 1 → fs.MarkedFree d b →
    fs.Outside d b

variable {fs d} {d' d₀ : Drive} {inode inode₀ inode₁ : Inode} {p : Nat → Prop} {k : Nat}

private theorem length_blockBitmap (hbs : fs.blockSize = 1024 * 2 ^ k) :
    (fs.blockBitmap d).length = fs.blockSize :=
  length_diskBlock hbs _

/-- Blocks that the bitmap covers have addresses of their own. -/
private theorem firstSector_inj (h : fs.Sized) {b c : UInt32} (hb : b.toNat ≤ 8 * fs.blockSize)
    (hc : c.toNat ≤ 8 * fs.blockSize) (heq : fs.firstSector b = fs.firstSector c) : b = c := by
  obtain ⟨k, hk, hbs⟩ := h.power
  have hpos : 0 < fs.blockSize / 512 := by
    have hbounds := h.bounds
    omega
  rw [firstSector_of_reached hbs (by omega) (h.reached hb),
    firstSector_of_reached hbs (by omega) (h.reached hc)] at heq
  exact UInt32.toNat_inj.mp (Nat.eq_of_mul_eq_mul_right hpos heq)

theorem MarkedUsed.le (hbs : fs.blockSize = 1024 * 2 ^ k) {b : UInt32} (h : fs.MarkedUsed d b) :
    b.toNat ≤ 8 * fs.blockSize := by
  have hlt := bitAt_lt h.2
  have hlo := h.1
  rw [length_blockBitmap hbs] at hlt
  simp only [firstDataBlock] at hlt hlo
  split at hlt <;> omega

/-- So it is where the descriptor and the bitmap are different blocks marked used, and no blocks of
    the file. -/
private theorem Sited.of_marked (hsized : fs.Sized) (hdesc : fs.MarkedUsed d fs.bgDescTableBlock)
    (hbitmap : fs.MarkedUsed d (fs.firstDescriptor d).blockBitmap)
    (hne : (fs.firstDescriptor d).blockBitmap ≠ fs.bgDescTableBlock) {n : Nat}
    (hfile : ∀ j < n, inode.pointer j ≠ 0 → fs.Outside d (inode.pointer j)) :
    fs.Sited d inode n := by
  obtain ⟨k, hk, hbs⟩ := hsized.power
  refine ⟨fun heq => ?_, hfile, fun f _ b _ hfree => ?_⟩
  · exact hne (firstSector_inj hsized (hbitmap.le hbs) (hdesc.le hbs) heq)
  have hle : b.toNat ≤ 8 * fs.blockSize := by
    have hlo := hfree.1
    have hlt := hfree.2.1
    simp only [firstDataBlock] at hlo hlt
    split at hlt <;> omega
  -- a block marked free is no block marked used
  have hother : ∀ c, fs.MarkedUsed d c → fs.firstSector b ≠ fs.firstSector c := by
    intro c hc heq
    have hsame := firstSector_inj hsized hle (hc.le hbs) heq
    have hset := hc.2
    rw [← hsame, hfree.2.2] at hset
    cases hset
  exact ⟨hother _ hdesc, hother _ hbitmap⟩

/-! ### The bitmap operations -/

private theorem readBgDesc_zero_ok (hbs : fs.blockSize = 1024 * 2 ^ k) {bg : BgDescriptor}
    (h : fs.readBgDesc d 0 = .ok bg) : bg = fs.firstDescriptor d := by
  rw [readBgDesc] at h
  by_cases hzero : UInt32.ofNat (fs.blockSize / BG_DESCRIPTOR_LEN) = 0
  · rw [divRem, if_pos hzero] at h
    cases h
  rw [divRem, if_neg hzero] at h
  simp only [bind, Except.bind, UInt32.zero_div, UInt32.zero_mod, UInt32.add_zero] at h
  rcases hread : fs.readBlock d fs.bgDescTableBlock with e | buf
  · rw [hread] at h
    cases h
  · rw [hread] at h
    obtain rfl := readBlock_ok hbs hread
    exact (Except.ok.inj h).symm

variable (fs) in
/-- The descriptor is that of `d₀`, and the bits of the bitmap are those of `p`. -/
structure Marks (d₀ : Drive) (p : Nat → Prop) (d : Drive) : Prop where
  descriptor : fs.diskBlock d fs.bgDescTableBlock = fs.diskBlock d₀ fs.bgDescTableBlock
  bits : ∀ i, bitAt (fs.blockBitmap d) i = true ↔ p i

theorem Marks.firstDescriptor (h : fs.Marks d₀ p d) :
    fs.firstDescriptor d = fs.firstDescriptor d₀ := by
  rw [Ext3Fs.firstDescriptor, Ext3Fs.firstDescriptor, h.descriptor]

theorem Marks.congr {q : Nat → Prop} (h : fs.Marks d₀ p d) (hpq : ∀ i, p i ↔ q i) :
    fs.Marks d₀ q d :=
  ⟨h.descriptor, fun i => (h.bits i).trans (hpq i)⟩

/-- The bitmap block is replaced. -/
theorem Marks.replace (hs : fs.BitmapApart d₀) (h : fs.Marks d₀ p d) {buf : List UInt8}
    (hrep : fs.BlockReplaced d (fs.firstDescriptor d).blockBitmap buf d') :
    fs.Marks d₀ (fun i => bitAt buf i = true) d' := by
  have hkept : fs.diskBlock d' fs.bgDescTableBlock = fs.diskBlock d fs.bgDescTableBlock := by
    rw [hrep, h.firstDescriptor, if_neg fun heq => hs heq.symm]
  refine ⟨hkept.trans h.descriptor, fun i => ?_⟩
  rw [blockBitmap, Ext3Fs.firstDescriptor, hkept, ← Ext3Fs.firstDescriptor, hrep, if_pos rfl]

/-- A block apart from the descriptor and the bitmap is replaced. -/
private theorem Marks.replace_outside (h : fs.Marks d₀ p d) {b : UInt32} {buf : List UInt8}
    (hb : fs.Outside d₀ b) (hrep : fs.BlockReplaced d b buf d') : fs.Marks d₀ p d' := by
  have hkept : fs.diskBlock d' fs.bgDescTableBlock = fs.diskBlock d fs.bgDescTableBlock := by
    rw [hrep, if_neg hb.1.symm]
  refine ⟨hkept.trans h.descriptor, fun i => ?_⟩
  rw [← h.bits, blockBitmap, Ext3Fs.firstDescriptor, hkept, ← Ext3Fs.firstDescriptor, hrep,
    h.firstDescriptor, if_neg hb.2.symm, blockBitmap, h.firstDescriptor]

/-- The allocator takes the first free bit. -/
theorem Marks.alloc (hsize : fs.Sized) (hs : fs.BitmapApart d₀) (h : fs.Marks d₀ p d) :
    Ends fs.allocBlock d
      (fun bit d' => (bit.toNat < 8 * fs.blockSize ∧ bit.toNat < fs.blocksPerGroup.toNat) ∧
        (¬p bit.toNat ∧ ∀ j < bit.toNat, p j) ∧
        fs.Marks d₀ (fun i => p i ∨ i = bit.toNat) d')
      (fun _ => True) := by
  obtain ⟨k, hk, hbs⟩ := hsize.power
  rw [allocBlock]
  refine Ends.bind_reading (fun bg hbg => ?_) fun _ _ => trivial
  obtain rfl := readBgDesc_zero_ok hbs hbg
  rw [bitmapAlloc]
  refine Ends.bind_reading (fun buf hbuf => ?_) fun _ _ => trivial
  obtain rfl := readBlock_ok hbs hbuf
  rw [← blockBitmap]
  split
  case h_2 => exact Ends.throw trivial
  case h_1 bitIdx hfind =>
    -- the first clear bit is set and handed out
    obtain ⟨hbyte, hmax, hclear⟩ := findFree_spec hfind
    have hlen := length_blockBitmap (d := d) hbs
    have hbound : fs.blockSize ≤ 4096 := by
      rcases hsize with hbs | hbs | hbs <;> omega
    have hnat : (UInt32.ofNat bitIdx).toNat = bitIdx := by
      rw [UInt32.toNat_ofNat']
      omega
    refine ((writeBlock_ends hbs _ _ (by rwa [List.length_set])).bind fun _ d' hrep => ?_)
    refine Ends.pure ?_
    rw [hnat]
    refine ⟨⟨by omega, hmax⟩, ⟨?_, fun j hj => ?_⟩, (h.replace hs hrep).congr fun i => ?_⟩
    · rw [← h.bits, hclear]
      exact Bool.false_ne_true
    · exact (h.bits j).mp (findFree_least hfind hj)
    · rw [bitAt_set_or _ _ _ hbyte, Bool.or_eq_true, decide_eq_true_eq, h.bits, eq_comm]

/-- `free_block` clears the bit with the number of the block. -/
theorem Marks.free (hsize : fs.Sized) (hs : fs.BitmapApart d₀) (h : fs.Marks d₀ p d) (b : UInt32) :
    Ends (fs.freeBlock b) d (fun _ => fs.Marks d₀ fun i => p i ∧ b.toNat ≠ i) (fun _ => True) := by
  obtain ⟨k, hk, hbs⟩ := hsize.power
  rw [freeBlock]
  refine Ends.bind_reading (fun bg hbg => ?_) fun _ _ => trivial
  obtain rfl := readBgDesc_zero_ok hbs hbg
  rw [bitmapSet]
  refine Ends.bind_reading (fun buf hbuf => ?_) fun _ _ => trivial
  obtain rfl := readBlock_ok hbs hbuf
  rw [← blockBitmap]
  simp only [Bool.false_eq_true, ↓reduceIte]
  split
  case isTrue => exact Ends.throw trivial
  case isFalse hbyte =>
    have hlen := length_blockBitmap (d := d) hbs
    refine (writeBlock_ends hbs _ _ (by rwa [List.length_set])).mono (fun _ d' hrep => ?_)
      fun _ h => h
    refine (h.replace hs hrep).congr fun i => ?_
    rw [bitAt_set_and_not _ _ _ (by omega), Bool.and_eq_true, Bool.not_eq_true',
      decide_eq_false_iff_not, h.bits]

/-- A block of data goes to a block apart from the bitmap. -/
theorem Marks.store (hsize : fs.Sized) (h : fs.Marks d₀ p d) (data : List UInt8)
    (hb : fs.Outside d₀ (inode.pointer k)) :
    Ends (fs.writeDataBlock inode data k) d (fun _ => fs.Marks d₀ p) (fun _ => True) := by
  obtain ⟨_, -, hbs⟩ := hsize.power
  rw [writeDataBlock]
  split
  case isFalse => exact Ends.throw trivial
  case isTrue =>
    refine (writeBlock_ends hbs _ _ (List.takeD_length ..)).mono (fun _ d' hrep => ?_) fun _ h => h
    exact h.replace_outside hb hrep

/-! ### The first loop: missing blocks are allocated -/

theorem missing_succ (inode : Inode) (k : Nat) :
    missing inode (k + 1) = missing inode k + if inode.pointer k = 0 then 1 else 0 := by
  rw [missing, List.range_succ, List.filter_append, List.length_append, ← missing]
  split
  case isTrue h => simp [h]
  case isFalse h => simp [h]

private theorem mem_freeBits {i : Nat} : i ∈ fs.freeBits d ↔
    (i < 8 * fs.blockSize ∧ i < fs.blocksPerGroup.toNat) ∧ bitAt (fs.blockBitmap d) i = false := by
  rw [freeBits, List.mem_filter, List.mem_range, Nat.lt_min, Bool.not_eq_true']

private theorem freeBits_sorted : (fs.freeBits d).Pairwise (· < ·) :=
  List.Pairwise.filter _ List.pairwise_lt_range

private theorem takenBits_subset {i : Nat} (h : i ∈ fs.takenBits d inode k) : i ∈ fs.freeBits d :=
  List.mem_of_mem_take h

variable (fs) in
/-- Before turn `k`: the blocks missing among the first `k` have taken the first free bits, each
    of them the block with the next number. -/
structure Allotted (d₀ : Drive) (inode₀ : Inode) (k : Nat) (inode : Inode) (d : Drive) : Prop where
  marks : fs.Marks d₀ (fun i => bitAt (fs.blockBitmap d₀) i = true ∨ i ∈ fs.takenBits d₀ inode₀ k) d
  room : missing inode₀ k ≤ (fs.freeBits d₀).length
  rest : inode = { inode₀ with block := inode.block }
  pointers : ∀ j, inode.pointer j = inode₀.pointer j ∨
    (inode₀.pointer j = 0 ∧ j < k ∧ ∃ f ∈ fs.takenBits d₀ inode₀ k, (inode.pointer j).toNat = f + 1)
  stored : ∀ f ∈ fs.takenBits d₀ inode₀ k,
    ∃ j < k, inode₀.pointer j = 0 ∧ (inode.pointer j).toNat = f + 1
  reached : k ≤ 12 ∧ ∀ j < k, inode.pointer j ≠ 0

theorem Allotted.start (d₀ : Drive) (inode₀ : Inode) : fs.Allotted d₀ inode₀ 0 inode₀ d₀ where
  marks := ⟨rfl, fun i => by simp [takenBits, missing]⟩
  room := Nat.zero_le _
  rest := rfl
  pointers := fun _ => .inl rfl
  stored := fun f hf => by simp [takenBits, missing] at hf
  reached := ⟨Nat.zero_le _, fun _ hj => absurd hj (Nat.not_lt_zero _)⟩

theorem Allotted.pass (h : fs.Allotted d₀ inode₀ k inode d) (hk : k < 12)
    (hset : inode.pointer k ≠ 0) : fs.Allotted d₀ inode₀ (k + 1) inode d := by
  -- a pointer below the turn is as it was, so this block is not missing
  have hset₀ : inode₀.pointer k ≠ 0 := by
    rcases h.pointers k with hp | ⟨-, hlt, -⟩
    · rwa [← hp]
    · exact absurd hlt (Nat.lt_irrefl k)
  have hmissing : missing inode₀ (k + 1) = missing inode₀ k := by
    rw [missing_succ, if_neg hset₀, Nat.add_zero]
  have htaken : fs.takenBits d₀ inode₀ (k + 1) = fs.takenBits d₀ inode₀ k := by
    rw [takenBits, hmissing, takenBits]
  refine ⟨htaken ▸ h.marks, hmissing ▸ h.room, h.rest, fun j => ?_, ?_, hk, fun j hj => ?_⟩
  · rw [htaken]
    exact (h.pointers j).imp_right fun ⟨h0, hlt, hf⟩ => ⟨h0, by omega, hf⟩
  · rw [htaken]
    intro f hf
    obtain ⟨j, hlt, hj⟩ := h.stored f hf
    exact ⟨j, by omega, hj⟩
  · rcases Nat.lt_succ_iff_lt_or_eq.mp hj with hj | rfl
    · exact h.reached.2 j hj
    · exact hset

/-- A turn that takes a free bit. -/
theorem Allotted.alloc (h : fs.Allotted d₀ inode₀ k inode d) (hk : k < 12)
    (hunset : inode.pointer k = 0) {bit : UInt32}
    (hbound : bit.toNat < 8 * fs.blockSize ∧ bit.toNat < fs.blocksPerGroup.toNat)
    (hsmall : 8 * fs.blockSize < 2 ^ 32)
    (hleast : ¬(bitAt (fs.blockBitmap d₀) bit.toNat = true ∨ bit.toNat ∈ fs.takenBits d₀ inode₀ k) ∧
      ∀ j < bit.toNat, bitAt (fs.blockBitmap d₀) j = true ∨ j ∈ fs.takenBits d₀ inode₀ k)
    (hmarks : fs.Marks d₀ (fun i => (bitAt (fs.blockBitmap d₀) i = true ∨
      i ∈ fs.takenBits d₀ inode₀ k) ∨ i = bit.toNat) d') :
    fs.Allotted d₀ inode₀ (k + 1) (inode.setPointer k (bit + 1)) d' := by
  obtain ⟨hnot, hbelow⟩ := hleast
  obtain ⟨hclear, hnew⟩ := not_or.mp hnot
  have hunset₀ : inode₀.pointer k = 0 := by
    rcases h.pointers k with hp | ⟨h0, -⟩
    · rw [← hp, hunset]
    · exact h0
  have hmissing : missing inode₀ (k + 1) = missing inode₀ k + 1 := by
    rw [missing_succ, if_pos hunset₀]
  -- the bit is the next one in the list of the free bits
  have hmem : bit.toNat ∈ fs.freeBits d₀ := mem_freeBits.mpr ⟨hbound, by simpa using hclear⟩
  obtain ⟨hroom, htake⟩ := take_succ_of_least freeBits_sorted hmem hnew fun j hj hlt => by
    rcases hbelow j hlt with hset | htaken
    · rw [(mem_freeBits.mp hj).2] at hset
      cases hset
    · exact htaken
  have htaken : fs.takenBits d₀ inode₀ (k + 1) = fs.takenBits d₀ inode₀ k ++ [bit.toNat] := by
    rw [takenBits, hmissing, htake, takenBits]
  have hnext : (bit + 1).toNat = bit.toNat + 1 := by
    rw [UInt32.toNat_add, UInt32.toNat_one]
    omega
  refine ⟨hmarks.congr fun i => ?_, by omega, ?_, fun j => ?_, ?_, hk, fun j hj => ?_⟩
  · rw [htaken, List.mem_append, List.mem_singleton, or_assoc]
  · rw [Inode.setPointer]
    conv_lhs => rw [h.rest]
  · rw [pointer_setPointer (by omega), htaken]
    split
    case isTrue hkj =>
      subst hkj
      exact .inr ⟨hunset₀, Nat.lt_succ_self _, _, List.mem_append_right _ List.mem_cons_self, hnext⟩
    case isFalse =>
      rcases h.pointers j with hsame | ⟨h0, hlt, f, hf, hp⟩
      · exact .inl hsame
      · exact .inr ⟨h0, by omega, f, List.mem_append_left _ hf, hp⟩
  · intro f hf
    rw [htaken, List.mem_append, List.mem_singleton] at hf
    rcases hf with hf | rfl
    · obtain ⟨j, hlt, h0, hp⟩ := h.stored f hf
      refine ⟨j, by omega, h0, ?_⟩
      rwa [pointer_setPointer (by omega), if_neg (by omega)]
    · refine ⟨k, Nat.lt_succ_self k, hunset₀, ?_⟩
      rw [pointer_setPointer (by omega), if_pos rfl, hnext]
  · rw [pointer_setPointer (by omega)]
    split
    case isTrue =>
      intro hzero
      rw [hzero, UInt32.toNat_zero] at hnext
      omega
    case isFalse hkj => exact h.reached.2 j (by omega)

private theorem Allotted.grow (hsize : fs.Sized) (hs : fs.BitmapApart d₀)
    (h : fs.Allotted d₀ inode₀ k inode d) :
    Ends (fs.growBlock inode k) d (fs.Allotted d₀ inode₀ (k + 1)) (fun _ => True) := by
  rw [growBlock]
  by_cases hexisting : (if k < 12 then inode.pointer k else 0) = 0
  · rw [if_pos hexisting]
    refine (h.marks.alloc hsize hs).bind ?_
    rintro bit d' ⟨hbound, hleast, hmarks⟩
    split
    case isFalse => exact Ends.throw trivial
    case isTrue hk =>
      rw [if_pos hk] at hexisting
      have hsmall : 8 * fs.blockSize < 2 ^ 32 := by
        rcases hsize with hbs | hbs | hbs <;> omega
      exact Ends.pure (h.alloc hk hexisting hbound hsmall hleast hmarks)
  · rw [if_neg hexisting]
    by_cases hk : k < 12
    · rw [if_pos hk] at hexisting
      exact Ends.pure (h.pass hk hexisting)
    · exact absurd (if_neg hk) hexisting

/-! ### The other loops -/

variable (fs) in
/-- Before turn `k` of the third loop: the pointers from `n` on are cleared up to `k`, and if the
    blocks written were apart from the bitmap, the bits with their numbers are. -/
structure Cleared (d₀ : Drive) (inode₁ : Inode) (n : Nat) (p : Nat → Prop) (k : Nat) (inode : Inode)
    (d : Drive) : Prop where
  pointers : ∀ j, inode.pointer j = if n ≤ j ∧ j < k ∧ j < 12 then 0 else inode₁.pointer j
  marks : (∀ j < n, fs.Outside d₀ (inode₁.pointer j)) → fs.Marks d₀ (fun i => p i ∧
    ∀ j, n ≤ j → j < k → j < 12 → inode₁.pointer j ≠ 0 → (inode₁.pointer j).toNat ≠ i) d

theorem Cleared.trim {n : Nat} (hsize : fs.Sized) (hs : fs.BitmapApart d₀)
    (h : fs.Cleared d₀ inode₁ n p k inode d) (hk : n ≤ k) :
    Ends (fs.freeExcess inode k) d (fs.Cleared d₀ inode₁ n p (k + 1)) (fun _ => True) := by
  have hsame : inode.pointer k = inode₁.pointer k := by
    rw [h.pointers, if_neg (by omega)]
  rw [freeExcess, hsame]
  split
  case isTrue hcond =>
    obtain ⟨h12, hset⟩ := hcond
    have hfree : Ends (fs.freeBlock (inode₁.pointer k)) d
        (fun _ d' => (∀ j < n, fs.Outside d₀ (inode₁.pointer j)) → fs.Marks d₀ (fun i => (p i ∧
          ∀ j, n ≤ j → j < k → j < 12 → inode₁.pointer j ≠ 0 → (inode₁.pointer j).toNat ≠ i) ∧
          (inode₁.pointer k).toNat ≠ i) d') (fun _ => True) := by
      by_cases hout : ∀ j < n, fs.Outside d₀ (inode₁.pointer j)
      · exact ((h.marks hout).free hsize hs _).mono (fun _ _ hm _ => hm) fun _ h => h
      · exact Ends.trivial.mono (fun _ _ _ hout' => absurd hout' hout) fun _ h => h
    refine hfree.bind fun _ d' hmarks => Ends.pure ⟨fun j => ?_, fun hout => ?_⟩
    · rw [pointer_setPointer (by omega)]
      split
      case isTrue hkj => rw [if_pos (by omega)]
      case isFalse hkj =>
        rw [h.pointers]
        exact if_congr (by omega) rfl rfl
    · refine (hmarks hout).congr fun i => ⟨?_, ?_⟩
      · rintro ⟨⟨hp, hothers⟩, hlast⟩
        refine ⟨hp, fun j hlo hhi hj12 hne => ?_⟩
        rcases Nat.lt_succ_iff_lt_or_eq.mp hhi with hlt | rfl
        · exact hothers j hlo hlt hj12 hne
        · exact hlast
      · rintro ⟨hp, hall⟩
        exact ⟨⟨hp, fun j hlo hhi => hall j hlo (by omega)⟩,
          hall k hk (Nat.lt_succ_self k) h12 hset⟩
  case isFalse hcond =>
    -- no block is freed: the pointer is 0, or not a direct one
    refine Ends.pure ⟨fun j => ?_, fun hout => (h.marks hout).congr fun i => ⟨?_, ?_⟩⟩
    · by_cases hjk : j = k
      · subst hjk
        rw [hsame]
        split
        case isTrue hin => exact not_not.mp fun hne => hcond ⟨hin.2.2, hne⟩
        case isFalse => rfl
      · rw [h.pointers]
        exact if_congr (by omega) rfl rfl
    · rintro ⟨hp, hothers⟩
      refine ⟨hp, fun j hlo hhi hj12 hne => ?_⟩
      rcases Nat.lt_succ_iff_lt_or_eq.mp hhi with hlt | rfl
      · exact hothers j hlo hlt hj12 hne
      · exact absurd ⟨hj12, hne⟩ hcond
    · rintro ⟨hp, hall⟩
      exact ⟨hp, fun j hlo hhi => hall j hlo (by omega)⟩

variable (fs) in
/-- The number of blocks that the file has. -/
def oldBlocks (inode : Inode) : Nat := (inode.size.toNat + fs.blockSize - 1) / fs.blockSize

/-- What a call that returns has done to the pointers and to the bitmap. -/
private theorem writeFileData_allotted (hsize : fs.Sized) (hs : fs.BitmapApart d)
    (data : List UInt8) :
    Ends (fs.writeFileData inode data) d
      (fun inode' d' => ∃ inode₁ d₁, fs.Allotted d inode (fs.blocksNeeded data) inode₁ d₁ ∧
        fs.Cleared d inode₁ (fs.blocksNeeded data)
          (fun i => bitAt (fs.blockBitmap d) i = true ∨
            i ∈ fs.takenBits d inode (fs.blocksNeeded data))
          (fs.blocksNeeded data + (fs.oldBlocks inode - fs.blocksNeeded data)) inode' d')
      (fun _ => True) := by
  set n := fs.blocksNeeded data with hn
  -- the three loops one after the other: grow, store, trim
  have hgrow := Ends.foldlM (fs.Allotted d inode) (fun _ => True) n 0 inode d
    (fun _ _ _ _ _ hI => hI.grow hsize hs) (Allotted.start d inode)
  refine hgrow.bind fun inode₁ d₁ hg => ?_
  rw [Nat.zero_add] at hg
  have hstore : Ends
      ((List.range' 0 n).foldlM (fun _ blkIdx => fs.writeDataBlock inode₁ data blkIdx) ()) d₁
      (fun _ d₂ => (∀ j < n, fs.Outside d (inode₁.pointer j)) → fs.Marks d (fun i =>
        bitAt (fs.blockBitmap d) i = true ∨ i ∈ fs.takenBits d inode n) d₂) (fun _ => True) := by
    -- the data may land in the bitmap, if a pointer of the inode leads there
    by_cases hout : ∀ j < n, fs.Outside d (inode₁.pointer j)
    · have hloop := Ends.foldlM (fun _ (_ : Unit) t => fs.Marks d (fun i =>
          bitAt (fs.blockBitmap d) i = true ∨ i ∈ fs.takenBits d inode n) t) (fun _ => True) n 0 () d₁
        (fun k _ t _ hk hm => hm.store hsize data (hout k (by omega))) hg.marks
      exact hloop.mono (fun _ _ hm _ => hm) fun _ h => h
    · exact Ends.trivial.mono (fun _ _ _ hout' => absurd hout' hout) fun _ h => h
  refine hstore.bind fun _ d₂ hmarks => ?_
  have hold : (inode₁.size.toNat + fs.blockSize - 1) / fs.blockSize = fs.oldBlocks inode := by
    rw [hg.rest, oldBlocks]
  rw [← blocksNeeded, ← hn]
  dsimp only
  rw [hold]
  have htrim := Ends.foldlM (fs.Cleared d inode₁ n (fun i => bitAt (fs.blockBitmap d) i = true ∨
      i ∈ fs.takenBits d inode n)) (fun _ => True) (fs.oldBlocks inode - n) n inode₁ d₂
    (fun k _ _ hk _ hI => hI.trim hsize hs hk)
    ⟨fun _ => (if_neg (by omega)).symm, fun hout => (hmarks hout).congr fun i =>
      ⟨fun hp => ⟨hp, fun j hlo hhi => absurd hhi (by omega)⟩, fun hp => hp.1⟩⟩
  refine htrim.bind fun inode₃ d₃ hc => Ends.pure ?_
  exact ⟨inode₁, d₁, hg, hc.pointers, hc.marks⟩

/-! ### The blocks that a call stores in the inode -/

private theorem mem_newBlocks {inode' : Inode} {b : UInt32} : b ∈ newBlocks inode inode' ↔
    ∃ j < 15, (inode'.pointer j ≠ 0 ∧ inode'.pointer j ≠ inode.pointer j) ∧
      inode'.pointer j = b := by
  simp only [newBlocks, List.mem_map, List.mem_filter, List.mem_range, decide_eq_true_eq]
  constructor
  · rintro ⟨j, ⟨hj, hnew⟩, rfl⟩
    exact ⟨j, hj, hnew, rfl⟩
  · rintro ⟨j, hj, hnew, rfl⟩
    exact ⟨j, ⟨hj, hnew⟩, rfl⟩

section Result

variable {d₁ : Drive} {inode' : Inode} {n m : Nat} {b : UInt32}

/-- Each bit taken is the number before that of a new block. -/
private theorem Cleared.exists_newBlock (hc : fs.Cleared d inode₁ n p m inode' d')
    (hg : fs.Allotted d inode n inode₁ d₁) {f : Nat} (hf : f ∈ fs.takenBits d inode n) :
    ∃ b ∈ newBlocks inode inode', b.toNat = f + 1 := by
  obtain ⟨j, hj, h0, hp⟩ := hg.stored f hf
  have hsame : inode'.pointer j = inode₁.pointer j := by
    rw [hc.pointers, if_neg (by omega)]
  have hreached := hg.reached
  refine ⟨_, mem_newBlocks.mpr ⟨j, by omega, ⟨?_, ?_⟩, rfl⟩, by rw [hsame, hp]⟩
  · rw [hsame]
    exact hreached.2 j hj
  · rw [hsame, h0]
    exact hreached.2 j hj

/-- A new block has the number behind that of a bit taken. -/
private theorem Cleared.exists_bit (hc : fs.Cleared d inode₁ n p m inode' d')
    (hg : fs.Allotted d inode n inode₁ d₁) (hb : b ∈ newBlocks inode inode') :
    ∃ f ∈ fs.takenBits d inode n, b.toNat = f + 1 := by
  obtain ⟨j, -, ⟨hset, hnew⟩, rfl⟩ := mem_newBlocks.mp hb
  rw [hc.pointers] at hset hnew ⊢
  split at hset
  case isTrue => exact absurd rfl hset
  case isFalse hkept =>
    rw [if_neg hkept] at hnew ⊢
    rcases hg.pointers j with hp | ⟨-, -, f, hf, hp⟩
    · exact absurd hp hnew
    · exact ⟨f, hf, hp⟩

/-- If the new blocks were free, no block of the file is the bitmap. -/
theorem Allotted.outside (hs : fs.Sited d inode n) (hg : fs.Allotted d inode n inode₁ d₁)
    (hfree : ∀ f ∈ fs.takenBits d inode n, ∀ b : UInt32, b.toNat = f + 1 → fs.MarkedFree d b) :
    ∀ j < n, fs.Outside d (inode₁.pointer j) := by
  intro j hj
  have hreached := hg.reached
  rcases hg.pointers j with hp | ⟨-, -, f, hf, hp⟩
  · have hset := hreached.2 j hj
    rw [hp] at hset ⊢
    exact hs.file j hj hset
  · exact hs.taken f hf _ hp (hfree f hf _ hp)

/-- The bit is cleared by the third loop if a block that is freed has its number. -/
private theorem Allotted.cleared_iff (hg : fs.Allotted d inode n inode₁ d₁) (i : Nat) :
    (∀ j, n ≤ j → j < n + (fs.oldBlocks inode - n) → j < 12 → inode₁.pointer j ≠ 0 →
      (inode₁.pointer j).toNat ≠ i) ↔ ∀ e ∈ fs.freedBlocks inode n, e.toNat ≠ i := by
  have hsame : ∀ j, n ≤ j → inode₁.pointer j = inode.pointer j := by
    intro j hj
    rcases hg.pointers j with hp | ⟨-, hlt, -⟩
    · exact hp
    · omega
  constructor
  · intro hall e he
    obtain ⟨hne, j, hlo, hhi, h12, rfl⟩ := mem_freedBlocks.mp he
    rw [← hsame j hlo] at hne ⊢
    exact hall j hlo (by rw [oldBlocks]; omega) h12 hne
  · intro hall j hlo hhi h12 hne
    rw [hsame j hlo] at hne ⊢
    rw [oldBlocks] at hhi
    exact hall _ (mem_freedBlocks.mpr ⟨hne, j, hlo, by omega, h12, rfl⟩)

end Result

/-- Without a missing block nothing is stored. -/
private theorem writeFileData_kept (data : List UInt8)
    (hnone : missing inode (fs.blocksNeeded data) = 0) :
    Ends (fs.writeFileData inode data) d
      (fun inode' _ => ∀ j, inode'.pointer j = inode.pointer j ∨ inode'.pointer j = 0)
      (fun _ => True) := by
  -- nothing is missing, so the first loop allocates nothing
  have hset : ∀ k < fs.blocksNeeded data, inode.pointer k ≠ 0 := by
    intro k hk hzero
    have hmem : k ∈ (List.range (fs.blocksNeeded data)).filter fun j => inode.pointer j = 0 :=
      List.mem_filter.mpr ⟨List.mem_range.mpr hk, decide_eq_true hzero⟩
    rw [List.length_eq_zero_iff.mp hnone] at hmem
    cases hmem
  have hgrow : ∀ k inode₁ t, 0 ≤ k → k < 0 + fs.blocksNeeded data →
      (∀ j, inode₁.pointer j = inode.pointer j) →
      Ends (fs.growBlock inode₁ k) t (fun inode₂ _ => ∀ j, inode₂.pointer j = inode.pointer j)
        (fun _ => True) := by
    intro k inode₁ t _ hk hI
    rw [growBlock]
    by_cases h12 : k < 12
    · rw [if_pos h12, hI, if_neg (hset k (by omega))]
      exact Ends.pure hI
    · rw [if_neg h12, if_pos rfl]
      refine Ends.trivial.bind fun _ _ _ => ?_
      rw [if_neg h12]
      exact Ends.throw trivial
  -- the last loop only clears pointers
  have htrim : ∀ k inode₁ t,
      (∀ j, inode₁.pointer j = inode.pointer j ∨ inode₁.pointer j = 0) →
      Ends (fs.freeExcess inode₁ k) t
        (fun inode₂ _ => ∀ j, inode₂.pointer j = inode.pointer j ∨ inode₂.pointer j = 0)
        (fun _ => True) := by
    intro k inode₁ t hI
    rw [freeExcess]
    split
    case isTrue hcond =>
      refine Ends.trivial.bind fun _ _ _ => Ends.pure fun j => ?_
      rw [pointer_setPointer (by omega)]
      split
      case isTrue => exact .inr rfl
      case isFalse => exact hI j
    case isFalse => exact Ends.pure hI
  refine (Ends.foldlM (fun _ inode₁ _ => ∀ j, inode₁.pointer j = inode.pointer j) (fun _ => True)
    (fs.blocksNeeded data) 0 inode d hgrow fun _ => rfl).bind fun inode₁ d₁ hsame => ?_
  refine Ends.trivial.bind fun _ d₂ _ => ?_
  refine (Ends.foldlM (fun _ inode₂ _ => ∀ j, inode₂.pointer j = inode.pointer j ∨
    inode₂.pointer j = 0) (fun _ => True) _ _ inode₁ d₂ (fun k _ t _ _ hI => htrim k _ t hI)
    fun j => .inl (hsame j)).bind fun inode₂ _ hI => Ends.pure hI

/-- With 1 KiB blocks all blocks that are taken were free. -/
private theorem takenBits_free (hkib : fs.blockSize = 1024) {n f : Nat}
    (hf : f ∈ fs.takenBits d inode n)
    {b : UInt32} (hb : b.toNat = f + 1) : fs.MarkedFree d b := by
  have hone : fs.firstDataBlock = 1 := if_pos hkib
  obtain ⟨⟨hlt, -⟩, hclear⟩ := mem_freeBits.mp (takenBits_subset hf)
  refine ⟨by omega, by omega, ?_⟩
  rw [hone, hb, Nat.add_sub_cancel, hclear]

variable (fs) in
/-- Every block number newly stored in the inode was free before the call and is used after it. -/
def NewBlocksMarked (d : Drive) (inode : Inode) (d' : Drive) (inode' : Inode) : Prop :=
  ∀ b ∈ newBlocks inode inode', fs.MarkedFree d b ∧ fs.MarkedUsed d' b

variable (fs) in
/-- No block is missing, or the blocks have 1 KiB, the call keeps off the descriptor and the bitmap,
    and no bit that it takes has the number of a block that it frees. -/
def AllocatesRight (d : Drive) (inode : Inode) (n : Nat) : Prop :=
  missing inode n = 0 ∨ fs.blockSize = 1024 ∧ fs.Sited d inode n ∧
    ∀ e ∈ fs.freedBlocks inode n, e.toNat ∉ fs.takenBits d inode n

/-- Where the call takes a bit and the new blocks are marked, the blocks have 1 KiB and no block is
    freed that has the number of the bit. -/
private theorem NewBlocksMarked.allocatesRight {n : Nat} {d₁ : Drive} {inode' : Inode}
    (hs : fs.Sited d inode n) (hg : fs.Allotted d inode n inode₁ d₁)
    (hc : fs.Cleared d inode₁ n (fun i => bitAt (fs.blockBitmap d) i = true ∨
      i ∈ fs.takenBits d inode n) (n + (fs.oldBlocks inode - n)) inode' d')
    (hall : fs.NewBlocksMarked d inode d' inode') : fs.AllocatesRight d inode n := by
  have hfree : ∀ f ∈ fs.takenBits d inode n, ∀ b : UInt32, b.toNat = f + 1 →
      fs.MarkedFree d b ∧ fs.MarkedUsed d' b := by
    intro f hf b hb
    obtain ⟨c, hc, heq⟩ := hc.exists_newBlock hg hf
    rw [UInt32.toNat_inj.mp (hb.trans heq.symm)]
    exact hall c hc
  have hmarks := hc.marks (hg.outside hs fun f hf b hb => (hfree f hf b hb).1)
  rcases List.eq_nil_or_concat' (fs.takenBits d inode n) with hnone | ⟨front, last, hsplit⟩
  · left
    have hlen := congrArg List.length hnone
    rw [takenBits, List.length_take, Nat.min_eq_left hg.room] at hlen
    exact hlen
  right
  -- the block behind the last bit taken is used after the call only if it has that bit
  have hlast : last ∈ fs.takenBits d inode n := by
    rw [hsplit]
    exact List.mem_append_right _ List.mem_cons_self
  have hkib : fs.blockSize = 1024 := by
    by_contra hne
    obtain ⟨b, -, hb⟩ := hc.exists_newBlock hg hlast
    obtain ⟨⟨-, -, hclear⟩, -, hset⟩ := hfree last hlast b hb
    have hzero : fs.firstDataBlock = 0 := if_neg hne
    rw [hzero, hb, Nat.sub_zero] at hclear hset
    rcases ((hmarks.bits _).mp hset).1 with hused | htaken
    · rw [hclear] at hused
      cases hused
    · have hsorted : (fs.takenBits d inode n).Pairwise (· < ·) :=
        freeBits_sorted.sublist (List.take_sublist _ _)
      rw [hsplit, List.pairwise_append] at hsorted
      rw [hsplit, List.mem_append, List.mem_singleton] at htaken
      rcases htaken with hfront | heq
      · have hlt := hsorted.2.2 _ hfront last List.mem_cons_self
        omega
      · omega
  refine ⟨hkib, hs, fun e he htaken => ?_⟩
  obtain ⟨b, -, hb⟩ := hc.exists_newBlock hg htaken
  obtain ⟨-, -, hset⟩ := hfree _ htaken b hb
  have hone : fs.firstDataBlock = 1 := if_pos hkib
  rw [hone, hb, Nat.add_sub_cancel] at hset
  exact (hg.cleared_iff _).mp ((hmarks.bits _).mp hset).2 e he rfl

/-- The new blocks of a call that returns are marked if the call `AllocatesRight`, and on a volume
    whose descriptor and bitmap it keeps off only then. -/
theorem writeFileData_newBlocks_iff (fs : Ext3Fs) (hsize : fs.Sized) (d d' : Drive)
    (inode inode' : Inode) (data : List UInt8)
    (hrun : (fs.writeFileData inode data).exec d = (.ok inode', d')) :
    (fs.AllocatesRight d inode (fs.blocksNeeded data) → fs.NewBlocksMarked d inode d' inode') ∧
      (fs.Sited d inode (fs.blocksNeeded data) →
        (fs.NewBlocksMarked d inode d' inode' ↔
          fs.AllocatesRight d inode (fs.blocksNeeded data))) := by
  have henough : fs.AllocatesRight d inode (fs.blocksNeeded data) →
      fs.NewBlocksMarked d inode d' inode' := by
    rintro (hnone | ⟨hkib, hs, hapart⟩) b hb
    · obtain ⟨j, -, ⟨hset, hnew⟩, -⟩ := mem_newBlocks.mp hb
      rcases (writeFileData_kept data hnone).ok hrun j with hsame | hzero
      · exact absurd hsame hnew
      · exact absurd hzero hset
    obtain ⟨inode₁, d₁, hg, hc⟩ := (writeFileData_allotted hsize hs.bitmap_apart data).ok hrun
    obtain ⟨f, hf, hbf⟩ := hc.exists_bit hg hb
    have hone : fs.firstDataBlock = 1 := if_pos hkib
    refine ⟨takenBits_free hkib hf hbf, by omega, ?_⟩
    rw [(hc.marks (hg.outside hs fun f hf b hb => takenBits_free hkib hf hb)).bits, hone, hbf,
      Nat.add_sub_cancel]
    exact ⟨.inr hf, (hg.cleared_iff _).mpr fun e he heq => hapart e he (heq ▸ hf)⟩
  refine ⟨henough, fun hs => ⟨fun hall => ?_, henough⟩⟩
  obtain ⟨inode₁, d₁, hg, hc⟩ := (writeFileData_allotted hsize hs.bitmap_apart data).ok hrun
  exact hall.allocatesRight hs hg hc

/-! ### Two small volumes -/

instance (b : UInt32) : Decidable (fs.MarkedUsed d b) := inferInstanceAs (Decidable (_ ∧ _))

instance (b : UInt32) : Decidable (fs.Outside d b) := inferInstanceAs (Decidable (_ ∧ _))

/-- One group of 64 blocks of 1 KiB: the blocks 1 to 7 are used. -/
def kibFs : Ext3Fs := ⟨1024, 16, 64, 2, 1⟩

def kibDrive : Drive := .ofBlocks fun b =>
  if b = 2 then [3, 0, 0, 0, 4, 0, 0, 0, 5, 0, 0, 0] else if b = 3 then [0x7F] else []

theorem first_block_taken_free : ∃ inode' d',
    (kibFs.writeFileData emptyFile [1]).exec kibDrive = (.ok inode', d') ∧
      newBlocks emptyFile inode' = [8] ∧
      ∀ b ∈ newBlocks emptyFile inode', kibFs.MarkedFree kibDrive b ∧ kibFs.MarkedUsed d' b := by
  have hrun : (kibFs.writeFileData emptyFile [1]).exec kibDrive =
      (.ok { emptyFile.setPointer 0 8 with size := 1 }, _) :=
    Fallible.exec_eq_of_fst (by decide +kernel)
  have hsited : kibFs.Sited kibDrive emptyFile (kibFs.blocksNeeded [1]) :=
    .of_marked (.inl rfl) (by decide +kernel) (by decide +kernel) (by decide +kernel)
      (by decide +kernel)
  have hnone : kibFs.freedBlocks emptyFile (kibFs.blocksNeeded [1]) = [] :=
    freedBlocks_eq_nil (by decide)
  have hright : kibFs.AllocatesRight kibDrive emptyFile (kibFs.blocksNeeded [1]) := by
    refine .inr ⟨rfl, hsited, ?_⟩
    rw [hnone]
    intro e he
    cases he
  have hiff := writeFileData_newBlocks_iff kibFs (.inl rfl) kibDrive _ emptyFile _ [1] hrun
  exact ⟨_, _, hrun, by decide +kernel, hiff.1 hright⟩

/-- One group of 64 blocks of 2 KiB: the blocks 0 to 6 are used. -/
def doubleKibFs : Ext3Fs := ⟨2048, 16, 64, 1, 1⟩

def doubleKibDrive : Drive := .ofBlocks fun b =>
  if b = 2 then [3, 0, 0, 0, 4, 0, 0, 0, 5, 0, 0, 0] else if b = 6 then [0x7F] else []

/-- With 2 KiB blocks the file gets block 8, and block 7 is marked. -/
theorem next_block_taken :
    ¬∀ (fs : Ext3Fs) (d d' : Drive) (inode inode' : Inode) (data : List UInt8), fs.Sized →
      (fs.writeFileData inode data).exec d = (.ok inode', d') →
      fs.NewBlocksMarked d inode d' inode' := by
  intro h
  have hrun : (doubleKibFs.writeFileData emptyFile [1]).exec doubleKibDrive =
      (.ok { emptyFile.setPointer 0 8 with size := 1 }, _) :=
    Fallible.exec_eq_of_fst (by decide +kernel)
  have hused := (h doubleKibFs doubleKibDrive _ emptyFile _ [1] (.inr (.inl rfl)) hrun 8
    (by decide +kernel)).2
  revert hused
  decide +kernel

end Ext3Fs

end RustKernel.Fs
