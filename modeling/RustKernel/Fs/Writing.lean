import RustKernel.Fs.Files

/-!
# RustKernel.Fs.Writing

Writing the contents of a file: `write_file_data`.

## Main results

- `writeFileData_ends`: writing a sound file leaves it with the data (`Rewritten`), changes no
  block that was used by others, and clears no mark other than those of the successors of the
  blocks it frees; when it fails it has only marked blocks used, or it panics
- `Rewritten.sound`: a write that does not shrink the file keeps the volume and the file sound

## Proof strategy

`write_file_data` has three loops, and each gets an invariant: `Grown` (the blocks allocated so
far were free before), `Stored` (the blocks written so far hold their part of the data) and
`Trimmed` (the pointers cleared so far).
-/

namespace RustKernel.Fs

open Lib

namespace Ext3Fs

variable {fs : Ext3Fs} {d d' d₀ : Drive} {inode inode₀ : Inode}

/-! ### Growing: the first loop of `write_file_data` -/

variable (fs) in
/-- Before turn `k`: the pointers below `k` are set, the ones that were missing to blocks that were
    free. -/
structure Grown (d₀ : Drive) (inode₀ : Inode) (k : Nat) (inode : Inode) (d : Drive) : Prop where
  step : fs.BitmapStep d₀ d
  kept : ∀ b, fs.BlockUsed d₀ b → fs.BlockUsed d b
  sound : fs.Sound d inode
  fresh : ∀ b ∈ fs.refs d inode,
    b ∈ fs.refs d₀ inode₀ ∨ ¬fs.BlockUsed d₀ b ∧ ∃ j < k, inode₀.pointer j = 0
  rest : inode = { inode₀ with block := inode.block }
  pointers : ∀ j, inode.pointer j = inode₀.pointer j ∨ inode₀.pointer j = 0 ∧ j < k
  reached : k ≤ 12 ∧ ∀ j < k, inode.pointer j ≠ 0

variable (fs) in
/-- What a failed loop leaves: blocks marked used, and nothing else changed. -/
structure Leaked (d₀ d : Drive) : Prop where
  step : fs.BitmapStep d₀ d
  kept : ∀ b, fs.BlockUsed d₀ b → fs.BlockUsed d b

theorem Grown.start (hv : fs.Volume d₀) (h : fs.Sound d₀ inode₀) :
    fs.Grown d₀ inode₀ 0 inode₀ d₀ where
  step := BitmapStep.refl hv.healthy
  kept := fun _ hb => hb
  sound := h
  fresh := fun _ hb => .inl hb
  rest := rfl
  pointers := fun _ => .inl rfl
  reached := ⟨Nat.zero_le _, fun _ hj => absurd hj (Nat.not_lt_zero _)⟩

theorem Grown.pass {k : Nat} (h : fs.Grown d₀ inode₀ k inode d) (hk : k < 12)
    (hset : inode.pointer k ≠ 0) : fs.Grown d₀ inode₀ (k + 1) inode d where
  step := h.step
  kept := h.kept
  sound := h.sound
  fresh := fun b hb => (h.fresh b hb).imp_right fun ⟨hfree, j, hj, h0⟩ => ⟨hfree, j, by omega, h0⟩
  rest := h.rest
  pointers := fun j => (h.pointers j).imp_right fun ⟨h0, hj⟩ => ⟨h0, by omega⟩
  reached := by
    refine ⟨hk, fun j hj => ?_⟩
    rcases Nat.lt_succ_iff_lt_or_eq.mp hj with hj | rfl
    · exact h.reached.2 j hj
    · exact hset

/-- A turn that allocates the block `b`. -/
theorem Grown.alloc {k : Nat} {b : UInt32} (hv : fs.Volume d₀) (h : fs.Grown d₀ inode₀ k inode d)
    (hk : k < 12) (hunset : inode.pointer k = 0) (hstep : fs.BitmapStep d d')
    (hfree : ¬fs.BlockUsed d b) (hused : ∀ c, fs.BlockUsed d' c ↔ fs.BlockUsed d c ∨ c = b)
    (hb : b ≠ 0) : fs.Grown d₀ inode₀ (k + 1) (inode.setPointer k b) d' := by
  have hloc := h.step.located hv.toLocated
  have hdesc : fs.descriptor d' = fs.descriptor d := hstep.descriptor_eq hloc
  have hvd : fs.Volume d := h.step.volume hv h.kept
  have hnew : b ∉ fs.refs d inode := fun hb => hfree (h.sound.used b hb)
  -- the bitmap block is no part of the file, so its references do not change
  have hrefs : ∀ (i : Inode), (∀ c ∈ fs.refs d i, c ≠ (fs.descriptor d).blockBitmap) →
      fs.refs d' i = fs.refs d i := fun i hi => refs_congr fun c hc => hstep.others c (hi c hc)
  have hmem : ∀ c ∈ fs.refs d (inode.setPointer k b), c = b ∨ c ∈ fs.refs d inode := by
    intro c hc
    rcases (mem_refs_setPointer hk).mp hc with ⟨-, rfl⟩ | ⟨j, hj, -, hc⟩
    · exact .inl rfl
    · exact .inr (mem_refs.mpr ⟨j, hj, hc⟩)
  have hapart : ∀ c ∈ fs.refs d (inode.setPointer k b),
      c ≠ fs.bgDescTableBlock ∧ c ≠ (fs.descriptor d).blockBitmap := by
    intro c hc
    rcases hmem c hc with rfl | hc
    · exact ⟨fun heq => hfree (heq ▸ hvd.descriptor_used),
        fun heq => hfree (heq ▸ hvd.bitmap_used)⟩
    · exact h.sound.apart c hc
  have hsame := hrefs _ fun c hc => (hapart c hc).2
  have hmissing : inode₀.pointer k = 0 := by
    rcases h.pointers k with hp | hp
    · rw [← hp, hunset]
    · exact hp.1
  refine ⟨h.step.trans hv.toLocated hstep, fun c hc => (hused c).mpr (.inl (h.kept c hc)),
    ⟨?_, ?_, ?_⟩, ?_, ?_, ?_, ?_⟩
  · rw [hsame]
    exact nodup_setPointer hk h.sound.nodup hnew
  · rw [hsame]
    intro c hc
    rw [hused]
    exact (hmem c hc).symm.imp_left (h.sound.used c)
  · rw [hsame, hdesc]
    exact hapart
  · rw [hsame]
    intro c hc
    rcases hmem c hc with rfl | hc
    · exact .inr ⟨fun hused₀ => hfree (h.kept c hused₀), k, Nat.lt_succ_self k, hmissing⟩
    · exact (h.fresh c hc).imp_right fun ⟨hfree, j, hj, h0⟩ => ⟨hfree, j, by omega, h0⟩
  · rw [Inode.setPointer]
    conv_lhs => rw [h.rest]
  · intro j
    rw [pointer_setPointer (by omega)]
    split
    case isTrue hkj =>
      subst hkj
      exact .inr ⟨hmissing, Nat.lt_succ_self _⟩
    case isFalse =>
      rcases h.pointers j with hsame | ⟨h0, hj⟩
      · exact .inl hsame
      · exact .inr ⟨h0, by omega⟩
  · refine ⟨hk, fun j hj => ?_⟩
    rw [pointer_setPointer (by omega)]
    split
    case isTrue => exact hb
    case isFalse hkj => exact h.reached.2 j (by omega)

private theorem growBlock_ends {k : Nat} (hv : fs.Volume d₀) (h : fs.Grown d₀ inode₀ k inode d) :
    Ends (fs.growBlock inode k) d (fs.Grown d₀ inode₀ (k + 1)) (fs.Leaked d₀) := by
  have hloc := h.step.located hv.toLocated
  rw [growBlock]
  by_cases hexisting : (if k < 12 then inode.pointer k else 0) = 0
  · rw [if_pos hexisting]
    -- without a free block the step fails and what was allocated before leaks
    have hfailed : ∀ t, t = d → fs.Leaked d₀ t := by
      rintro _ rfl
      exact ⟨h.step, h.kept⟩
    refine ((allocBlock_ends hloc).mono (fun _ _ hQ => hQ) hfailed).bind ?_
    rintro n d' ⟨hstep, hfree, hused⟩
    have hleaked : fs.Leaked d₀ d' :=
      ⟨h.step.trans hv.toLocated hstep, fun c hc => (hused c).mpr (.inl (h.kept c hc))⟩
    split
    case isFalse => exact Ends.throw hleaked
    case isTrue hk =>
      rw [if_pos hk] at hexisting
      -- block 0 is never marked, so the new block is not 0
      have hne : n + 1 ≠ 0 := by
        intro h0
        have hmark : fs.BlockUsed d' (n + 1) := (hused _).mpr (.inr rfl)
        rw [h0] at hmark
        exact absurd hmark.1 (by decide)
      exact Ends.pure (h.alloc hv hk hexisting hstep hfree hused hne)
  · rw [if_neg hexisting]
    by_cases hk : k < 12
    · rw [if_pos hk] at hexisting
      exact Ends.pure (h.pass hk hexisting)
    · exact absurd (if_neg hk) hexisting

/-! ### Storing: the second loop of `write_file_data` -/

/-- Two direct pointers of a sound file differ. -/
theorem pointer_ne {i j : Nat} (h : (fs.refs d inode).Nodup) (hi : i < 12) (hj : j < 12)
    (hset : inode.pointer i ≠ 0) (hij : i ≠ j) : inode.pointer i ≠ inode.pointer j := by
  intro heq
  have hdis := (nodup_refs_iff.mp h).2 i (by omega) j (by omega) hij
  exact hdis ((mem_pointerBlocks_direct hi).mpr ⟨hset, rfl⟩)
    ((mem_pointerBlocks_direct hj).mpr ⟨hset, heq⟩)

variable (fs) in
/-- Block `j` of the data, padded with zeros. -/
def dataBlock (data : List UInt8) (j : Nat) : List UInt8 :=
  (window data (j * fs.blockSize) fs.blockSize).takeD fs.blockSize 0

variable (fs) in
/-- Before turn `k`: the blocks below `k` hold the data, the others what they held. -/
structure Stored (d₁ : Drive) (inode : Inode) (data : List UInt8) (k : Nat) (d : Drive) :
    Prop where
  healthy : d.Healthy
  others : ∀ c, (∀ j < k, c ≠ inode.pointer j) → fs.block d c = fs.block d₁ c
  stored : ∀ j < k, fs.block d (inode.pointer j) = fs.dataBlock data j

theorem writeDataBlock_ends {d₁ : Drive} {data : List UInt8} {k : Nat} (h : fs.Sized)
    (hd : fs.Stored d₁ inode data k d) (hk : k < 12) (hlt : fs.Reached (inode.pointer k))
    (hne : ∀ j < k, inode.pointer k ≠ inode.pointer j) (E : Drive → Prop) :
    Ends (fs.writeDataBlock inode data k) d (fun _ => fs.Stored d₁ inode data (k + 1)) E := by
  have hlen : (fs.dataBlock data k).length = fs.blockSize := List.takeD_length ..
  rw [writeDataBlock, if_pos hk]
  simp only [window_min]
  change Ends (fs.writeBlock (inode.pointer k) (fs.dataBlock data k)) d _ E
  refine Ends.of_exec (exec_writeBlock h hd.healthy hlt hlen)
    ⟨healthy_setBlock.mpr hd.healthy, fun c hc => ?_, fun j hj => ?_⟩
  · rw [block_setBlock_ne h _ hlen (hc k (Nat.lt_succ_self k))]
    exact hd.others c fun j hj => hc j (by omega)
  · rcases Nat.lt_succ_iff_lt_or_eq.mp hj with hj | rfl
    · rw [block_setBlock_ne h _ hlen (hne j hj).symm]
      exact hd.stored j hj
    · exact block_setBlock_self h _ _ hlen

/-- What is stored is what is read. -/
theorem readFileInode_stored {data : List UInt8} (h : fs.Sized) (hd : d.Healthy)
    (hsize : inode.size.toNat = data.length)
    (hlen : (data.length + fs.blockSize - 1) / fs.blockSize ≤ 12)
    (hset : ∀ j < (data.length + fs.blockSize - 1) / fs.blockSize,
      inode.pointer j ≠ 0 ∧ fs.Reached (inode.pointer j) ∧
        fs.block d (inode.pointer j) = fs.dataBlock data j) :
    fs.readFileInode d inode = .ok data := by
  have hchunk : ∀ k ∈ List.range ((data.length + fs.blockSize - 1) / fs.blockSize),
      fs.readFileBlock d inode k = .ok (window data (k * fs.blockSize) fs.blockSize) := by
    intro k hk
    have hk := List.mem_range.mp hk
    obtain ⟨hne, hlt, hblock⟩ := hset k hk
    have hwin : (window data (k * fs.blockSize) fs.blockSize).length =
        min (data.length - k * fs.blockSize) fs.blockSize := by
      simp only [window, List.length_take, List.length_drop]
      omega
    rw [readFileBlock, inodeBlock, if_pos (by omega), hsize]
    simp only [bind, Except.bind, pure, Except.pure, if_neg hne, readBlock_eq h hd hlt, hblock]
    congr 1
    rw [dataBlock, ← hwin]
    exact take_length_takeD _ _ (by omega)
  have hmap := mapM_ok _ _ _ hchunk
  rw [readFileInode, hsize]
  simp only [hmap, bind, Except.bind, pure, Except.pure]
  rw [← List.flatMap_def, flatMap_window, List.take_of_length_le (h.le_blocks _)]

/-! ### Trimming: the third loop of `write_file_data` -/

variable (fs) in
/-- The blocks of a file from block `lo` on that `write_file_data` and `delete_file` free. -/
def freedBlocks (inode : Inode) (lo : Nat) : List UInt32 :=
  (((List.range' lo ((inode.size.toNat + fs.blockSize - 1) / fs.blockSize - lo)).filter
    (· < 12)).map inode.pointer).filter (· ≠ 0)

theorem mem_freedBlocks {lo : Nat} {b : UInt32} :
    b ∈ fs.freedBlocks inode lo ↔ b ≠ 0 ∧
      ∃ j, lo ≤ j ∧ j < (inode.size.toNat + fs.blockSize - 1) / fs.blockSize ∧ j < 12 ∧
        inode.pointer j = b := by
  simp only [freedBlocks, List.mem_filter, List.mem_map, List.mem_range'_1, decide_eq_true_eq]
  constructor
  · rintro ⟨⟨j, ⟨hj, hlt⟩, rfl⟩, hne⟩
    exact ⟨hne, j, by omega, by omega, hlt, rfl⟩
  · rintro ⟨hne, j, hlo, hhi, hlt, rfl⟩
    exact ⟨⟨j, ⟨by omega, hlt⟩, rfl⟩, hne⟩

variable (fs) in
/-- The block is the successor of a freed one: `free_block` clears its mark. -/
def Unmarked (inode : Inode) (lo : Nat) (b : UInt32) : Prop :=
  ∃ e ∈ fs.freedBlocks inode lo, b.toNat = e.toNat + 1

variable (fs) in
/-- Before turn `k` of a loop that frees the blocks from `lo` on. -/
structure Freed (d₂ : Drive) (inode₂ : Inode) (lo k : Nat) (d : Drive) : Prop where
  step : fs.BitmapStep d₂ d
  kept : ∀ b, fs.BlockUsed d₂ b → fs.BlockUsed d b ∨
    ∃ j, lo ≤ j ∧ j < k ∧ j < 12 ∧ inode₂.pointer j ≠ 0 ∧ b.toNat = (inode₂.pointer j).toNat + 1

/-- One more block freed. -/
theorem Freed.next {d₂ : Drive} {inode₂ : Inode} {lo k : Nat} (hloc : fs.Located d₂)
    (h : fs.Freed d₂ inode₂ lo k d) (hk : lo ≤ k) (hk12 : k < 12) (hset : inode₂.pointer k ≠ 0)
    (hstep : fs.BitmapStep d d')
    (hused : ∀ c, fs.BlockUsed d' c ↔
      fs.BlockUsed d c ∧ c.toNat ≠ (inode₂.pointer k).toNat + 1) :
    fs.Freed d₂ inode₂ lo (k + 1) d' where
  step := h.step.trans hloc hstep
  kept := by
    intro b hb
    by_cases heq : b.toNat = (inode₂.pointer k).toNat + 1
    · exact .inr ⟨k, hk, Nat.lt_succ_self k, hk12, hset, heq⟩
    rcases h.kept b hb with hmark | ⟨j, hlo, hj, hrest⟩
    · exact .inl ((hused b).mpr ⟨hmark, heq⟩)
    · exact .inr ⟨j, hlo, by omega, hrest⟩

theorem Freed.pass {d₂ : Drive} {inode₂ : Inode} {lo k : Nat} (h : fs.Freed d₂ inode₂ lo k d) :
    fs.Freed d₂ inode₂ lo (k + 1) d where
  step := h.step
  kept := fun b hb => (h.kept b hb).imp_right fun ⟨j, hlo, hj, hrest⟩ => ⟨j, hlo, by omega, hrest⟩

/-- The whole loop, in terms of the blocks it frees. -/
theorem Freed.unmarked {d₂ : Drive} {inode₂ : Inode} {lo k : Nat} (h : fs.Freed d₂ inode₂ lo k d)
    (hk : lo < k → k ≤ (inode₂.size.toNat + fs.blockSize - 1) / fs.blockSize) :
    ∀ b, fs.BlockUsed d₂ b → fs.BlockUsed d b ∨ fs.Unmarked inode₂ lo b := by
  refine fun b hb => (h.kept b hb).imp_right ?_
  rintro ⟨j, hlo, hj, h12, hset, heq⟩
  exact ⟨_, mem_freedBlocks.mpr ⟨hset, j, hlo, by have := hk (by omega); omega, h12, rfl⟩, heq⟩

variable (fs) in
/-- Before turn `k` of the third loop: the pointers from `lo` on are cleared up to `k`. -/
structure Trimmed (d₂ : Drive) (inode₂ : Inode) (lo k : Nat) (inode : Inode) (d : Drive) :
    Prop where
  freed : fs.Freed d₂ inode₂ lo k d
  nodup : (fs.refs d₂ inode).Nodup
  sub : ∀ b ∈ fs.refs d₂ inode, b ∈ fs.refs d₂ inode₂
  rest : inode = { inode₂ with block := inode.block }
  pointers : ∀ j, inode.pointer j = if lo ≤ j ∧ j < k ∧ j < 12 then 0 else inode₂.pointer j

private theorem freeExcess_ends {d₂ : Drive} {inode₂ : Inode} {lo k : Nat} (hloc : fs.Located d₂)
    (h : fs.Trimmed d₂ inode₂ lo k inode d) (hk : lo ≤ k)
    (hin : k < (inode₂.size.toNat + fs.blockSize - 1) / fs.blockSize) :
    Ends (fs.freeExcess inode k) d (fs.Trimmed d₂ inode₂ lo (k + 1))
      (fun _ => ∃ e ∈ fs.freedBlocks inode₂ lo, 8 * fs.blockSize ≤ e.toNat) := by
  have hsame : inode.pointer k = inode₂.pointer k := by
    rw [h.pointers, if_neg (by omega)]
  rw [freeExcess]
  split
  case isFalse hcond =>
    -- nothing to free at `k`: the pointer is zero or not a direct one
    refine Ends.pure ⟨h.freed.pass, h.nodup, h.sub, h.rest, fun j => ?_⟩
    by_cases hjk : j = k
    · subst hjk
      rw [hsame] at hcond ⊢
      split
      case isTrue hin => exact not_not.mp fun hne => hcond ⟨hin.2.2, hne⟩
      case isFalse => rfl
    · rw [h.pointers]
      exact if_congr (by omega) rfl rfl
  case isTrue hcond =>
    obtain ⟨h12, hset⟩ := hcond
    rw [hsame] at hset
    have hloc' := h.freed.step.located hloc
    refine ((freeBlock_ends hloc' _).mono (fun _ _ hQ => hQ) ?_).bind ?_
    · rintro _ ⟨-, hbig⟩
      rw [hsame] at hbig
      exact ⟨_, mem_freedBlocks.mpr ⟨hset, k, hk, hin, h12, rfl⟩, hbig⟩
    -- the block is free in the bitmap, and then its pointer is cleared
    rintro _ d' ⟨hstep, hused⟩
    rw [hsame] at hused
    refine Ends.pure ⟨h.freed.next hloc hk h12 hset hstep hused,
      nodup_setPointer h12 h.nodup zero_notMem_refs,
      fun b hb => h.sub b (mem_refs_clearPointer h12 hb), ?_, fun j => ?_⟩
    · rw [Inode.setPointer]
      conv_lhs => rw [h.rest]
    · rw [pointer_setPointer (by omega)]
      split
      case isTrue hkj => rw [if_pos (by omega)]
      case isFalse hkj =>
        rw [h.pointers]
        exact if_congr (by omega) rfl rfl

/-- The blocks freed are no longer referred to. -/
theorem Trimmed.released {d₂ : Drive} {inode₂ : Inode} {lo k : Nat}
    (h : fs.Trimmed d₂ inode₂ lo k inode d) (hnodup : (fs.refs d₂ inode₂).Nodup)
    (hk : (inode₂.size.toNat + fs.blockSize - 1) / fs.blockSize ≤ k) :
    ∀ e ∈ fs.freedBlocks inode₂ lo, e ∉ fs.refs d₂ inode := by
  intro e he hmem
  obtain ⟨hne, j, hlo, hhi, h12, rfl⟩ := mem_freedBlocks.mp he
  obtain ⟨i, hi, hmem⟩ := mem_refs.mp hmem
  have hj : inode₂.pointer j ∈ fs.pointerBlocks d₂ inode₂ j :=
    (mem_pointerBlocks_direct h12).mpr ⟨hne, rfl⟩
  rw [pointerBlocks, h.pointers] at hmem
  split at hmem
  case isTrue hcleared =>
    rw [show i - 11 = 0 by omega] at hmem
    cases hmem
  case isFalse hkept =>
    have hij : j ≠ i := by omega
    exact (nodup_refs_iff.mp hnodup).2 j (by omega) i hi hij hj hmem

/-! ### The whole of `write_file_data` -/

variable (fs) in
/-- The number of blocks the data take. -/
def blocksNeeded (data : List UInt8) : Nat := (data.length + fs.blockSize - 1) / fs.blockSize

variable (fs) in
/-- `write_file_data` has returned: the file `inode` on `d` is now `inode'` on `d'`. -/
structure Rewritten (d : Drive) (inode : Inode) (data : List UInt8) (inode' : Inode)
    (d' : Drive) : Prop where
  healthy : d'.Healthy
  others : ∀ b, fs.BlockUsed d b → b ∉ fs.refs d inode → b ≠ (fs.descriptor d).blockBitmap →
    fs.block d' b = fs.block d b
  kept : ∀ b, fs.BlockUsed d b →
    fs.BlockUsed d' b ∨ fs.Unmarked inode (fs.blocksNeeded data) b
  nodup : (fs.refs d' inode').Nodup
  reached : ∀ b ∈ fs.refs d' inode', fs.Reached b
  marked : ∀ b ∈ fs.refs d' inode',
    fs.BlockUsed d' b ∨ fs.Unmarked inode (fs.blocksNeeded data) b
  fresh : ∀ b ∈ fs.refs d' inode', b ∈ fs.refs d inode ∨
    ¬fs.BlockUsed d b ∧ ∃ j < fs.blocksNeeded data, inode.pointer j = 0
  released : ∀ e ∈ fs.freedBlocks inode (fs.blocksNeeded data), e ∉ fs.refs d' inode'
  filled : ∀ j < fs.blocksNeeded data, inode'.pointer j ≠ 0
  contents : fs.readFileInode d' inode' = .ok data
  size : inode'.size = UInt32.ofNat data.length
  mode : inode'.mode = inode.mode
  length : data.length ≤ 12 * fs.blockSize

variable (fs) in
/-- `write_file_data` has failed: marks without an owner, or the panic of freeing the last block
    of the group. -/
def WriteFailed (d : Drive) (inode : Inode) (data : List UInt8) (d' : Drive) : Prop :=
  fs.Leaked d d' ∨ ∃ e ∈ fs.freedBlocks inode (fs.blocksNeeded data), 8 * fs.blockSize ≤ e.toNat

/-- The blocks freed by a write are those of the file as it was. -/
private theorem Grown.freedBlocks_eq {k : Nat} (h : fs.Grown d₀ inode₀ k inode d) :
    fs.freedBlocks inode k = fs.freedBlocks inode₀ k := by
  have hsize : inode.size = inode₀.size := by rw [h.rest]
  rw [freedBlocks, freedBlocks, hsize]
  congr 1
  refine List.map_congr_left fun j hj => ?_
  have hlo : k ≤ j := (List.mem_range'_1.mp (List.mem_filter.mp hj).1).1
  rcases h.pointers j with hp | ⟨-, hlt⟩
  · exact hp
  · omega

theorem blockUsed_congr (hdesc : fs.descriptor d' = fs.descriptor d)
    (hbitmap : fs.block d' (fs.descriptor d).blockBitmap = fs.block d (fs.descriptor d).blockBitmap)
    (b : UInt32) : fs.BlockUsed d' b ↔ fs.BlockUsed d b := by
  rw [BlockUsed, BlockUsed, hdesc, hbitmap]

section Phases

variable {d₁ d₂ d₃ : Drive} {inode₁ inode₃ : Inode} {data : List UInt8} {n m : Nat}

/-- The blocks the second loop writes are the file's, and none of the allocator's own. -/
private theorem Grown.written_mem (hg : fs.Grown d inode n inode₁ d₁) {j : Nat} (hj : j < n) :
    inode₁.pointer j ∈ fs.refs d₁ inode₁ :=
  pointer_mem_refs (by have := hg.reached.1; omega) (hg.reached.2 j hj)

theorem Stored.kept (hg : fs.Grown d inode n inode₁ d₁) (hst : fs.Stored d₁ inode₁ data n d₂)
    {c : UInt32} (hc : c ∉ fs.refs d₁ inode₁) : fs.block d₂ c = fs.block d₁ c :=
  hst.others c fun _ hj heq => hc (heq ▸ hg.written_mem hj)

theorem Stored.located (hv : fs.Volume d) (hg : fs.Grown d inode n inode₁ d₁)
    (hst : fs.Stored d₁ inode₁ data n d₂) :
    fs.Located d₂ ∧ fs.descriptor d₂ = fs.descriptor d := by
  have hdesc := hst.kept hg fun hc => (hg.sound.apart _ hc).1 rfl
  have hloc := hg.step.located hv.toLocated
  exact ⟨hloc.of_kept hst.healthy hdesc,
    (descriptor_congr hdesc).trans (hg.step.descriptor_eq hv.toLocated)⟩

/-- Writing the direct blocks leaves the pointer trees alone. -/
private theorem Stored.refs_eq (hg : fs.Grown d inode n inode₁ d₁)
    (hst : fs.Stored d₁ inode₁ data n d₂) :
    fs.refs d₂ inode₁ = fs.refs d₁ inode₁ := by
  refine refs_congr_trees fun i hi hi15 c hc => hst.others c fun j hj heq => ?_
  have hj12 : j < 12 := by have := hg.reached.1; omega
  have hdis := (nodup_refs_iff.mp hg.sound.nodup).2 j (by omega) i hi15 (by omega)
  exact hdis ((mem_pointerBlocks_direct hj12).mpr ⟨heq ▸ hg.reached.2 j hj, heq⟩) hc

private theorem Rewritten.of_phases (hv : fs.Volume d) (hn : fs.blocksNeeded data = n)
    (hg : fs.Grown d inode n inode₁ d₁) (hst : fs.Stored d₁ inode₁ data n d₂)
    (ht : fs.Trimmed d₂ inode₁ n m inode₃ d₃)
    (hm : n < m → m ≤ (inode₁.size.toNat + fs.blockSize - 1) / fs.blockSize)
    (hall : (inode₁.size.toNat + fs.blockSize - 1) / fs.blockSize ≤ m) :
    fs.Rewritten d inode data { inode₃ with size := UInt32.ofNat data.length } d₃ := by
  obtain ⟨hloc₂, hdesc₂⟩ := hst.located hv hg
  have hdesc₁ : fs.descriptor d₁ = fs.descriptor d := hg.step.descriptor_eq hv.toLocated
  have hn12 : n ≤ 12 := hg.reached.1
  have hlen : data.length ≤ 12 * fs.blockSize := by
    rw [blocksNeeded] at hn
    have hcover := hv.sized.le_blocks data.length
    rw [hn] at hcover
    exact hcover.trans (Nat.mul_le_mul_right _ hn12)
  have hapart : ∀ b ∈ fs.refs d₁ inode₁, b ≠ (fs.descriptor d).blockBitmap :=
    fun b hb => hdesc₁ ▸ (hg.sound.apart b hb).2
  -- the references of the result are among those of the grown file
  have hsub : ∀ b ∈ fs.refs d₂ inode₃, b ∈ fs.refs d₁ inode₁ :=
    fun b hb => hst.refs_eq hg ▸ ht.sub b hb
  have hlast : ∀ b, b ≠ (fs.descriptor d).blockBitmap → fs.block d₃ b = fs.block d₂ b :=
    fun b hb => ht.freed.step.others b (by rwa [hdesc₂])
  have hrefs : fs.refs d₃ inode₃ = fs.refs d₂ inode₃ :=
    refs_congr fun b hb => hlast b (hapart b (hsub b hb))
  have hresult :
      fs.refs d₃ { inode₃ with size := UInt32.ofNat data.length } = fs.refs d₂ inode₃ := hrefs
  have hused₂ : ∀ b, fs.BlockUsed d₂ b ↔ fs.BlockUsed d₁ b := by
    refine blockUsed_congr (hdesc₂.trans hdesc₁.symm) (hst.kept hg fun hc => ?_)
    exact (hg.sound.apart _ hc).2 rfl
  have hunmarked : ∀ b, fs.BlockUsed d₁ b →
      fs.BlockUsed d₃ b ∨ fs.Unmarked inode (fs.blocksNeeded data) b := by
    intro b hb
    rw [hn, Unmarked, ← hg.freedBlocks_eq]
    exact ht.freed.unmarked hm b ((hused₂ b).mpr hb)
  have hptr : ∀ j < n, Inode.pointer { inode₃ with size := UInt32.ofNat data.length } j =
      inode₁.pointer j := fun j hj => (ht.pointers j).trans (if_neg (by omega))
  refine ⟨ht.freed.step.healthy, fun b hb hnot hne => ?_, fun b hb => hunmarked b (hg.kept b hb),
    ?_, ?_, ?_, ?_, ?_, fun j hj => ?_, ?_, rfl, ?_, hlen⟩
  · have hnew : b ∉ fs.refs d₁ inode₁ := fun hb₁ =>
      (hg.fresh b hb₁).elim hnot fun hfree => hfree.1 hb
    rw [hlast b hne, hst.kept hg hnew, hg.step.others b hne]
  · rw [hresult]
    exact ht.nodup
  · rw [hresult]
    exact fun b hb => hg.sound.reached hv.sized b (hsub b hb)
  · rw [hresult]
    exact fun b hb => hunmarked b (hg.sound.used b (hsub b hb))
  · rw [hresult, hn]
    exact fun b hb => hg.fresh b (hsub b hb)
  · rw [hresult, hn, ← hg.freedBlocks_eq]
    exact ht.released (hst.refs_eq hg ▸ hg.sound.nodup) hall
  · rw [hn] at hj
    rw [hptr j hj]
    exact hg.reached.2 j hj
  · have hcount : (data.length + fs.blockSize - 1) / fs.blockSize = n := hn
    have hbounds := hv.sized.bounds
    refine readFileInode_stored hv.sized ht.freed.step.healthy ?_ (by omega) fun j hj => ?_
    · simp only [UInt32.toNat_ofNat']
      omega
    · have hj : j < n := by omega
      have hmem := hg.written_mem hj
      rw [hptr j hj, hlast _ (hapart _ hmem)]
      exact ⟨hg.reached.2 j hj, hg.sound.reached hv.sized _ hmem, hst.stored j hj⟩
  · change inode₃.mode = inode.mode
    rw [ht.rest, hg.rest]

end Phases

/-- Writing a sound file. -/
theorem writeFileData_ends (hv : fs.Volume d) (hs : fs.Sound d inode) (data : List UInt8) :
    Ends (fs.writeFileData inode data) d (fs.Rewritten d inode data)
      (fs.WriteFailed d inode data) := by
  set n := fs.blocksNeeded data with hn
  -- the first loop allocates, the second stores, the third frees
  have hgrow := Ends.foldlM (fs.Grown d inode) (fs.Leaked d) n 0 inode d
    (fun _ _ _ _ _ hI => growBlock_ends hv hI) (.start hv hs)
  refine (hgrow.mono (fun _ _ h => h) fun _ h => .inl h).bind fun inode₁ d₁ hg => ?_
  rw [Nat.zero_add] at hg
  have hn12 : n ≤ 12 := hg.reached.1
  have hturn : ∀ k (_ : Unit) t, 0 ≤ k → k < 0 + n → fs.Stored d₁ inode₁ data k t →
      Ends (fs.writeDataBlock inode₁ data k) t (fun _ => fs.Stored d₁ inode₁ data (k + 1))
        (fs.WriteFailed d inode data) := by
    intro k _ t _ hk hI
    refine writeDataBlock_ends hv.sized hI (by omega)
      (hg.sound.reached hv.sized _ (hg.written_mem (by omega))) (fun j hj => ?_) _
    exact pointer_ne hg.sound.nodup (by omega) (by omega) (hg.reached.2 k (by omega)) (by omega)
  have hstore := Ends.foldlM (fun k _ => fs.Stored d₁ inode₁ data k) (fs.WriteFailed d inode data)
    n 0 () d₁ hturn
    ⟨hg.step.healthy, fun _ _ => rfl, fun _ hj => absurd hj (Nat.not_lt_zero _)⟩
  refine hstore.bind fun _ d₂ hst => ?_
  rw [Nat.zero_add] at hst
  obtain ⟨hloc₂, -⟩ := hst.located hv hg
  set old := (inode₁.size.toNat + fs.blockSize - 1) / fs.blockSize
  have htrim := Ends.foldlM (fs.Trimmed d₂ inode₁ n)
    (fun _ => ∃ e ∈ fs.freedBlocks inode₁ n, 8 * fs.blockSize ≤ e.toNat) (old - n) n inode₁ d₂
    (fun k _ _ hk hk' hI => freeExcess_ends hloc₂ hI hk (by omega))
    ⟨⟨BitmapStep.refl hst.healthy, fun _ hb => .inl hb⟩, hst.refs_eq hg ▸ hg.sound.nodup,
      fun _ hb => hb, rfl, fun _ => (if_neg (by omega)).symm⟩
  -- the third fails at a block whose number is beyond the bitmap
  have hfailed : ∀ t, (∃ e ∈ fs.freedBlocks inode₁ n, 8 * fs.blockSize ≤ e.toNat) →
      fs.WriteFailed d inode data t := by
    intro t h
    rw [hg.freedBlocks_eq, hn] at h
    exact .inr h
  refine (htrim.mono (fun _ _ h => h) hfailed).bind fun inode₃ d₃ ht => ?_
  exact Ends.pure (Rewritten.of_phases hv rfl hg hst ht (by omega) (by omega))

/-! ### Writes that do not shrink the file -/

/-- A write that needs as many blocks as before frees none. -/
theorem freedBlocks_eq_nil {data : List UInt8} (h : inode.size.toNat ≤ data.length) :
    fs.freedBlocks inode (fs.blocksNeeded data) = [] := by
  refine List.eq_nil_iff_forall_not_mem.mpr fun e he => ?_
  obtain ⟨-, j, hlo, hhi, -⟩ := mem_freedBlocks.mp he
  have hle : (inode.size.toNat + fs.blockSize - 1) / fs.blockSize ≤ fs.blocksNeeded data :=
    Nat.div_le_div_right (by omega)
  omega

theorem not_unmarked {data : List UInt8} (h : inode.size.toNat ≤ data.length) (b : UInt32) :
    ¬fs.Unmarked inode (fs.blocksNeeded data) b := by
  rintro ⟨e, he, -⟩
  rw [freedBlocks_eq_nil h] at he
  cases he

/-- A write that finds all its blocks allocated, and frees none, returns. -/
theorem writeFileData_returns {data : List UInt8} (hv : fs.Volume d) (hs : fs.Sound d inode)
    (hroom : fs.blocksNeeded data ≤ 12)
    (hfilled : ∀ j < fs.blocksNeeded data, inode.pointer j ≠ 0)
    (hgrow : inode.size.toNat ≤ data.length) :
    Ends (fs.writeFileData inode data) d (fs.Rewritten d inode data) (fun _ => False) := by
  set n := fs.blocksNeeded data with hn
  have hmem : ∀ j < n, inode.pointer j ∈ fs.refs d inode :=
    fun j hj => pointer_mem_refs (by omega) (hfilled j hj)
  suffices hreturns : Ends (fs.writeFileData inode data) d (fun _ _ => True) (fun _ => False) by
    exact ((writeFileData_ends hv hs data).and hreturns).mono (fun _ _ h => h.1) fun _ h => h.2
  -- no block is missing, so the first loop changes nothing
  have hturn : ∀ k inode' d', 0 ≤ k → k < 0 + n → inode' = inode ∧ d' = d →
      Ends (fs.growBlock inode' k) d' (fun inode'' d'' => inode'' = inode ∧ d'' = d)
        (fun _ => False) := by
    intro k inode' d' _ hk hI
    have hset : ¬(if k < 12 then inode'.pointer k else 0) = 0 := by
      rw [if_pos (by omega), hI.1]
      exact hfilled k (by omega)
    rw [growBlock, if_neg hset]
    exact Ends.pure hI
  have hgrown := Ends.foldlM (fun _ inode' d' => inode' = inode ∧ d' = d) (fun _ => False) n 0
    inode d hturn ⟨rfl, rfl⟩
  refine hgrown.bind fun inode' d' hI => ?_
  rw [hI.1, hI.2]
  have hwrite : ∀ k (_ : Unit) t, 0 ≤ k → k < 0 + n → fs.Stored d inode data k t →
      Ends (fs.writeDataBlock inode data k) t (fun _ => fs.Stored d inode data (k + 1))
        (fun _ => False) := by
    intro k _ t _ hk hI
    refine writeDataBlock_ends hv.sized hI (by omega) (hs.reached hv.sized _ (hmem k (by omega)))
      (fun j hj => ?_) _
    exact pointer_ne hs.nodup (by omega) (by omega) (hfilled k (by omega)) (by omega)
  have hstored := Ends.foldlM (fun k _ => fs.Stored d inode data k) (fun _ => False) n 0 () d hwrite
    ⟨hv.healthy, fun _ _ => rfl, fun _ hj => absurd hj (Nat.not_lt_zero _)⟩
  refine hstored.bind fun _ d₂ _ => ?_
  -- and no block is excess
  have hle : (inode.size.toNat + fs.blockSize - 1) / fs.blockSize ≤ n :=
    Nat.div_le_div_right (by omega)
  have hnone : (inode.size.toNat + fs.blockSize - 1) / fs.blockSize -
      (data.length + fs.blockSize - 1) / fs.blockSize = 0 := by
    rw [hn, blocksNeeded] at hle
    omega
  simp only [hnone]
  exact Ends.pure trivial

theorem Rewritten.descriptor_eq {data : List UInt8} {inode' : Inode} (hv : fs.Volume d)
    (hs : fs.Sound d inode) (h : fs.Rewritten d inode data inode' d') :
    fs.block d' fs.bgDescTableBlock = fs.block d fs.bgDescTableBlock :=
  h.others _ hv.descriptor_used (fun hmem => (hs.apart _ hmem).1 rfl) hv.bitmap_ne.symm

/-- After such a write the volume and the file are as good as before. -/
theorem Rewritten.sound {data : List UInt8} {inode' : Inode} (hv : fs.Volume d)
    (hs : fs.Sound d inode) (h : fs.Rewritten d inode data inode' d')
    (hgrow : inode.size.toNat ≤ data.length) : fs.Volume d' ∧ fs.Sound d' inode' := by
  have hblock := h.descriptor_eq hv hs
  have hdesc : fs.descriptor d' = fs.descriptor d := descriptor_congr hblock
  refine ⟨hv.of_kept h.healthy hblock fun b hb => (h.kept b hb).resolve_right (not_unmarked hgrow b),
    h.nodup, fun b hb => (h.marked b hb).resolve_right (not_unmarked hgrow b), fun b hb => ?_⟩
  rw [hdesc]
  rcases h.fresh b hb with hmem | hfree
  · exact hs.apart b hmem
  · exact ⟨fun heq => hfree.1 (heq ▸ hv.descriptor_used),
      fun heq => hfree.1 (heq ▸ hv.bitmap_used)⟩

end Ext3Fs

end RustKernel.Fs
