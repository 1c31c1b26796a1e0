import RustKernel.Fs.BlockAllocation
import RustKernel.Fs.Groups

/-!
# RustKernel.Fs.GroupWriting

`write_file_data` on a volume of several block groups, with the error it ends in.

The allocator looks at group 0 only and takes the first clear bits of its block bitmap, so the call
succeeds exactly if the file `Fits`: it has direct blocks only, and there is a free bit for each
block that is missing. When it fails, the bits it has taken by then stay set (`Leak`).

## Main results

- `growBlocks_outcome`: the first loop ends in `Extended`, or with an error and `Leak`
- `writeFileData_outcome`: the whole call; a write that does not shrink the file ends in `Wrote`
-/

namespace RustKernel.Fs

open Lib

namespace Ext3Fs

variable {fs : Ext3Fs} {d d' d₀ : Drive} {inode inode' inode₀ : Inode} {data : List UInt8}
  {k n len : Nat}

/-! ### What a write needs -/

variable (fs) in
/-- The number of blocks of a file of `len` bytes. -/
def blockCount (len : Nat) : Nat := (len + fs.blockSize - 1) / fs.blockSize

variable (fs) in
/-- A file of `len` bytes has direct blocks only, and there is a free bit for each missing block. -/
def Fits (d : Drive) (inode : Inode) (len : Nat) : Prop :=
  fs.blockCount len ≤ 12 ∧ missing inode (fs.blockCount len) ≤ (fs.freeBlocks d).length

instance : Decidable (fs.Fits d inode len) := inferInstanceAs (Decidable (_ ∧ _))

variable (fs) in
/-- The bits that the blocks missing among the first `n` get. -/
def grantedBits (d : Drive) (inode : Inode) (n : Nat) : List Nat :=
  (fs.freeBlocks d).take (missing inode n)

variable (fs) in
/-- The block that is stored for the missing block `j`. -/
def newPointer (d : Drive) (inode : Inode) (j : Nat) : UInt32 :=
  UInt32.ofNat ((fs.freeBlocks d).getD (missing inode j) 0 + 1)

private theorem missing_mono (h : k ≤ n) : missing inode k ≤ missing inode n := by
  induction h with
  | refl => exact le_rfl
  | step _ ih =>
    rw [missing_succ]
    omega

private theorem missing_lt (hk : k < n) (hunset : inode.pointer k = 0) :
    missing inode k < missing inode n := by
  have hsucc := missing_succ inode k
  rw [if_pos hunset] at hsucc
  have hmono : missing inode (k + 1) ≤ missing inode n := missing_mono hk
  omega

private theorem freeBlocks_lt (hsized : fs.Sized) (h : k < (fs.freeBlocks d).length) :
    (fs.freeBlocks d)[k] < 8 * fs.blockSize := by
  have hlt := (mem_clearBits.mp (List.getElem_mem h)).1.1
  rwa [length_block hsized] at hlt

/-- The block stored for a missing one, if there is a free bit for it. -/
private theorem newPointer_toNat (hsized : fs.Sized)
    (h : missing inode k < (fs.freeBlocks d).length) :
    (fs.newPointer d inode k).toNat = (fs.freeBlocks d)[missing inode k] + 1 := by
  have hsmall := freeBlocks_lt hsized h
  have hbounds := hsized.bounds
  rw [newPointer, List.getD_eq_getElem _ _ h, UInt32.toNat_ofNat']
  omega

/-- It is the block of a bit that the call gets. -/
private theorem newPointer_granted (hsized : fs.Sized) (hk : k < n) (hunset : inode.pointer k = 0)
    (hroom : missing inode n ≤ (fs.freeBlocks d).length) :
    ∃ i ∈ fs.grantedBits d inode n,
      i < 8 * fs.blockSize ∧ (fs.newPointer d inode k).toNat = i + 1 := by
  have hlt := missing_lt hk hunset
  refine ⟨_, ?_, freeBlocks_lt hsized (by omega), newPointer_toNat hsized (by omega)⟩
  rw [grantedBits, List.mem_take_iff_getElem]
  exact ⟨missing inode k, by omega, rfl⟩

private theorem newPointer_ne_zero (hsized : fs.Sized) (hk : k < n) (hunset : inode.pointer k = 0)
    (hroom : missing inode n ≤ (fs.freeBlocks d).length) : fs.newPointer d inode k ≠ 0 := by
  obtain ⟨i, -, -, hi⟩ := newPointer_granted hsized hk hunset hroom
  intro hzero
  rw [hzero, UInt32.toNat_zero] at hi
  omega

/-- The blocks stored for two missing ones differ. -/
private theorem newPointer_ne (hsized : fs.Sized) {i j : Nat} (hij : i < j) (hj : j < n)
    (hi0 : inode.pointer i = 0)
    (hj0 : inode.pointer j = 0) (hroom : missing inode n ≤ (fs.freeBlocks d).length) :
    fs.newPointer d inode i ≠ fs.newPointer d inode j := by
  have hlt := missing_lt hij hi0
  have hlt' := missing_lt hj hj0
  intro heq
  have hnat := congrArg UInt32.toNat heq
  rw [newPointer_toNat hsized (by omega), newPointer_toNat hsized (by omega)] at hnat
  have hsorted := List.pairwise_iff_getElem.mp (clearBits_sorted
    (fs.block d (fs.place d (.blockBitmap 0))) fs.blocksPerGroup.toNat) _ _
    (lt_of_lt_of_le (hlt.trans hlt') hroom) (lt_of_lt_of_le hlt' hroom) hlt
  simp only [freeBlocks] at hnat
  omega

/-! ### The first loop: missing blocks are allocated -/

variable (fs) in
/-- Before turn `k`: the blocks missing among the first `k` have got the first clear bits. -/
structure Extended (d₀ : Drive) (inode₀ : Inode) (k : Nat) (inode : Inode) (d : Drive) : Prop where
  sized : fs.Sized
  marks : fs.BitsChanged d₀ d (fs.place d₀ (.blockBitmap 0))
    fun i => fs.blockBit d₀ 0 i || decide (i ∈ fs.grantedBits d₀ inode₀ k)
  free : fs.freeBlocks d = (fs.freeBlocks d₀).drop (missing inode₀ k)
  room : missing inode₀ k ≤ (fs.freeBlocks d₀).length
  same : missing inode₀ k = 0 → d = d₀
  rest : inode = { inode₀ with block := inode.block }
  pointers : ∀ j, inode.pointer j =
    if j < k ∧ inode₀.pointer j = 0 then fs.newPointer d₀ inode₀ j else inode₀.pointer j
  reached : k ≤ 12

variable (fs) in
/-- What a failed loop leaves: bits of the block bitmap are set that were clear, if there were any,
    and nothing else has changed. -/
structure Leak (d₀ d : Drive) : Prop where
  healthy : d.Healthy
  others : ∀ c, c ≠ fs.place d₀ (.blockBitmap 0) → fs.block d c = fs.block d₀ c
  kept : ∀ i, fs.blockBit d₀ 0 i = true →
    bitAt (fs.block d (fs.place d₀ (.blockBitmap 0))) i = true
  full : fs.freeBlocks d₀ = [] → d = d₀
  taken : fs.freeBlocks d₀ ≠ [] →
    ∃ i ∈ fs.freeBlocks d₀, bitAt (fs.block d (fs.place d₀ (.blockBitmap 0))) i = true

theorem Extended.start (hg : fs.Grouped d₀) (inode₀ : Inode) :
    fs.Extended d₀ inode₀ 0 inode₀ d₀ where
  sized := hg.sized
  marks := ⟨hg.healthy, fun _ _ => rfl, fun i => by simp [blockBit, grantedBits, missing]⟩
  free := rfl
  room := Nat.zero_le _
  same := fun _ => rfl
  rest := rfl
  pointers := fun j => by rw [if_neg (by omega)]
  reached := Nat.zero_le _

theorem Extended.grouped (hg : fs.Grouped d₀) (h : fs.Extended d₀ inode₀ k inode d) :
    fs.KeptGroups d₀ d := hg.bitsChanged (blockBitmap_mem hg.groups) nofun h.marks

theorem Extended.pass (h : fs.Extended d₀ inode₀ k inode d) (hk : k < 12)
    (hset : inode₀.pointer k ≠ 0) : fs.Extended d₀ inode₀ (k + 1) inode d := by
  have hsucc : missing inode₀ (k + 1) = missing inode₀ k := by
    rw [missing_succ, if_neg hset, Nat.add_zero]
  have hgranted : fs.grantedBits d₀ inode₀ (k + 1) = fs.grantedBits d₀ inode₀ k := by
    rw [grantedBits, hsucc, grantedBits]
  refine ⟨h.sized, hgranted ▸ h.marks, hsucc ▸ h.free, hsucc ▸ h.room, hsucc ▸ h.same, h.rest,
    fun j => ?_, hk⟩
  rw [h.pointers]
  by_cases hj : j = k
  · subst hj
    rw [if_neg (by omega), if_neg fun hboth => hset hboth.2]
  · exact if_congr (and_congr_left fun _ => by omega) rfl rfl

/-- A turn that takes the next clear bit. -/
theorem Extended.alloc (hg : fs.Grouped d₀) (h : fs.Extended d₀ inode₀ k inode d) (hk : k < 12)
    (hunset : inode₀.pointer k = 0) {bit : UInt32}
    (hcons : fs.freeBlocks d = bit.toNat :: fs.freeBlocks d')
    (hbits : fs.BitsChanged d d' (fs.place d (.blockBitmap 0))
      fun j => fs.blockBit d 0 j || decide (bit.toNat = j)) :
    fs.Extended d₀ inode₀ (k + 1) (inode.setPointer k (bit + 1)) d' := by
  have hplace := (h.grouped hg).place hg.sized (blockBitmap_mem hg.groups)
  have hsucc : missing inode₀ (k + 1) = missing inode₀ k + 1 := by
    rw [missing_succ, if_pos hunset]
  -- the bit is the next one of the list
  have hdrop : (fs.freeBlocks d₀).drop (missing inode₀ k) = bit.toNat :: fs.freeBlocks d' := by
    rw [← h.free, hcons]
  have hlen := congrArg List.length hdrop
  rw [List.length_drop, List.length_cons] at hlen
  have hget : (fs.freeBlocks d₀).getD (missing inode₀ k) 0 = bit.toNat := by
    have hhead := congrArg (fun l => l.getD 0 0) hdrop
    simpa [List.getD_eq_getElem?_getD, List.getElem?_drop] using hhead
  have hgranted : fs.grantedBits d₀ inode₀ (k + 1) = fs.grantedBits d₀ inode₀ k ++ [bit.toNat] := by
    have hin : missing inode₀ k < (fs.freeBlocks d₀).length := by omega
    rw [grantedBits, hsucc, List.take_succ_eq_append_getElem hin, grantedBits,
      ← List.getD_eq_getElem _ 0 hin, hget]
  refine ⟨h.sized, ⟨hbits.healthy, fun c hc => ?_, fun j => ?_⟩, ?_, by omega,
    fun hzero => by omega, ?_, fun j => ?_, hk⟩
  · rw [hbits.others c (by rwa [hplace]), h.marks.others c hc]
  · rw [← hplace, hbits.bits, hgranted, blockBit, hplace, h.marks.bits, Bool.or_assoc]
    simp [eq_comm, Bool.decide_or]
  · rw [hsucc, ← List.drop_drop, hdrop]
    rfl
  · rw [Inode.setPointer]
    conv_lhs => rw [h.rest]
  · rw [pointer_setPointer (by omega)]
    split
    case isTrue hkj =>
      subst hkj
      rw [if_pos ⟨Nat.lt_succ_self k, hunset⟩, newPointer, hget, UInt32.ofNat_add,
        UInt32.ofNat_toNat]
      rfl
    case isFalse hkj =>
      rw [h.pointers]
      exact if_congr (and_congr_left fun _ => by omega) rfl rfl

/-- The bits that a loop has taken when it fails stay set. -/
private theorem Extended.leak (h : fs.Extended d₀ inode₀ k inode d) (hnone : fs.freeBlocks d = []) :
    missing inode₀ k = (fs.freeBlocks d₀).length ∧ fs.Leak d₀ d := by
  have hall : missing inode₀ k = (fs.freeBlocks d₀).length := by
    have hdrop := List.drop_eq_nil_iff.mp (h.free.symm.trans hnone)
    have hroom := h.room
    omega
  refine ⟨hall, h.marks.healthy, h.marks.others, fun i hi => ?_, fun hfull => ?_, fun hne => ?_⟩
  · rw [h.marks.bits, hi, Bool.true_or]
  · apply h.same
    rw [hall, hfull]
    rfl
  · obtain ⟨i, hi⟩ := List.exists_mem_of_ne_nil _ hne
    refine ⟨i, hi, ?_⟩
    rw [h.marks.bits, grantedBits, hall, List.take_length, decide_eq_true hi, Bool.or_true]

/-- One turn: it fails if the blocks up to it do not fit. -/
private theorem growBlock_outcome (hg : fs.Grouped d₀) (h : fs.Extended d₀ inode₀ k inode d) :
    Outcome (fs.growBlock inode k) d (fs.Extended d₀ inode₀ (k + 1))
      (fun e d' => ¬(k + 1 ≤ 12 ∧ missing inode₀ (k + 1) ≤ (fs.freeBlocks d₀).length) ∧
        (∃ msg, e = .error msg) ∧ fs.Leak d₀ d') := by
  have hgrouped := hg.of_kept (h.grouped hg)
  have hplace := (h.grouped hg).place hg.sized (blockBitmap_mem hg.groups)
  have hpointer : inode.pointer k = inode₀.pointer k := by
    rw [h.pointers, if_neg (by omega)]
  rw [growBlock, hpointer]
  by_cases hexisting : (if k < 12 then inode₀.pointer k else 0) = 0
  case neg =>
    rw [if_neg hexisting]
    by_cases hk : k < 12
    · rw [if_pos hk] at hexisting
      exact Outcome.pure (h.pass hk hexisting)
    · exact absurd (if_neg hk) hexisting
  case pos =>
    rw [if_pos hexisting]
    refine (hgrouped.allocBlock.mono (fun _ _ hQ => hQ) ?_).bind ?_
    · -- no bit is left
      rintro e _ ⟨hnone, rfl, rfl⟩
      obtain ⟨hall, hleak⟩ := h.leak hnone
      refine ⟨fun hfits => ?_, ⟨_, rfl⟩, hleak⟩
      rw [if_pos (by omega)] at hexisting
      rw [missing_succ, if_pos hexisting] at hfits
      omega
    rintro bit d' ⟨hcons, hbits⟩
    by_cases hk : k < 12
    · rw [if_pos hk] at hexisting ⊢
      exact Outcome.pure (h.alloc hg hk hexisting hcons hbits)
    · -- an indirect block is not supported, but the bit has been taken
      rw [if_neg hk]
      have hmem : bit.toNat ∈ fs.freeBlocks d₀ := by
        apply List.mem_of_mem_drop (i := missing inode₀ k)
        rw [← h.free, hcons]
        exact List.mem_cons_self
      refine Outcome.throw ⟨by omega, ⟨_, rfl⟩, hbits.healthy, fun c hc => ?_, fun i hi => ?_,
        fun hfull => ?_, fun _ => ⟨bit.toNat, hmem, ?_⟩⟩
      · rw [hbits.others c (by rwa [hplace]), h.marks.others c hc]
      · rw [← hplace, hbits.bits, blockBit, hplace, h.marks.bits, hi, Bool.true_or, Bool.true_or]
      · rw [hfull] at hmem
        cases hmem
      · rw [← hplace, hbits.bits, decide_eq_true rfl, Bool.or_true]

/-- The loop succeeds exactly if the file fits. -/
theorem growBlocks_outcome (hg : fs.Grouped d) (inode : Inode) (len : Nat) :
    Outcome ((List.range' 0 (fs.blockCount len)).foldlM fs.growBlock inode) d
      (fun inode' d' => fs.Fits d inode len ∧ fs.Extended d inode (fs.blockCount len) inode' d')
      (fun e d' => ¬fs.Fits d inode len ∧ (∃ msg, e = .error msg) ∧ fs.Leak d d') := by
  have hturn : ∀ k inode' t, 0 ≤ k → k < 0 + fs.blockCount len → fs.Extended d inode k inode' t →
      Outcome (fs.growBlock inode' k) t (fs.Extended d inode (k + 1))
        (fun e d' => ¬fs.Fits d inode len ∧ (∃ msg, e = .error msg) ∧ fs.Leak d d') := by
    intro k inode' t _ hk hI
    refine (growBlock_outcome hg hI).mono (fun _ _ h => h) ?_
    rintro e t ⟨hshort, hfailed⟩
    refine ⟨fun hfits => hshort ?_, hfailed⟩
    have hmono : missing inode (k + 1) ≤ missing inode (fs.blockCount len) := missing_mono (by omega)
    obtain ⟨hdirect, hroom⟩ := hfits
    omega
  have hloop := Outcome.foldlM (fs.Extended d inode) _ (fs.blockCount len) 0 inode d hturn
    (.start hg inode)
  rw [Nat.zero_add] at hloop
  exact hloop.mono (fun _ _ h => ⟨⟨h.reached, h.room⟩, h⟩) fun _ _ h => h

/-! ### The blocks of the grown file -/

variable (fs) in
/-- The blocks of the file are distinct and no metadata, and the blocks that a write of `n` blocks
    gets are neither. -/
structure Writable (d : Drive) (inode : Inode) (n : Nat) : Prop where
  nodup : (fs.refs d inode).Nodup
  reached : ∀ b ∈ fs.refs d inode, fs.Reached b
  outside : ∀ b ∈ fs.refs d inode, ∀ m ∈ fs.metaBlocks, b ≠ fs.place d m
  fresh : ∀ i ∈ fs.grantedBits d inode n, ∀ b : UInt32, b.toNat = i + 1 →
    b ∉ fs.refs d inode ∧ ∀ m ∈ fs.metaBlocks, b ≠ fs.place d m

/-- Direct pointers that are set to blocks the file does not have leave its blocks distinct. -/
private theorem nodup_refs_of_pointers (h : (fs.refs d inode).Nodup)
    (hhigh : ∀ j, 12 ≤ j → inode'.pointer j = inode.pointer j)
    (hlow : ∀ j < 12, inode'.pointer j = inode.pointer j ∨ inode'.pointer j ∉ fs.refs d inode)
    (hne : ∀ i j, i < j → j < 12 → inode'.pointer i ≠ 0 → inode'.pointer i ≠ inode'.pointer j) :
    (fs.refs d inode').Nodup := by
  obtain ⟨hone, htwo⟩ := nodup_refs_iff.mp h
  have htree : ∀ j, 12 ≤ j → fs.pointerBlocks d inode' j = fs.pointerBlocks d inode j := by
    intro j hj
    rw [pointerBlocks, pointerBlocks, hhigh j hj]
  -- a direct block is in no tree
  have hapart : ∀ i < 12, ∀ j < 15, 12 ≤ j →
      (fs.pointerBlocks d inode' i).Disjoint (fs.pointerBlocks d inode' j) := by
    intro i hi j hj hj12 c hc hc'
    rw [htree j hj12] at hc'
    obtain ⟨hzero, rfl⟩ := (mem_pointerBlocks_direct hi).mp hc
    rcases hlow i hi with hsame | hnew
    · exact htwo i (by omega) j hj (by omega)
        ((mem_pointerBlocks_direct hi).mpr ⟨hzero, hsame⟩) hc'
    · exact hnew (mem_refs.mpr ⟨j, hj, hc'⟩)
  refine nodup_refs_iff.mpr ⟨fun j hj => ?_, fun i hi j hj hij => ?_⟩
  · by_cases hj12 : j < 12
    · rw [pointerBlocks, show j - 11 = 0 by omega, treeBlocks]
      split <;> simp
    · rw [htree j (by omega)]
      exact hone j hj
  · by_cases hi12 : i < 12 <;> by_cases hj12 : j < 12
    · intro c hc hc'
      obtain ⟨hzero, rfl⟩ := (mem_pointerBlocks_direct hi12).mp hc
      obtain ⟨hzero', heq⟩ := (mem_pointerBlocks_direct hj12).mp hc'
      rcases Nat.lt_or_gt_of_ne hij with hlt | hlt
      · exact hne i j hlt hj12 hzero heq
      · exact hne j i hlt hi12 (heq ▸ hzero) heq.symm
    · exact hapart i hi12 j hj (by omega)
    · exact (hapart j hj12 i hi (by omega)).symm
    · rw [htree i (by omega), htree j (by omega)]
      exact htwo i hi j hj hij

namespace Extended

/-- The pointer of a block that was missing, or the old one. -/
private theorem pointer_cases (h : fs.Extended d₀ inode₀ n inode d) (j : Nat) :
    inode.pointer j = inode₀.pointer j ∨ (j < n ∧ inode₀.pointer j = 0 ∧
      inode.pointer j = fs.newPointer d₀ inode₀ j) := by
  rw [h.pointers]
  split
  case isTrue hnew => exact .inr ⟨hnew.1, hnew.2, rfl⟩
  case isFalse => exact .inl rfl

private theorem pointer_ne_zero (h : fs.Extended d₀ inode₀ n inode d) {j : Nat} (hj : j < n) :
    inode.pointer j ≠ 0 := by
  rw [h.pointers]
  split
  case isTrue hnew => exact newPointer_ne_zero h.sized hj hnew.2 h.room
  case isFalse hold => exact fun hzero => hold ⟨hj, hzero⟩

private theorem new_notMem (hw : fs.Writable d₀ inode₀ n) (h : fs.Extended d₀ inode₀ n inode d)
    {j : Nat} (hj : j < n) (hunset : inode₀.pointer j = 0) :
    fs.newPointer d₀ inode₀ j ∉ fs.refs d₀ inode₀ := by
  obtain ⟨i, hi, -, hnat⟩ := newPointer_granted h.sized hj hunset h.room
  exact (hw.fresh i hi _ hnat).1

private theorem pointers_ne (hw : fs.Writable d₀ inode₀ n) (h : fs.Extended d₀ inode₀ n inode d)
    {i j : Nat} (hij : i < j) (hj : j < 12) (hset : inode.pointer i ≠ 0) :
    inode.pointer i ≠ inode.pointer j := by
  rcases h.pointer_cases i with hi | ⟨hin, hi0, hi⟩ <;>
    rcases h.pointer_cases j with hj' | ⟨hjn, hj0, hj'⟩
  · rw [hi] at hset ⊢
    rw [hj']
    exact pointer_ne hw.nodup (by omega) hj hset (by omega)
  · rw [hi, hj']
    intro heq
    apply h.new_notMem hw hjn hj0
    rw [← heq]
    exact pointer_mem_refs (by omega) (hi ▸ hset)
  · rw [hi, hj']
    intro heq
    apply h.new_notMem hw hin hi0
    rw [heq]
    exact pointer_mem_refs (by omega) (heq ▸ hi ▸ hset)
  · rw [hi, hj']
    exact newPointer_ne h.sized hij hjn hi0 hj0 h.room

theorem nodup (hw : fs.Writable d₀ inode₀ n) (h : fs.Extended d₀ inode₀ n inode d) :
    (fs.refs d₀ inode).Nodup := by
  have hn := h.reached
  apply nodup_refs_of_pointers hw.nodup
  · intro j hj
    rw [h.pointers, if_neg (by omega)]
  · intro j _
    rcases h.pointer_cases j with hold | ⟨hjn, hj0, hnew⟩
    · exact .inl hold
    · rw [hnew]
      exact .inr (h.new_notMem hw hjn hj0)
  · intro i j hij hj hset
    exact h.pointers_ne hw hij hj hset

/-- The blocks of the grown file are old ones, or those of bits it got. -/
theorem mem_refs (h : fs.Extended d₀ inode₀ n inode d) {b : UInt32} (hb : b ∈ fs.refs d₀ inode) :
    b ∈ fs.refs d₀ inode₀ ∨
      ∃ i ∈ fs.grantedBits d₀ inode₀ n, i < 8 * fs.blockSize ∧ b.toNat = i + 1 := by
  have hn := h.reached
  obtain ⟨j, hj, hmem⟩ := Ext3Fs.mem_refs.mp hb
  rcases h.pointer_cases j with hold | ⟨hjn, hj0, hnew⟩
  · left
    refine Ext3Fs.mem_refs.mpr ⟨j, hj, ?_⟩
    rwa [pointerBlocks, ← hold]
  · right
    obtain ⟨-, rfl⟩ := (mem_pointerBlocks_direct (by omega)).mp hmem
    rw [hnew]
    exact newPointer_granted h.sized hjn hj0 h.room

end Extended

/-! ### The second loop: the data is written -/

private theorem storeBlocks_outcome (h : fs.Sized) (hd : d.Healthy) (hn : n ≤ 12)
    (hlt : ∀ j < n, fs.Reached (inode.pointer j))
    (hne : ∀ i j, i < j → j < n → inode.pointer i ≠ inode.pointer j) (data : List UInt8) :
    Outcome ((List.range' 0 n).foldlM (fun _ blkIdx => fs.writeDataBlock inode data blkIdx) ()) d
      (fun _ => fs.Stored d inode data n) (fun _ _ => False) := by
  have hturn : ∀ k (_ : Unit) t, 0 ≤ k → k < 0 + n → fs.Stored d inode data k t →
      Outcome (fs.writeDataBlock inode data k) t (fun _ => fs.Stored d inode data (k + 1))
        (fun _ _ => False) := by
    intro k _ t _ hk hI
    exact (writeDataBlock_ends h hI (by omega) (hlt k (by omega))
      (fun j hj => (hne j k hj (by omega)).symm) _).outcome
  have hloop := Outcome.foldlM (fun k (_ : Unit) => fs.Stored d inode data k) _ n 0 () d hturn
    ⟨hd, fun _ _ => rfl, fun _ hj => absurd hj (Nat.not_lt_zero _)⟩
  rwa [Nat.zero_add] at hloop

/-! ### The whole call -/

variable (fs) in
/-- `write_file_data` has returned without freeing a block. -/
structure Wrote (d : Drive) (inode : Inode) (data : List UInt8) (inode' : Inode) (d' : Drive) :
    Prop where
  healthy : d'.Healthy
  others : ∀ c, c ≠ fs.place d (.blockBitmap 0) →
    (∀ j < fs.blockCount data.length, c ≠ inode'.pointer j) → fs.block d' c = fs.block d c
  marks : ∀ i, bitAt (fs.block d' (fs.place d (.blockBitmap 0))) i =
    (fs.blockBit d 0 i || decide (i ∈ fs.grantedBits d inode (fs.blockCount data.length)))
  free : clearBits (fs.block d' (fs.place d (.blockBitmap 0))) fs.blocksPerGroup.toNat =
    (fs.freeBlocks d).drop (missing inode (fs.blockCount data.length))
  fits : fs.Fits d inode data.length
  pointers : ∀ j, inode'.pointer j = if j < fs.blockCount data.length ∧ inode.pointer j = 0 then
    fs.newPointer d inode j else inode.pointer j
  contents : fs.readFileInode d' inode' = .ok data
  size : inode'.size.toNat = data.length
  mode : inode'.mode = inode.mode
  nodup : (fs.refs d' inode').Nodup
  blocks : ∀ b ∈ fs.refs d' inode', b ∈ fs.refs d inode ∨
    ∃ i ∈ fs.grantedBits d inode (fs.blockCount data.length), i < 8 * fs.blockSize ∧ b.toNat = i + 1
  written : ∀ j < fs.blockCount data.length, inode'.pointer j ∈ fs.refs d' inode'

private theorem Wrote.of_loops (hg : fs.Grouped d)
    (hw : fs.Writable d inode (fs.blockCount data.length))
    {inode₁ : Inode} {d₁ d₂ : Drive} (hfits : fs.Fits d inode data.length)
    (he : fs.Extended d inode (fs.blockCount data.length) inode₁ d₁)
    (hs : fs.Stored d₁ inode₁ data (fs.blockCount data.length) d₂) :
    fs.Wrote d inode data { inode₁ with size := UInt32.ofNat data.length } d₂ := by
  set n := fs.blockCount data.length with hn
  have hn12 : n ≤ 12 := he.reached
  have hlen : data.length ≤ 12 * fs.blockSize := by
    have hcover := hg.sized.le_blocks data.length
    rw [blockCount] at hn
    rw [← hn] at hcover
    exact hcover.trans (Nat.mul_le_mul_right _ hn12)
  have hbounds := hg.sized.bounds
  have hsize : (UInt32.ofNat data.length).toNat = data.length := by
    rw [UInt32.toNat_ofNat']
    omega
  have hmem : ∀ j < n, inode₁.pointer j ∈ fs.refs d inode₁ :=
    fun j hj => pointer_mem_refs (by omega) (he.pointer_ne_zero hj)
  -- the bitmap is no block of the file
  have hbitmap : ∀ j < n, fs.place d (.blockBitmap 0) ≠ inode₁.pointer j := by
    intro j hj heq
    have hin := blockBitmap_mem hg.groups
    rcases he.mem_refs (hmem j hj) with hold | ⟨i, hi, -, hnat⟩
    · exact hw.outside _ hold _ hin heq.symm
    · exact (hw.fresh i hi _ hnat).2 _ hin heq.symm
  have hmarks := hs.others _ hbitmap
  have hothers : ∀ c, c ≠ fs.place d (.blockBitmap 0) → (∀ j < n, c ≠ inode₁.pointer j) →
      fs.block d₂ c = fs.block d c := by
    intro c hc hnew
    rw [hs.others c hnew, he.marks.others c hc]
  -- the trees of the file are neither the bitmap nor written
  have hnodup := he.nodup hw
  have hrefs : fs.refs d₂ inode₁ = fs.refs d inode₁ := by
    refine refs_congr_trees fun i hi hi15 c hc => hothers c ?_ fun j hj heq => ?_
    · rintro rfl
      have hold : inode₁.pointer i = inode.pointer i := by
        rw [he.pointers, if_neg (by omega)]
      rw [pointerBlocks, hold] at hc
      exact hw.outside _ (Ext3Fs.mem_refs.mpr ⟨i, hi15, hc⟩) _ (blockBitmap_mem hg.groups) rfl
    · have hdisjoint := (nodup_refs_iff.mp hnodup).2 j (by omega) i hi15 (by omega)
      exact hdisjoint ((mem_pointerBlocks_direct (by omega)).mpr
        ⟨heq ▸ he.pointer_ne_zero hj, heq⟩) hc
  have hblocks : ∀ b ∈ fs.refs d inode₁, fs.Reached b := by
    intro b hb
    rcases he.mem_refs hb with hold | ⟨i, -, hi, hnat⟩
    · exact hw.reached b hold
    · exact hg.sized.reached (by omega)
  refine ⟨hs.healthy, hothers, fun i => ?_, ?_, hfits, he.pointers, ?_, hsize, ?_, ?_, ?_, ?_⟩
  · rw [hmarks, he.marks.bits]
  · rw [hmarks, ← (he.grouped hg).place hg.sized (blockBitmap_mem hg.groups)]
    exact he.free
  · refine readFileInode_stored hg.sized hs.healthy hsize hn12 fun j hj => ?_
    exact ⟨he.pointer_ne_zero hj, hblocks _ (hmem j hj), hs.stored j hj⟩
  · change inode₁.mode = inode.mode
    rw [he.rest]
  · change (fs.refs d₂ inode₁).Nodup
    rw [hrefs]
    exact hnodup
  · change ∀ b ∈ fs.refs d₂ inode₁, _
    rw [hrefs]
    exact fun b hb => he.mem_refs hb
  · change ∀ j < n, inode₁.pointer j ∈ fs.refs d₂ inode₁
    rw [hrefs]
    exact hmem

/-- No block within the new size is missing. -/
theorem Wrote.filled (hsized : fs.Sized) (h : fs.Wrote d inode data inode' d') {j : Nat}
    (hj : j < fs.blockCount data.length) : inode'.pointer j ≠ 0 := by
  rw [h.pointers]
  split
  case isTrue hnew => exact newPointer_ne_zero hsized hj hnew.2 h.fits.2
  case isFalse hold => exact fun hzero => hold ⟨hj, hzero⟩

/-- The metadata other than the block bitmap are not written. -/
theorem Wrote.block_meta (hg : fs.Grouped d) (hw : fs.Writable d inode (fs.blockCount data.length))
    (h : fs.Wrote d inode data inode' d') {m : MetaBlock} (hm : m ∈ fs.metaBlocks)
    (hne : m ≠ .blockBitmap 0) : fs.block d' (fs.place d m) = fs.block d (fs.place d m) := by
  refine h.others _ (hg.place_ne hm (blockBitmap_mem hg.groups) hne) fun j hj heq => ?_
  rcases h.blocks _ (h.written j hj) with hold | ⟨i, hi, -, hnat⟩
  · exact hw.outside _ hold m hm heq.symm
  · exact (hw.fresh i hi _ hnat).2 m hm heq.symm

theorem Wrote.keptGroups (hg : fs.Grouped d) (hw : fs.Writable d inode (fs.blockCount data.length))
    (h : fs.Wrote d inode data inode' d') : fs.KeptGroups d d' where
  healthy := h.healthy
  descriptors := fun k hk => by
    have hmem : MetaBlock.descriptors k ∈ fs.metaBlocks :=
      List.mem_append_left _ (List.mem_map_of_mem (List.mem_range.mpr hk))
    exact h.block_meta hg hw hmem nofun

section Set

variable {d₁ : Drive} {node : Inode} {i : UInt32}

/-- What holds no inode written after it is as `write_file_data` left it. -/
theorem Wrote.block_set (hg : fs.Grouped d) (hw : fs.Writable d inode (fs.blockCount data.length))
    (h : fs.Wrote d inode data inode' d₁) (hi : fs.InodeNumber i) (hset : fs.InodeSet d₁ i node d')
    {m : MetaBlock} (hm : m ∈ fs.metaBlocks) (hne : m ≠ fs.slotOf i) :
    fs.block d' (fs.place d' m) = fs.block d₁ (fs.place d m) := by
  have hkept := h.keptGroups hg hw
  have hg₁ := hg.of_kept hkept
  rw [(hset.keptGroups hg₁ hi).place hg.sized hm,
    hset.others _ (hg₁.place_ne hm (slotOf_mem hg.sized hi) hne),
    hkept.place hg.sized hm]

/-- The bits that the file got are set in the block bitmap of group 0. -/
theorem Wrote.blockBit_set (hg : fs.Grouped d)
    (hw : fs.Writable d inode (fs.blockCount data.length))
    (h : fs.Wrote d inode data inode' d₁) (hi : fs.InodeNumber i) (hset : fs.InodeSet d₁ i node d')
    {g : Nat} (hlt : g < fs.bgCount.toNat) (j : Nat) :
    fs.blockBit d' g j = (fs.blockBit d g j ||
      decide (g = 0 ∧ j ∈ fs.grantedBits d inode (fs.blockCount data.length))) := by
  have hm := blockBitmap_mem hlt
  rw [blockBit, h.block_set hg hw hi hset hm (by simp [slotOf])]
  by_cases hzero : g = 0
  · subst hzero
    rw [h.marks]
    simp
  · rw [h.block_meta hg hw hm (by simpa using hzero), ← blockBit]
    simp [hzero]

/-- The inode bitmaps are as before. -/
theorem Wrote.inodeBit_set (hg : fs.Grouped d)
    (hw : fs.Writable d inode (fs.blockCount data.length))
    (h : fs.Wrote d inode data inode' d₁) (hi : fs.InodeNumber i) (hset : fs.InodeSet d₁ i node d')
    {g : Nat} (hlt : g < fs.bgCount.toNat) (j : Nat) :
    fs.inodeBit d' g j = fs.inodeBit d g j := by
  have hm := inodeBitmap_mem hlt
  rw [inodeBit, h.block_set hg hw hi hset hm nofun, h.block_meta hg hw hm nofun, inodeBit]

end Set

/-- A turn of the third loop returns or panics. -/
private theorem freeExcess_outcome (hg : fs.Grouped d) (inode : Inode) (k : Nat) :
    Outcome (fs.freeExcess inode k) d (fun _ d' => fs.Grouped d') (fun e _ => e = .panic) := by
  rw [freeExcess]
  split
  case isFalse => exact Outcome.pure hg
  case isTrue =>
    refine ((hg.freeBlock _).mono (fun _ _ hQ => hQ) fun _ _ hE => hE.2.2).bind ?_
    rintro _ d' ⟨-, hbits⟩
    exact Outcome.pure (hg.of_kept (hg.bitsChanged (blockBitmap_mem hg.groups) (by simp) hbits))

/-- `write_file_data` fails exactly if the file does not fit, and it panics only while it frees
    blocks. -/
theorem writeFileData_outcome (hg : fs.Grouped d)
    (hw : fs.Fits d inode data.length → fs.Writable d inode (fs.blockCount data.length)) :
    Outcome (fs.writeFileData inode data) d
      (fun inode' d' => fs.Grouped d' ∧ fs.Fits d inode data.length ∧
        (inode.size.toNat ≤ data.length → fs.Wrote d inode data inode' d'))
      (fun e d' => (fs.Fits d inode data.length ∧ data.length < inode.size.toNat ∧ e = .panic) ∨
        ¬fs.Fits d inode data.length ∧ (∃ msg, e = .error msg) ∧ fs.Leak d d') := by
  set n := fs.blockCount data.length with hn
  have hblocks : (data.length + fs.blockSize - 1) / fs.blockSize = n := rfl
  rw [writeFileData]
  simp only [hblocks]
  refine ((growBlocks_outcome hg inode data.length).mono (fun _ _ h => h) fun _ _ h => .inr h).bind ?_
  rintro inode₁ d₁ ⟨hfits, he⟩
  replace hw := hw hfits
  rw [← hn] at he
  have hn12 := he.reached
  have hlt : ∀ j < n, fs.Reached (inode₁.pointer j) := by
    intro j hj
    rcases he.mem_refs (pointer_mem_refs (by omega) (he.pointer_ne_zero hj)) with
      hold | ⟨i, -, hi, hnat⟩
    · exact hw.reached _ hold
    · exact hg.sized.reached (by omega)
  have hne : ∀ i j, i < j → j < n → inode₁.pointer i ≠ inode₁.pointer j :=
    fun i j hij hj => he.pointers_ne hw hij (by omega) (he.pointer_ne_zero (hij.trans hj))
  refine ((storeBlocks_outcome hg.sized he.marks.healthy hn12 hlt hne data).mono
    (fun _ _ h => h) fun _ _ h => h.elim).bind fun _ d₂ hs => ?_
  have hwrote := Wrote.of_loops hg hw hfits he hs
  have hg₂ : fs.Grouped d₂ := hg.of_kept (hwrote.keptGroups hg hw)
  have hsize : inode₁.size = inode.size := by rw [he.rest]
  rw [hsize]
  by_cases hgrow : inode.size.toNat ≤ data.length
  case pos =>
    -- no block is excess
    have hnone : (inode.size.toNat + fs.blockSize - 1) / fs.blockSize - n = 0 :=
      Nat.sub_eq_zero_of_le (Nat.div_le_div_right (by omega))
    rw [hnone]
    exact Outcome.pure ⟨hg₂, hfits, fun _ => hwrote⟩
  case neg =>
    have hloop := Outcome.foldlM (fun _ _ t => fs.Grouped t) (fun (e : Failure) _ => e = .panic)
      ((inode.size.toNat + fs.blockSize - 1) / fs.blockSize - n) n inode₁ d₂
      (fun k inode' t _ _ hI => freeExcess_outcome hI inode' k) hg₂
    refine (hloop.mono (fun _ _ h => h) fun _ _ h => .inl ⟨hfits, by omega, h⟩).bind ?_
    exact fun _ _ h => Outcome.pure ⟨h, hfits, fun hle => absurd hle hgrow⟩

/-! ### After a failure -/

namespace Leak

theorem keptGroups (hg : fs.Grouped d) (h : fs.Leak d d') : fs.KeptGroups d d' :=
  hg.keptGroups h.healthy (blockBitmap_mem hg.groups) nofun h.others

theorem block_meta (hg : fs.Grouped d) (h : fs.Leak d d') {m : MetaBlock} (hm : m ∈ fs.metaBlocks)
    (hne : m ≠ .blockBitmap 0) : fs.block d' (fs.place d m) = fs.block d (fs.place d m) :=
  h.others _ (hg.place_ne hm (blockBitmap_mem hg.groups) hne)

theorem inodeOf_eq (hg : fs.Grouped d) (h : fs.Leak d d') {i : UInt32} (hi : fs.InodeNumber i) :
    fs.inodeOf d' i = fs.inodeOf d i :=
  (h.keptGroups hg).inodeOf hg.sized hi (h.block_meta hg (slotOf_mem hg.sized hi) nofun)

theorem inodeBit_eq (hg : fs.Grouped d) (h : fs.Leak d d') {g : Nat} (hlt : g < fs.bgCount.toNat)
    (k : Nat) : fs.inodeBit d' g k = fs.inodeBit d g k := by
  have hm := inodeBitmap_mem hlt
  rw [inodeBit, (h.keptGroups hg).place hg.sized hm, h.block_meta hg hm nofun, inodeBit]

end Leak

end Ext3Fs

end RustKernel.Fs
