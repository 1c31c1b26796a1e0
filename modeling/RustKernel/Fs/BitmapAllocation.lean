import RustKernel.Fs.Blocks
import Mathlib.Order.Bounds.Basic

/-!
# RustKernel.Fs.BitmapAllocation

One call of `bitmap_alloc`, for every content of the bitmap block, every bound and every block size
that the driver can read.

## Main result

`bitmapAlloc_firstFit`: the call takes the least clear bit below the bound and the end of the block,
sets this bit and no other, and fails without a write if there is none; `bitmap_set` with `false`
then gives back what was there before.
-/

namespace RustKernel.Fs.Ext3Fs

open Lib

variable {fs : Ext3Fs} {d d' : Drive} {k : Nat}

/-! ### Writes that cannot fail -/

/-- A write to sectors that are not faulty returns. -/
private theorem ataWrite_returns (lba : UInt32) (count : UInt8) (buf : List UInt8)
    (hcount : count ≠ 0)
    (hbuf : buf.length = count.toNat * 512)
    (hok : ∀ i < count.toNat, d.faulty (Ata.address lba + i) = false) :
    Outcome (Ata.write lba count buf) d (fun _ _ => True) (fun _ _ => False) := by
  rw [Ata.write, if_neg (by simp only [hcount, false_or]; omega), List.range_eq_range']
  refine (Outcome.foldlM (fun _ _ d' => d'.faulty = d.faulty) (fun _ _ => False) count.toNat 0 () d
    ?_ rfl).mono (fun _ _ _ => trivial) fun _ _ h => h
  intro n _ d' _ hn hsame
  rw [Ata.writeSector]
  refine Outcome.bind_reading (fun faulty hfaulty => ?_) fun e he => by cases he
  obtain rfl := Except.ok.inj hfaulty
  rw [hsame, hok n (by omega), if_neg (by decide)]
  exact Outcome.of_exec rfl hsame

private theorem writeBlock_outcome (hbs : fs.blockSize = 1024 * 2 ^ k) (hk : k ≤ 6) (b : UInt32)
    (buf : List UInt8) (hbuf : buf.length = fs.blockSize) (hok : fs.blockFaulty d b = false) :
    Outcome (fs.writeBlock b buf) d
      (fun _ d' => fs.BlockReplaced d b buf d' ∧ d'.faulty = d.faulty) (fun _ _ => False) := by
  have hcount := sectorsPerBlock_toNat hbs hk
  have hreturns : Outcome (fs.writeBlock b buf) d (fun _ _ => True) (fun _ _ => False) := by
    have hata := ataWrite_returns (d := d) (b * fs.sectorsPerBlock.toUInt32) fs.sectorsPerBlock buf
      (sectorsPerBlock_ne hbs hk) (by omega) fun i hi => by
        rw [hcount] at hi
        exact Bool.eq_false_iff.mpr fun h => List.any_eq_false.mp hok i (List.mem_range.mpr hi) h
    rw [Outcome] at hata
    rw [writeBlock, Outcome, Fallible.exec_adapt]
    rcases hexec : (Ata.write (b * fs.sectorsPerBlock.toUInt32) fs.sectorsPerBlock buf).exec d with
      ⟨e | u, d'⟩
    · rw [hexec] at hata
      exact hata.elim
    · trivial
  have hreplaced := (writeBlock_ends (d := d) hbs b buf hbuf).outcome
  have hfaulty := writeBlock_faulty fs d b buf
  rcases hexec : (fs.writeBlock b buf).exec d with ⟨e | u, d'⟩
  · rw [Outcome, hexec] at hreturns
    exact hreturns.elim
  · rw [hexec] at hfaulty
    exact Outcome.of_exec hexec ⟨hreplaced.ok hexec, hfaulty⟩

/-- Where a block was read, its sectors are not faulty and there are not too many of them. -/
private theorem of_readBlock_ok (hbs : fs.blockSize = 1024 * 2 ^ k) {b : UInt32} {buf : List UInt8}
    (hread : fs.readBlock d b = .ok buf) : k ≤ 6 ∧ fs.blockFaulty d b = false := by
  have hk : k ≤ 6 := by
    by_contra hk
    rw [readBlock_refused hbs (by omega)] at hread
    cases hread
  refine ⟨hk, ?_⟩
  rw [readBlock_eq_ite hbs hk] at hread
  cases hfaulty : fs.blockFaulty d b with
  | false => rfl
  | true =>
    rw [hfaulty] at hread
    cases hread

/-! ### Blocks after a write -/

private theorem diskBlock_congr {b c : UInt32} (h : fs.firstSector c = fs.firstSector b)
    (d : Drive) :
    fs.diskBlock d c = fs.diskBlock d b := by
  rw [diskBlock, diskBlock, h]

private theorem blockFaulty_congr (h : d'.faulty = d.faulty) (b : UInt32) :
    fs.blockFaulty d' b = fs.blockFaulty d b := by
  rw [blockFaulty, blockFaulty, h]

private theorem BlockReplaced.self {b : UInt32} {buf : List UInt8}
    (h : fs.BlockReplaced d b buf d') :
    fs.diskBlock d' b = buf := by
  rw [h b, if_pos rfl]

/-- Writing back what was there restores every block. -/
private theorem BlockReplaced.restore {b : UInt32} {buf : List UInt8} {d'' : Drive}
    (h : fs.BlockReplaced d b buf d') (h' : fs.BlockReplaced d' b (fs.diskBlock d b) d'')
    (c : UInt32) : fs.diskBlock d'' c = fs.diskBlock d c := by
  rw [h' c]
  split
  case isTrue hsame => exact (diskBlock_congr hsame d).symm
  case isFalse hne => rw [h c, if_neg hne]

/-! ### First fit -/

/-- The bits that can be taken: below the bound and in the block. -/
def candidates (buf : List UInt8) (maxBits : UInt32) : Set Nat :=
  {i | i < min maxBits.toNat (8 * buf.length) ∧ bitAt buf i = false}

/-- A block with one bit more. -/
def withBit (buf : List UInt8) (i : Nat) : List UInt8 :=
  buf.set (i / 8) (buf.getD (i / 8) 0 ||| (1 <<< UInt8.ofNat (i % 8)))

def withoutBit (buf : List UInt8) (i : Nat) : List UInt8 :=
  buf.set (i / 8) (buf.getD (i / 8) 0 &&& ~~~(1 <<< UInt8.ofNat (i % 8)))

/-- Taking away a bit that was added gives the block back. -/
private theorem withoutBit_withBit {buf : List UInt8} {i : Nat} (hi : i / 8 < buf.length)
    (hclear : bitAt buf i = false) : withoutBit (withBit buf i) i = buf := by
  refine bitAt_ext (by simp [withoutBit, withBit]) fun j => ?_
  rw [withoutBit, bitAt_set_and_not _ _ _ (by simpa [withBit] using hi), withBit,
    bitAt_set_or _ _ _ hi]
  by_cases hij : i = j
  · -- the bit itself was clear
    subst hij
    simp [hclear]
  · simp [hij]

private theorem findFree_isLeast {buf : List UInt8} {maxBits : UInt32} {i : Nat}
    (h : findFree buf maxBits.toNat = some i) : IsLeast (candidates buf maxBits) i := by
  obtain ⟨hbyte, hmax, hclear⟩ := findFree_spec h
  refine ⟨⟨by omega, hclear⟩, fun j hj => ?_⟩
  by_contra hlt
  have hset := findFree_least h (Nat.not_le.mp hlt)
  rw [hj.2] at hset
  cases hset

private theorem findFree_empty {buf : List UInt8} {maxBits : UInt32}
    (h : findFree buf maxBits.toNat = none) : candidates buf maxBits = ∅ := by
  refine Set.eq_empty_of_forall_notMem fun i hi => ?_
  obtain ⟨hlt, hclear⟩ := hi
  have hset := findFree_none h (by omega : i < maxBits.toNat) (by omega)
  rw [hclear] at hset
  cases hset

/-- The allocation, for a bitmap block that can be read. -/
private theorem bitmapAlloc_outcome_of_read (hbs : fs.blockSize = 1024 * 2 ^ k) (b maxBits : UInt32)
    {buf : List UInt8} (hread : fs.readBlock d b = .ok buf) :
    Outcome (fs.bitmapAlloc b maxBits) d
      (fun bit d' => IsLeast (candidates buf maxBits) bit.toNat ∧
        fs.BlockReplaced d b (withBit buf bit.toNat) d' ∧ d'.faulty = d.faulty)
      (fun e d' => candidates buf maxBits = ∅ ∧ d' = d ∧ e = .error "no free bits in bitmap") := by
  obtain ⟨hk, hok⟩ := of_readBlock_ok hbs hread
  have hlen : buf.length = fs.blockSize := by
    rw [readBlock_ok hbs hread, length_diskBlock hbs]
  rw [bitmapAlloc]
  refine Outcome.bind_read hread ?_
  split
  case h_2 hnone => exact Outcome.throw ⟨findFree_empty hnone, rfl, rfl⟩
  case h_1 bitIdx hfind =>
    have hleast := findFree_isLeast hfind
    -- the bit is below `maxBits`, so the conversion to `u32` keeps it
    have hnat : (UInt32.ofNat bitIdx).toNat = bitIdx := by
      have hlt := hleast.1.1
      have hmax := maxBits.toNat_lt
      rw [UInt32.toNat_ofNat', Nat.mod_eq_of_lt (by omega)]
    have hwrite := writeBlock_outcome hbs hk b (withBit buf bitIdx)
      (by rw [withBit, List.length_set, hlen]) hok
    refine (hwrite.mono (fun _ _ h => h) fun _ _ h => h.elim).bind fun _ d' hwritten => ?_
    refine Outcome.pure ?_
    rw [hnat]
    exact ⟨hleast, hwritten⟩

/-- Clearing a bit of a bitmap block that can be read. -/
private theorem bitmapClear_outcome_of_read (hbs : fs.blockSize = 1024 * 2 ^ k) (b bit : UInt32)
    {buf : List UInt8} (hread : fs.readBlock d b = .ok buf) (hbit : bit.toNat / 8 < buf.length) :
    Outcome (fs.bitmapSet b bit false) d
      (fun _ d' => fs.BlockReplaced d b (withoutBit buf bit.toNat) d') (fun _ _ => False) := by
  obtain ⟨hk, hok⟩ := of_readBlock_ok hbs hread
  have hlen : buf.length = fs.blockSize := by
    rw [readBlock_ok hbs hread, length_diskBlock hbs]
  rw [bitmapSet]
  refine Outcome.bind_read hread ?_
  rw [if_neg (by omega)]
  simp only [Bool.false_eq_true, ↓reduceIte]
  exact (writeBlock_outcome hbs hk b (withoutBit buf bit.toNat)
    (by rw [withoutBit, List.length_set, hlen]) hok).mono (fun _ _ h => h.1) fun _ _ h => h

/-- What is said of a call that took the bit `i`: it is the least candidate, the stored block has it
    and else the same bits, no other block changed, and clearing the bit restores every block. -/
structure Taken (fs : Ext3Fs) (d : Drive) (b maxBits i : UInt32) (d' : Drive) : Prop where
  least : IsLeast (candidates (fs.diskBlock d b) maxBits) i.toNat
  bits : ∀ j, bitAt (fs.diskBlock d' b) j = (bitAt (fs.diskBlock d b) j || decide (j = i.toNat))
  others : ∀ c, fs.firstSector c ≠ fs.firstSector b → fs.diskBlock d' c = fs.diskBlock d c
  restored : ∃ d'', (fs.bitmapSet b i false).exec d' = (.ok (), d'') ∧
    ∀ c, fs.diskBlock d'' c = fs.diskBlock d c

/-- Allocation in a bitmap is first fit and exact. -/
theorem bitmapAlloc_firstFit (hbs : fs.blockSize = 1024 * 2 ^ k) (b maxBits : UInt32)
    (hread : fs.readBlock d b = .ok (fs.diskBlock d b)) :
    ((∃ i d', (fs.bitmapAlloc b maxBits).exec d = (.ok i, d')) ↔
        ∃ j, j < min maxBits.toNat (8 * fs.blockSize) ∧ bitAt (fs.diskBlock d b) j = false) ∧
      (∀ i d', (fs.bitmapAlloc b maxBits).exec d = (.ok i, d') → Taken fs d b maxBits i d') ∧
      ∀ e d', (fs.bitmapAlloc b maxBits).exec d = (.error e, d') → d' = d := by
  have hout := bitmapAlloc_outcome_of_read hbs b maxBits hread
  have hlen := length_diskBlock (d := d) hbs b
  refine ⟨?_, ?_, fun e d' hexec => (hout.failed hexec).2.1⟩
  · rw [← hlen]
    constructor
    · rintro ⟨i, d', hexec⟩
      exact ⟨i.toNat, (hout.ok hexec).1.1⟩
    · rintro ⟨j, hj⟩
      rcases hexec : (fs.bitmapAlloc b maxBits).exec d with ⟨e | i, d'⟩
      · have hempty := (hout.failed hexec).1
        exact absurd (hempty ▸ hj : j ∈ (∅ : Set Nat)) (Set.notMem_empty j)
      · exact ⟨i, d', rfl⟩
  · intro i d' hexec
    obtain ⟨hleast, hreplaced, hfaulty⟩ := hout.ok hexec
    obtain ⟨hlt, hclear⟩ := hleast.1
    have hbyte : i.toNat / 8 < (fs.diskBlock d b).length := by omega
    refine ⟨hleast, fun j => ?_, fun c hc => by rw [hreplaced c, if_neg hc], ?_⟩
    · rw [hreplaced.self, withBit, bitAt_set_or _ _ _ hbyte]
      simp only [eq_comm]
    · -- the block is read back, as it can still be read
      obtain ⟨hk, hok⟩ := of_readBlock_ok hbs hread
      have hread' : fs.readBlock d' b = .ok (withBit (fs.diskBlock d b) i.toNat) := by
        rw [readBlock_eq_ite hbs hk, blockFaulty_congr hfaulty, hok, hreplaced.self]
        rfl
      have hclear' := bitmapClear_outcome_of_read hbs b i hread'
        (by rw [withBit, List.length_set]; exact hbyte)
      rw [withoutBit_withBit hbyte hclear] at hclear'
      rcases hset : (fs.bitmapSet b i false).exec d' with ⟨e | u, d''⟩
      · exact (hclear'.failed hset).elim
      · exact ⟨d'', rfl, hreplaced.restore (hclear'.ok hset)⟩

/-- Blocks of 1 KiB on a disk of zeros but for the first byte of block 3. -/
def fullByteDrive : Drive := .ofBlocks fun b => if b = 3 then [0xFF] else []

def smallLayout : Ext3Fs := ⟨1024, 16, 64, 2, 1⟩

/-- The first byte is full, so the bit 8 is taken. -/
theorem bitmapAlloc_fullByte : bitAt (smallLayout.diskBlock fullByteDrive 3) 7 = true ∧
    ∃ i d', (smallLayout.bitmapAlloc 3 64).exec fullByteDrive = (.ok i, d') ∧
      Taken smallLayout fullByteDrive 3 64 i d' := by
  have hbs : smallLayout.blockSize = 1024 * 2 ^ 0 := rfl
  have hhealthy : fullByteDrive.Healthy := Drive.healthy_ofBlocks _
  have hread := readBlock_healthy hbs (by decide) hhealthy 3
  obtain ⟨hfree, htaken, -⟩ := bitmapAlloc_firstFit hbs 3 64 hread
  obtain ⟨i, d', hexec⟩ := hfree.mpr ⟨8, by decide, by decide +kernel⟩
  exact ⟨by decide +kernel, i, d', hexec, htaken i d' hexec⟩

end RustKernel.Fs.Ext3Fs
