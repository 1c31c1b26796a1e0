import RustKernel.Memory.HeapSteps

/-!
# RustKernel.Memory.HeapInit

`BucketAllocator::init` lays the free blocks of the buckets (`layOut`) and one large region
out over the heap: `boot_tiling`.

The blocks of one bucket are linked upwards, so a later store never touches an earlier
block (`initNodes_spec`); the buckets are set up one behind the other
(`initBuckets_spec`).
-/

namespace RustKernel.Memory

open Lib BucketAllocator

/-! ### One bucket -/

/-- The addresses of `count` blocks from `current` on. -/
def blockAddrs (current blockSize : Nat) : Nat → List Nat
  | 0 => []
  | count + 1 => current :: blockAddrs (current + blockSize) blockSize count

private theorem packed_blocks (current blockSize count : Nat) (hsize : 0 < blockSize) :
    Packed current (current + blockSize * count)
      ((blockAddrs current blockSize count).map fun a => ⟨a, blockSize⟩) := by
  induction count generalizing current with
  | zero => exact .nil
  | succ count ih =>
    have hrest := ih (current + blockSize)
    rw [Nat.mul_succ]
    refine Packed.cons_iff.mpr ⟨?_, hsize, ?_, ?_⟩
    · simp only [Extent.Within, Extent.stop]
      omega
    · intro f hf
      have hwithin := hrest.within f hf
      simp only [Extent.Within, Extent.Apart, Extent.stop] at hwithin ⊢
      omega
    · refine ⟨fun e he => ?_, hrest.pos, hrest.apart⟩
      have hwithin := hrest.within e he
      simp only [Extent.Within] at hwithin ⊢
      omega

/-- The loop of `Bucket::init` links the blocks, and stores into nothing else. -/
theorem initNodes_spec (mem : ByteStore) (current blockSize count : Nat) (hsize : 8 ≤ blockSize)
    (hpos : 0 < current) (hend : current + blockSize * count ≤ 2 ^ 63) :
    AgreeOutside current (current + blockSize * count) mem
      (Bucket.initNodes mem current blockSize count) ∧
    (count ≠ 0 → Chain (read64 (Bucket.initNodes mem current blockSize count)) current
      (blockAddrs current blockSize count)) := by
  induction count generalizing mem current with
  | zero => exact ⟨.refl mem, fun h => absurd rfl h⟩
  | succ count ih =>
    rw [Nat.mul_succ] at hend ⊢
    generalize hnext : (if count = 0 then 0 else current + blockSize) = next
    have hlt : next < 2 ^ 64 := by
      rw [← hnext]
      split <;> omega
    obtain ⟨hagree, hchain⟩ := ih (write64 mem current next) (current + blockSize) (by omega)
      (by omega)
    rw [Bucket.initNodes, hnext]
    have hfirst : AgreeOutside current (current + (blockSize * count + blockSize)) mem
        (write64 mem current next) :=
      (write64_agree mem current next).mono le_rfl (by omega)
    have hrest : AgreeOutside current (current + (blockSize * count + blockSize))
        (write64 mem current next)
        (Bucket.initNodes (write64 mem current next) (current + blockSize) blockSize count) :=
      hagree.mono (by omega) (by omega)
    refine ⟨hfirst.trans hrest, fun _ => ?_⟩
    refine ⟨rfl, by omega, ?_⟩
    -- the rest of the loop writes behind the first node
    rw [hagree.read64 current (by omega), read64_write64 _ _ _ hlt, ← hnext]
    cases count with
    | zero => rfl
    | succ count =>
      have hrest := hchain (Nat.succ_ne_zero count)
      rw [← hnext, if_neg (Nat.succ_ne_zero count)] at hrest
      rw [if_neg (Nat.succ_ne_zero count)]
      exact hrest

/-- A fresh bucket over its own part of the heap. -/
private theorem bucketInit_spec (mem : ByteStore) (current blockSize : Nat) (hsize : 8 ≤ blockSize)
    (hpos : 0 < current) (hend : current + blockSize * BLOCKS_PER_BUCKET ≤ 2 ^ 63) :
    let made := (Bucket.new blockSize).init current (blockSize * BLOCKS_PER_BUCKET) mem
    let slot : Slot := ⟨made.1, blockAddrs current blockSize BLOCKS_PER_BUCKET⟩
    slot.Linked made.2 ∧
    Packed current (current + blockSize * BLOCKS_PER_BUCKET) slot.extents ∧
    AgreeOutside current (current + blockSize * BLOCKS_PER_BUCKET) mem made.2 := by
  intro made slot
  have hcount : blockSize * BLOCKS_PER_BUCKET / blockSize = BLOCKS_PER_BUCKET :=
    Nat.mul_div_cancel_left _ (by omega)
  obtain ⟨hagree, hchain⟩ :=
    initNodes_spec mem current blockSize BLOCKS_PER_BUCKET hsize hpos hend
  have hmem : made.2 = Bucket.initNodes mem current blockSize BLOCKS_PER_BUCKET := by
    simp only [made, Bucket.init, Bucket.new, hcount]
  refine ⟨?_, ?_, hmem ▸ hagree⟩
  · rw [Slot.Linked, hmem]
    exact hchain (by decide)
  · have hpacked := packed_blocks current blockSize BLOCKS_PER_BUCKET (by omega)
    have hmax : max made.1.blockSize 8 = blockSize := max_eq_left hsize
    simpa only [slot, Slot.extents, hmax] using hpacked

/-! ### All buckets -/

/-- The slots of buckets that are laid out over `[current, next)`. -/
structure LaidOut (sizes : List Nat) (current next : Nat) (mem : ByteStore) (slots : List Slot) :
    Prop where
  le : current ≤ next
  packed : Packed current next (slots.flatMap Slot.extents)
  linked : ∀ slot ∈ slots, slot.Linked mem
  sizes : ∀ (i : Nat) (slot : Slot), slots[i]? = some slot →
    sizes[i]? = some slot.bucket.blockSize ∨ slot.bucket.blockSize = 0

/-- The buckets as `init` sets them up, with their free blocks. -/
def layOut (current remaining : Nat) : List Nat → List Slot
  | [] => []
  | blockSize :: sizes =>
    let bucketSize := blockSize * BLOCKS_PER_BUCKET
    if remaining < bucketSize then
      ⟨Bucket.new blockSize, []⟩ :: sizes.map fun _ => ⟨Bucket.new 0, []⟩
    else
      ⟨⟨blockSize, current, bucketSize / blockSize, bucketSize / blockSize⟩,
        blockAddrs current blockSize BLOCKS_PER_BUCKET⟩ ::
        layOut (current + bucketSize) (remaining - bucketSize) sizes

/-- Buckets that were never set up have nothing to allocate. -/
private theorem laidOut_unset (blockSize : Nat) (sizes : List Nat) (current : Nat)
    (mem : ByteStore) :
    LaidOut (blockSize :: sizes) current current mem
      (⟨Bucket.new blockSize, []⟩ :: sizes.map fun _ => ⟨Bucket.new 0, []⟩) := by
  -- no bucket has got a block yet
  have hempty : ∀ slot ∈ (⟨Bucket.new blockSize, []⟩ :: sizes.map fun _ =>
      (⟨Bucket.new 0, []⟩ : Slot)), slot.free = [] ∧ slot.bucket.freeList = 0 := by
    intro slot hslot
    rcases List.mem_cons.mp hslot with rfl | hslot
    · exact ⟨rfl, rfl⟩
    · obtain ⟨-, -, rfl⟩ := List.mem_map.mp hslot
      exact ⟨rfl, rfl⟩
  refine ⟨le_rfl, ?_, ?_, ?_⟩
  · rw [List.flatMap_eq_nil_iff.mpr]
    · exact .nil
    · intro slot hslot
      rw [Slot.extents, (hempty slot hslot).1]
      rfl
  · intro slot hslot
    rw [Slot.Linked, (hempty slot hslot).1, (hempty slot hslot).2]
    rfl
  · intro i slot hslot
    cases i with
    | zero =>
      obtain rfl := Option.some.inj hslot
      exact .inl rfl
    | succ i =>
      rw [List.getElem?_cons_succ, List.getElem?_map, Option.map_eq_some_iff] at hslot
      obtain ⟨-, -, rfl⟩ := hslot
      exact .inr rfl

/-- The bucket loop of `init`. -/
theorem initBuckets_spec (sizes : List Nat) (mem : ByteStore) (current remaining : Nat)
    (hsizes : ∀ blockSize ∈ sizes, 8 ≤ blockSize) (hpos : 0 < current)
    (hend : current + remaining ≤ 2 ^ 63) :
    let made := initBuckets mem current remaining sizes
    let slots := layOut current remaining sizes
    slots.map Slot.bucket = made.1 ∧ LaidOut sizes current made.2.2.1 made.2.1 slots ∧
      made.2.2.1 + made.2.2.2 = current + remaining ∧
      AgreeOutside current made.2.2.1 mem made.2.1 ∧
      ∃ k, made.2.2.1 = current + 8 * k := by
  induction sizes generalizing mem current remaining with
  | nil =>
    exact ⟨rfl, ⟨le_rfl, .nil, by simp [layOut], by simp [layOut]⟩, rfl, .refl mem, 0, rfl⟩
  | cons blockSize sizes ih =>
    have hsize := hsizes blockSize List.mem_cons_self
    rw [initBuckets, layOut]
    dsimp only
    by_cases hroom : remaining < blockSize * BLOCKS_PER_BUCKET
    · rw [if_pos hroom, if_pos hroom]
      refine ⟨?_, laidOut_unset blockSize sizes current mem, rfl, .refl mem, 0, rfl⟩
      simp
    · rw [if_neg hroom, if_neg hroom]
      obtain ⟨hlinked, hpacked, hagree⟩ := bucketInit_spec mem current blockSize hsize hpos
        (by omega)
      obtain ⟨hmap, hlaid, hsum, hrest, k, hk⟩ := ih
        ((Bucket.new blockSize).init current (blockSize * BLOCKS_PER_BUCKET) mem).2
        (current + blockSize * BLOCKS_PER_BUCKET) (remaining - blockSize * BLOCKS_PER_BUCKET)
        (fun b hb => hsizes b (List.mem_cons_of_mem _ hb)) (by omega) (by omega)
      have hle := hlaid.le
      refine ⟨?_, ⟨?_, ?_, ?_, ?_⟩, ?_, ?_, ?_⟩
      · rw [List.map_cons, hmap]
        rfl
      · exact (Nat.le_add_right _ _).trans hle
      · exact hpacked.concat hlaid.packed (Nat.le_add_right _ _) hle
      · intro slot hslot
        rcases List.mem_cons.mp hslot with rfl | hslot
        · -- the later buckets store behind this one
          refine hlinked.frame hrest fun f hf => .inl ?_
          exact (hpacked.within f hf).2
        · exact hlaid.linked slot hslot
      · intro i slot hslot
        cases i with
        | zero =>
          obtain rfl := Option.some.inj hslot
          exact .inl rfl
        | succ i => exact hlaid.sizes i slot hslot
      · dsimp only
        omega
      · exact (hagree.mono le_rfl hle).trans (hrest.mono (Nat.le_add_right _ _) le_rfl)
      · refine ⟨32 * blockSize + k, ?_⟩
        dsimp only
        rw [hk, BLOCKS_PER_BUCKET]
        omega

/-! ### The whole heap -/

/-- The heap after `init`, with nothing allocated. -/
def HeapState.boot (mem : ByteStore) (heapStart heapSize : Nat) : HeapState :=
  ⟨BucketAllocator.init mem heapStart heapSize, []⟩

theorem init_bounds (mem : ByteStore) (heapStart heapSize : Nat) :
    (BucketAllocator.init mem heapStart heapSize).heapStart = heapStart ∧
    (BucketAllocator.init mem heapStart heapSize).heapEnd = heapStart + heapSize := by
  rw [BucketAllocator.init]
  dsimp only
  split <;> exact ⟨rfl, rfl⟩

/-- `init` tiles the heap with the blocks it lays out and at most one region. -/
theorem boot_tiling (unit : Nat) (mem : ByteStore) (heapStart heapSize : Nat)
    (hstart : 0 < heapStart) (hend : heapStart + heapSize ≤ 2 ^ 63) (hunit : unit ∣ 8)
    (haligned : unit ∣ heapStart) :
    ∃ regions, regions.length ≤ 1 ∧ Tiling unit (HeapState.boot mem heapStart heapSize)
      (layOut heapStart heapSize BUCKET_SIZES) regions := by
  obtain ⟨hmap, hlaid, hsum, -, k, hk⟩ := initBuckets_spec BUCKET_SIZES mem heapStart
    heapSize (by decide) hstart hend
  have hle := hlaid.le
  rw [HeapState.boot, BucketAllocator.init]
  generalize initBuckets mem heapStart heapSize BUCKET_SIZES = made at hmap hlaid hsum hk hle
  obtain ⟨buckets, mem', current, remaining⟩ := made
  dsimp only at hmap hlaid hsum hk hle ⊢
  have hsizes : SlotSizes _ := hlaid.sizes
  generalize layOut heapStart heapSize BUCKET_SIZES = slots at hmap hlaid hsizes ⊢
  by_cases hroom : remaining > LARGE_NODE_LEN
  · -- the rest of the heap is one region, behind all the buckets
    rw [if_pos hroom]
    simp only [LARGE_NODE_LEN] at hroom
    have hagree : AgreeOutside current (current + remaining) mem'
        (write64 (write64 mem' current remaining) (current + 8) 0) :=
      ((AgreeOutside.refl mem').write64 _ _ le_rfl (by omega)).write64 _ _ (by omega) (by omega)
    refine ⟨[⟨current, remaining⟩], le_rfl, ?_⟩
    refine { start := hstart, stop := hend, packed := ?_, buckets := hmap, blockSizes := hsizes,
             linked := ?_, large := ?_, regions := ?_, live := by simp }
    · show Packed heapStart (heapStart + heapSize)
        (slots.flatMap Slot.extents ++ [⟨current, remaining⟩])
      refine hlaid.packed.concat (Packed.cons_iff.mpr ⟨⟨le_rfl, ?_⟩, ?_, by simp, .nil⟩) hle
        (by omega)
      · simp only [Extent.stop]
        omega
      · dsimp only
        omega
    · intro slot hslot
      refine (hlaid.linked slot hslot).frame hagree fun f hf => .inl ?_
      exact (hlaid.packed.within f (List.mem_flatMap.mpr ⟨slot, hslot, hf⟩)).2
    · refine LargeList.cons_iff.mpr ⟨rfl, by dsimp only; omega, ?_, ?_⟩
      · dsimp only
        rw [read64_write64_ne _ _ _ _ (by omega), read64_write64 _ _ _ (by omega)]
      · dsimp only
        rw [read64_write64 _ _ _ (Nat.two_pow_pos 64)]
        exact .nil _
    · intro r hr
      obtain rfl := List.mem_singleton.mp hr
      refine ⟨by simp only [LARGE_NODE_LEN]; omega, ?_⟩
      rw [hk]
      exact haligned.add (hunit.trans (Nat.dvd_mul_right 8 k))
  · rw [if_neg hroom]
    refine ⟨[], Nat.zero_le _, ?_⟩
    refine { start := hstart, stop := hend, packed := ?_, buckets := hmap, blockSizes := hsizes,
             linked := hlaid.linked, large := .nil _, regions := by simp, live := by simp }
    show Packed heapStart (heapStart + heapSize) (slots.flatMap Slot.extents ++ [])
    exact hlaid.packed.concat .nil hle (by omega)

/-- `init` tiles the heap with free blocks and one region. -/
theorem init_tiling (unit : Nat) (mem : ByteStore) (heapStart heapSize : Nat)
    (hstart : 0 < heapStart) (hend : heapStart + heapSize ≤ 2 ^ 63) (hunit : unit ∣ 8)
    (haligned : unit ∣ heapStart) :
    ∃ slots regions, Tiling unit (HeapState.boot mem heapStart heapSize) slots regions := by
  obtain ⟨regions, -, htiling⟩ := boot_tiling unit mem heapStart heapSize hstart hend hunit haligned
  exact ⟨_, regions, htiling⟩

end RustKernel.Memory
