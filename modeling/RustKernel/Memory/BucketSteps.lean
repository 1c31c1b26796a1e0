import RustKernel.Memory.Tiling

/-!
# RustKernel.Memory.BucketSteps

Allocation from a bucket and release into one keep the tiling of the heap.

`Tiling.allocBucket` needs nothing beyond the tiling. `Tiling.deallocBucket` needs
that the room of the released block is as long as a block of the bucket, which the
code does not check: it routes a release by size alone.
-/

namespace RustKernel.Memory

open Lib BucketAllocator

private theorem bucketIndex_some {size idx : Nat} (h : bucketIndex size = some idx) :
    ∃ bucketSize, BUCKET_SIZES[idx]? = some bucketSize ∧ size ≤ bucketSize := by
  obtain ⟨hidx, hsize, -⟩ := List.findIdx?_eq_some_iff_getElem.mp h
  exact ⟨BUCKET_SIZES[idx], List.getElem?_eq_getElem hidx, by simpa using hsize⟩

theorem bucketIndex_none {size : Nat} (h : bucketIndex size = none) : 2048 < size := by
  have hall := List.findIdx?_eq_none_iff.mp h 2048 (by decide)
  simpa using hall

section Steps

variable {unit : Nat} {s : HeapState} {slots : List Slot} {regions : List Extent}

theorem getElem?_slots (h : Tiling unit s slots regions) {idx : Nat} {bucket : Bucket}
    (hbucket : s.heap.buckets[idx]? = some bucket) :
    ∃ slot, slots[idx]? = some slot ∧ slot.bucket = bucket := by
  rw [← h.buckets, List.getElem?_map, Option.map_eq_some_iff] at hbucket
  exact hbucket

theorem tryBucket_eq_some {h : BucketAllocator} {size align ptr : Nat} {h' : BucketAllocator}
    (htry : h.tryBucket size align = some (ptr, h')) :
    ∃ idx bucket bucket', bucketIndex size = some idx ∧ h.buckets[idx]? = some bucket ∧
      align ≤ bucket.blockSize ∧ bucket.alloc h.mem = some (ptr, bucket') ∧
      h' = { h with
        used := (h.used + bucket.blockSize) % 2 ^ 64
        buckets := h.buckets.set idx bucket' } := by
  simp only [tryBucket, Option.bind_eq_bind, Option.bind_eq_some_iff] at htry
  obtain ⟨idx, hidx, bucket, hbucket, htry⟩ := htry
  split at htry
  · next hblock =>
    obtain ⟨⟨ptr', bucket'⟩, hpop, heq⟩ := Option.bind_eq_some_iff.mp htry
    obtain ⟨rfl, rfl⟩ := Prod.mk.inj (Option.some.inj heq)
    exact ⟨idx, bucket, bucket', hidx, hbucket, hblock, hpop, rfl⟩
  · contradiction

/-- The slot without its first block. -/
def Slot.pop (slot : Slot) : Slot where
  bucket := { slot.bucket with
    freeList := headOf slot.free.tail
    freeBlocks := (slot.bucket.freeBlocks + (2 ^ 64 - 1)) % 2 ^ 64 }
  free := slot.free.tail

/-- The slot with a block put in front. -/
def Slot.push (slot : Slot) (ptr : Nat) : Slot where
  bucket := { slot.bucket with
    freeList := ptr
    freeBlocks := (slot.bucket.freeBlocks + 1) % 2 ^ 64 }
  free := ptr :: slot.free

@[simp] theorem Slot.pop_blockSize (slot : Slot) :
    slot.pop.bucket.blockSize = slot.bucket.blockSize := rfl

@[simp] theorem Slot.push_blockSize (slot : Slot) (ptr : Nat) :
    (slot.push ptr).bucket.blockSize = slot.bucket.blockSize := rfl

/-- Popping a block: the bucket's list is not empty, and the block is its first. -/
theorem Slot.Linked.pop {slot : Slot} {mem : ByteStore} (h : slot.Linked mem) {ptr : Nat}
    {bucket' : Bucket} (hpop : slot.bucket.alloc mem = some (ptr, bucket')) :
    slot.free = ptr :: slot.free.tail ∧ bucket' = slot.pop.bucket ∧ slot.pop.Linked mem := by
  rw [Bucket.alloc] at hpop
  split at hpop
  · contradiction
  · next hne =>
    obtain ⟨rfl, rfl⟩ := Prod.mk.inj (Option.some.inj hpop)
    obtain ⟨bucket, free⟩ := slot
    cases free with
    | nil => exact absurd h hne
    | cons a rest =>
      obtain ⟨hhead, -, hrest⟩ := h
      dsimp only at hhead hrest
      have hnext := hrest.head_eq
      refine ⟨by rw [hhead]; rfl, ?_, ?_⟩
      · simp only [Slot.pop, List.tail_cons, hhead, hnext]
      · rw [hnext] at hrest
        exact hrest

theorem SlotSizes.set (h : SlotSizes slots) {idx : Nat} {slot slot' : Slot}
    (hslot : slots[idx]? = some slot)
    (hsize : slot'.bucket.blockSize = slot.bucket.blockSize) : SlotSizes (slots.set idx slot') := by
  intro i q hq
  rw [List.getElem?_set] at hq
  split at hq
  · next hi =>
    subst hi
    split at hq
    · obtain rfl := Option.some.inj hq
      rw [hsize]
      exact h idx slot hslot
    · contradiction
  · exact h i q hq

private theorem extents_set (live : List Block) (regions : List Extent) {idx : Nat}
    {slot slot' : Slot}
    (hslot : slots[idx]? = some slot) : (extents live (slots.set idx slot') regions).Perm
      (slot'.extents ++ extents live (slots.eraseIdx idx) regions) := by
  obtain ⟨hidx, -⟩ := List.getElem?_eq_some_iff.mp hslot
  have hset : (slots.set idx slot')[idx]? = some slot' := List.getElem?_set_self hidx
  have hperm : (extents live (slots.set idx slot') regions).Perm _ := extents_slot hset
  rwa [List.eraseIdx_set_eq] at hperm

/-- What a bucket serves has the bucket's block for itself. -/
theorem Tiling.allocBucket (h : Tiling unit s slots regions) (layout : Layout) (ptr : Nat)
    (heap' : BucketAllocator)
    (htry : s.heap.tryBucket layout.request.1 layout.request.2 = some (ptr, heap')) :
    ∃ idx slot, bucketIndex layout.request.1 = some idx ∧ slots[idx]? = some slot ∧
      layout.request.2 ≤ slot.bucket.blockSize ∧ slot.free = ptr :: slot.free.tail ∧
      s.heap.reserved layout = slot.bucket.blockSize ∧
      heap'.used = (s.heap.used + slot.bucket.blockSize) % 2 ^ 64 ∧
      Tiling unit ⟨heap', ⟨ptr, layout, s.heap.reserved layout⟩ :: s.live⟩
        (slots.set idx slot.pop) regions := by
  have hserved : s.heap.servedByBucket layout = true := by rw [servedByBucket, htry]; rfl
  obtain ⟨idx, bucket, bucket', hidx, hbucket, halign, hpop, rfl⟩ := tryBucket_eq_some htry
  obtain ⟨slot, hslot, rfl⟩ := getElem?_slots h hbucket
  have hmem : slot ∈ slots := List.mem_of_getElem? hslot
  obtain ⟨hfree, rfl, hrest⟩ := (h.linked slot hmem).pop hpop
  obtain ⟨bucketSize, hsizes, hfits⟩ := bucketIndex_some hidx
  have hreserved : s.heap.reserved layout = slot.bucket.blockSize := by
    rw [reserved, if_pos hserved, routedBlock, hidx]
    simp [hbucket]
  have hblock : bucketSize = slot.bucket.blockSize ∧ 8 ≤ slot.bucket.blockSize := by
    have hmin : 8 ≤ slot.bucket.blockSize := le_trans (le_max_right _ _) halign
    rcases h.blockSizes idx slot hslot with heq | hzero
    · exact ⟨Option.some.inj (hsizes.symm.trans heq), hmin⟩
    · omega
  obtain ⟨rfl, hmin⟩ := hblock
  refine ⟨idx, slot, hidx, hslot, halign, hfree, hreserved, rfl, ?_⟩
  refine { start := h.start, stop := h.stop, large := h.large, regions := h.regions, packed := ?_,
           buckets := ?_, blockSizes := h.blockSizes.set hslot rfl, linked := ?_, live := ?_ }
  · -- the popped block becomes the room of the allocation
    have hextents : slot.extents = ⟨ptr, slot.bucket.blockSize⟩ :: slot.pop.extents := by
      rw [Slot.extents, hfree]
      simp only [Slot.extents, List.map_cons, Slot.pop_blockSize, max_eq_left hmin]
      rfl
    have hpacked := h.packed.perm (extents_slot hslot)
    rw [hextents] at hpacked
    rw [hreserved]
    exact hpacked.perm ((extents_set s.live regions hslot).symm.cons _)
  · rw [List.map_set, h.buckets]
  · intro q hq
    rcases List.mem_or_eq_of_mem_set hq with hq | rfl
    · exact h.linked q hq
    · exact hrest
  · refine List.forall_mem_cons.mpr ⟨⟨?_, ?_, ?_⟩, h.live⟩
    · rw [hreserved]
      exact le_trans (le_max_left _ _) hfits
    · rw [hreserved]
      exact hmin
    · intro hnone
      rw [hidx] at hnone
      contradiction

/-- A released block may join its bucket if its room is as long as the bucket's blocks. -/
theorem Tiling.deallocBucket (h : Tiling unit s slots regions) {k idx : Nat} {b : Block}
    {slot : Slot} (hk : s.live[k]? = some b) (hslot : slots[idx]? = some slot)
    (hroom : slot.bucket.blockSize ≤ b.reserved) (used : Nat) :
    let freed := slot.bucket.dealloc b.ptr s.heap.mem
    Tiling unit
      ⟨{ s.heap with used, buckets := s.heap.buckets.set idx freed.1, mem := freed.2 },
        s.live.eraseIdx k⟩ (slots.set idx (slot.push b.ptr)) regions := by
  intro freed
  have hole : Hole unit s.heap (s.live.eraseIdx k) slots [] regions b.room := h.holeLive hk
  have hmin := (h.live b (List.mem_of_getElem? hk)).min
  obtain ⟨hpos, hstop⟩ := hole.bounds
  simp only [Block.room, Extent.stop] at hpos hstop
  have hmem : slot ∈ slots := List.mem_of_getElem? hslot
  have hagree : AgreeOutside b.room.start b.room.stop s.heap.mem freed.2 := by
    refine (write64_agree s.heap.mem b.ptr slot.bucket.freeList).mono le_rfl ?_
    simp only [Block.room, Extent.stop]
    omega
  have hlinked := hole.linked_frame hagree
  have hhead : slot.bucket.freeList < 2 ^ 64 := by
    -- the list is empty, or its first block lies in the heap
    rw [(h.linked slot hmem).head_eq]
    cases hfree : slot.free with
    | nil => exact Nat.two_pow_pos 64
    | cons a rest =>
      have hwithin := h.packed.within ⟨a, max slot.bucket.blockSize 8⟩
        (List.mem_append_right _ (List.mem_append_left _ (List.mem_flatMap.mpr
          ⟨slot, hmem, by rw [Slot.extents, hfree]; exact List.mem_cons_self⟩)))
      have hend := h.stop
      simp only [Extent.Within, Extent.stop, headOf] at hwithin ⊢
      omega
  refine { start := h.start, stop := h.stop, packed := ?_, buckets := ?_,
           blockSizes := h.blockSizes.set hslot rfl, linked := ?_, large := ?_,
           regions := h.regions, live := hole.live }
  · have hshrink : Packed s.heap.heapStart s.heap.heapEnd
        (⟨b.ptr, max slot.bucket.blockSize 8⟩ :: extents (s.live.eraseIdx k) slots regions) := by
      refine hole.packed.shrink ?_ (by dsimp only; omega)
      simp only [Extent.Within, Block.room, Extent.stop]
      omega
    have hset : (extents (s.live.eraseIdx k) (slots.set idx (slot.push b.ptr)) regions).Perm
        (⟨b.ptr, max slot.bucket.blockSize 8⟩ ::
          (slot.extents ++ extents (s.live.eraseIdx k) (slots.eraseIdx idx) regions)) :=
      extents_set _ regions hslot
    exact (hshrink.perm ((extents_slot hslot).cons _)).perm hset.symm
  · rw [List.map_set, h.buckets]
    rfl
  · intro q hq
    rcases List.mem_or_eq_of_mem_set hq with hq | rfl
    · exact hlinked q hq
    · refine ⟨rfl, by omega, ?_⟩
      dsimp only [freed, Bucket.dealloc]
      rw [read64_write64 _ _ _ hhead]
      exact hlinked slot hmem
  · exact h.large.frame hagree hole.headers_outside

end Steps

end RustKernel.Memory
