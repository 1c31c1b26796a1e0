import RustKernel.Memory.HeapSafety

/-!
# RustKernel.Memory.Statistics

Whether the counters of the allocator tell the truth. An allocation is charged what it takes, a
block of its bucket or its own size; a release is credited by size class alone, and counts as a
block of the bucket wherever it came from.

## Main result

- `truthful_of_guarded`: along a guarded run in which only blocks of the bucket itself are released
  into a bucket, `used` covers the live layouts and is zero exactly when there are none, and no
  bucket has more free blocks than blocks.

## Proof strategy

`homeBlocks` are the blocks that `init` gave to a bucket. The invariant `Contents.Truthful` says
that `used` is the sum of the live rooms, and that the free blocks of a bucket are home blocks, the
others being live with a whole block reserved. A home block that is released is therefore credited
what it was charged, and distinct free blocks are not more than the home blocks.
-/

namespace RustKernel.Memory

open Lib BucketAllocator

/-- The blocks that `init` links into a bucket. -/
def homeBlocks (heapStart heapSize idx : Nat) : List Nat :=
  (((layOut heapStart heapSize BUCKET_SIZES)[idx]?).map Slot.free).getD []

/-- A block released into a bucket is one of the bucket's own. -/
def HeapState.ReleasesOwn (home : Nat → List Nat) (s : HeapState) : HeapEvent → Prop
  | .dealloc k => ∀ b ∈ s.live[k]?, ∀ idx ∈ bucketIndex b.layout.request.1, b.ptr ∈ home idx
  | _ => True

instance (home : Nat → List Nat) (s : HeapState) (e : HeapEvent) :
    Decidable (s.ReleasesOwn home e) :=
  match e with
  | .alloc _ => inferInstanceAs (Decidable True)
  | .dealloc k => inferInstanceAs (Decidable (∀ b ∈ s.live[k]?,
      ∀ idx ∈ bucketIndex b.layout.request.1, b.ptr ∈ home idx))
  | .store .. => inferInstanceAs (Decidable True)

/-- `used_bytes` and the block counts are right: `dump_stats` subtracts without underflow. -/
structure HeapState.Truthful (s : HeapState) : Prop where
  zero_iff : s.heap.used = 0 ↔ s.live = []
  covers : (s.live.map fun b => b.layout.size).sum ≤ s.heap.used
  free_le : ∀ bucket ∈ s.heap.buckets, bucket.freeBlocks ≤ bucket.totalBlocks

/-! ### The invariant -/

/-- The free blocks of a bucket are home blocks, and the other home blocks are live. -/
structure AtHome (home : List Nat) (live : List Block) (slot : Slot) : Prop where
  count : slot.bucket.freeBlocks = slot.free.length
  total : slot.bucket.totalBlocks = home.length
  free : ∀ a ∈ slot.free, a ∈ home
  taken : ∀ a ∈ home, a ∈ slot.free ∨ ∃ b ∈ live, b.ptr = a ∧ b.reserved = slot.bucket.blockSize

structure Contents.Truthful (home : Nat → List Nat) (c : Contents) : Prop where
  used_eq : c.used = (c.live.map Block.reserved).sum
  slots : ∀ idx slot, c.slots[idx]? = some slot → AtHome (home idx) c.live slot
  none : ∀ idx, c.slots[idx]? = none → home idx = []

/-! ### What the tiling says of blocks -/

section Blocks

variable {unit : Nat} {s : HeapState} {slots : List Slot} {regions : List Extent} {slot : Slot}
  {b b' : Block} {idx : Nat}

private theorem totalLen_rooms (live : List Block) :
    totalLen (live.map Block.room) = (live.map Block.reserved).sum := by
  rw [totalLen, List.map_map]
  rfl

/-- What is live and one more extent of the heap are shorter than the address space. -/
private theorem Tiling.charge_lt (h : Tiling unit s slots regions) {e : Extent}
    (he : e ∈ slots.flatMap Slot.extents ++ regions) {size : Nat} (hsize : size ≤ e.len) :
    (s.live.map Block.reserved).sum + size < 2 ^ 64 := by
  have hsub : (s.live.map Block.room ++ [e]).Sublist (extents s.live slots regions) :=
    (List.singleton_sublist.mpr he).append_left _
  have htotal := (h.packed.sublist hsub).totalLen_le
  rw [totalLen_append, totalLen_rooms, totalLen_cons, totalLen_nil] at htotal
  have hstop := h.stop
  omega

private theorem Slot.mem_extents {slot : Slot} {a : Nat} (h : a ∈ slot.free) :
    (⟨a, max slot.bucket.blockSize 8⟩ : Extent) ∈ slot.extents :=
  List.mem_map_of_mem h

/-- A live allocation is at the address of no free block. -/
private theorem Tiling.ptr_not_free (h : Tiling unit s slots regions) (hb : b ∈ s.live)
    (hslot : slot ∈ slots) : b.ptr ∉ slot.free := by
  intro hfree
  have hcross := (Packed.append_iff.mp h.packed).2.2 b.room (List.mem_map_of_mem hb) _
    (List.mem_append_left _ (List.mem_flatMap.mpr ⟨slot, hslot, Slot.mem_extents hfree⟩))
  have hmin := (h.live b hb).min
  simp only [Extent.Apart, Extent.stop, Block.room] at hcross
  omega

/-- Two live allocations at one address have the same room. -/
theorem Tiling.reserved_eq (h : Tiling unit s slots regions) (hb : b ∈ s.live) (hb' : b' ∈ s.live)
    (hptr : b'.ptr = b.ptr) : b'.reserved = b.reserved := by
  by_contra hne
  have hrooms : b'.room ≠ b.room := fun heq => hne (congrArg Extent.len heq)
  have hapart := (Packed.append_iff.mp h.packed).1.apart.forall (List.mem_map_of_mem hb')
    (List.mem_map_of_mem hb) hrooms
  have hmin := (h.live b hb).min
  have hmin' := (h.live b' hb').min
  simp only [Extent.Apart, Extent.stop, Block.room] at hapart
  omega

/-- The free blocks of a bucket are distinct, and fewer than the addresses. -/
private theorem Tiling.free_nodup (h : Tiling unit s slots regions) (hslot : slot ∈ slots) :
    slot.free.Nodup ∧ slot.free.length < 2 ^ 64 - 1 := by
  obtain ⟨i, hi⟩ := List.getElem?_of_mem hslot
  have hpacked := (Packed.append_iff.mp (h.packed.perm (extents_slot hi))).1
  have hstop := h.stop
  have hlength := hpacked.length_le
  rw [Slot.extents, List.length_map] at hlength
  refine ⟨(List.pairwise_map.mp hpacked.apart).imp ?_, by omega⟩
  rintro a a' hapart rfl
  simp only [Extent.Apart, Extent.stop] at hapart
  omega

/-- The block size of a bucket with blocks tells the bucket. -/
private theorem blockSize_inj (h : SlotSizes slots) {idx' : Nat} {slot' : Slot}
    (hslot : slots[idx]? = some slot) (hslot' : slots[idx']? = some slot')
    (hsize : slot.bucket.blockSize = slot'.bucket.blockSize) (hpos : 0 < slot.bucket.blockSize) :
    idx = idx' := by
  have hnodup : BUCKET_SIZES.Nodup := by decide
  rcases h idx slot hslot with hat | hzero
  · rcases h idx' slot' hslot' with hat' | hzero'
    · rw [← hsize] at hat'
      obtain ⟨hlt, -⟩ := List.getElem?_eq_some_iff.mp hat
      exact (List.getElem?_inj hlt hnodup).mp (hat.trans hat'.symm)
    · omega
  · omega

private theorem blockSize_le (h : SlotSizes slots) (hslot : slots[idx]? = some slot) :
    slot.bucket.blockSize ≤ 2048 := by
  have hall : ∀ n ∈ BUCKET_SIZES, n ≤ 2048 := by decide
  rcases h idx slot hslot with hat | hzero
  · exact hall _ (List.mem_of_getElem? hat)
  · omega

private theorem sum_reserved_eraseIdx {live : List Block} {k : Nat} (hk : live[k]? = some b) :
    (live.map Block.reserved).sum = b.reserved + ((live.eraseIdx k).map Block.reserved).sum := by
  obtain ⟨hlt, rfl⟩ := List.getElem?_eq_some_iff.mp hk
  have hperm := (List.getElem_cons_eraseIdx_perm hlt).symm.map Block.reserved
  rw [hperm.sum_eq, List.map_cons, List.sum_cons]

private theorem mem_eraseIdx_or {live : List Block} {k : Nat} (hk : live[k]? = some b) {c : Block}
    (hc : c ∈ live) : c = b ∨ c ∈ live.eraseIdx k := by
  obtain ⟨hlt, rfl⟩ := List.getElem?_eq_some_iff.mp hk
  exact List.mem_cons.mp ((List.getElem_cons_eraseIdx_perm hlt).mem_iff.mpr hc)

end Blocks

/-! ### Effects -/

section Effects

variable {unit : Nat} {s : HeapState} {slots : List Slot} {regions : List Extent}
  {home : Nat → List Nat} {live live' : List Block} {slot : Slot} {blocks : List Nat}

/-- The home blocks stay accounted for when allocations are added. -/
theorem AtHome.mono (h : AtHome blocks live slot) (hlive : ∀ b ∈ live, b ∈ live') :
    AtHome blocks live' slot where
  count := h.count
  total := h.total
  free := h.free
  taken := fun a ha => (h.taken a ha).imp_right fun ⟨b, hb, heq⟩ => ⟨b, hlive b hb, heq⟩

/-- A popped block is live, with a whole block reserved. -/
theorem AtHome.pop (h : AtHome blocks live slot) {ptr : Nat}
    (hfree : slot.free = ptr :: slot.free.tail) (hlt : slot.free.length < 2 ^ 64 - 1)
    (layout : Layout) :
    AtHome blocks (⟨ptr, layout, slot.bucket.blockSize⟩ :: live) slot.pop where
  count := by
    have hlength := congrArg List.length hfree
    rw [List.length_cons] at hlength
    show (slot.bucket.freeBlocks + (2 ^ 64 - 1)) % 2 ^ 64 = slot.free.tail.length
    rw [h.count, hlength]
    omega
  total := h.total
  free := fun a ha => h.free a (List.mem_of_mem_tail ha)
  taken := by
    intro a ha
    rcases h.taken a ha with ha | ⟨b, hb, heq⟩
    · rw [hfree] at ha
      rcases List.mem_cons.mp ha with rfl | ha
      · exact .inr ⟨_, List.mem_cons_self, rfl, rfl⟩
      · exact .inl ha
    · exact .inr ⟨b, List.mem_cons_of_mem _ hb, heq⟩

/-- A home block that is released is free again. -/
theorem AtHome.push (h : AtHome blocks live slot) {k : Nat} {b : Block} (hk : live[k]? = some b)
    (hb : b.ptr ∈ blocks) (hlt : slot.free.length < 2 ^ 64 - 1) :
    AtHome blocks (live.eraseIdx k) (slot.push b.ptr) where
  count := by
    show (slot.bucket.freeBlocks + 1) % 2 ^ 64 = slot.free.length + 1
    rw [h.count]
    omega
  total := h.total
  free := List.forall_mem_cons.mpr ⟨hb, h.free⟩
  taken := by
    intro a ha
    rcases h.taken a ha with ha | ⟨c, hc, rfl, hreserved⟩
    · exact .inl (List.mem_cons_of_mem _ ha)
    · rcases mem_eraseIdx_or hk hc with rfl | hc
      · exact .inl List.mem_cons_self
      · exact .inr ⟨c, hc, rfl, hreserved⟩

/-- The release of an allocation that takes up no block of the bucket. -/
theorem AtHome.erase (h : AtHome blocks live slot) {k : Nat} {b : Block} (hk : live[k]? = some b)
    (hother : b.ptr ∈ blocks → b.reserved ≠ slot.bucket.blockSize) :
    AtHome blocks (live.eraseIdx k) slot where
  count := h.count
  total := h.total
  free := h.free
  taken := by
    intro a ha
    rcases h.taken a ha with hfree | ⟨c, hc, rfl, hreserved⟩
    · exact .inl hfree
    · rcases mem_eraseIdx_or hk hc with rfl | hc
      · exact absurd hreserved (hother ha)
      · exact .inr ⟨c, hc, rfl, hreserved⟩

/-- A home block that is live has a whole block reserved. -/
theorem AtHome.reserved_eq (h : AtHome blocks s.live slot) (ht : Tiling unit s slots regions)
    (hslot : slot ∈ slots) {b : Block} (hb : b ∈ s.live) (hhome : b.ptr ∈ blocks) :
    b.reserved = slot.bucket.blockSize := by
  rcases h.taken _ hhome with hfree | ⟨c, hc, hptr, hreserved⟩
  · exact absurd hfree (ht.ptr_not_free hb hslot)
  · rw [← ht.reserved_eq hb hc hptr, hreserved]

theorem Contents.Truthful.effect {e : HeapEvent} {c' : Contents} (ht : Tiling unit s slots regions)
    (h : (s.contents slots regions).Truthful home) (hguard : s.ReleasesOwn home e)
    (heffect : Effect (s.contents slots regions) e c') : c'.Truthful home := by
  have hused : s.heap.used = (s.live.map Block.reserved).sum := h.used_eq
  cases heffect with
  | @pop layout idx slot ptr index slot_eq aligned free_eq =>
    have hmem : slot ∈ slots := List.mem_of_getElem? slot_eq
    have hptr : ptr ∈ slot.free := by
      rw [free_eq]
      exact List.mem_cons_self
    have hblock := Slot.mem_extents hptr
    have hcharge := ht.charge_lt (List.mem_append_left _ (List.mem_flatMap.mpr ⟨slot, hmem, hblock⟩))
      (le_max_left slot.bucket.blockSize 8)
    refine ⟨?_, ?_, ?_⟩
    · show (s.heap.used + _) % 2 ^ 64 = _
      rw [hused, Nat.mod_eq_of_lt hcharge, List.map_cons, List.sum_cons, Nat.add_comm]
      rfl
    · intro i q hq
      rw [List.getElem?_set] at hq
      split at hq
      case isTrue hi =>
        subst hi
        rw [if_pos (List.getElem?_eq_some_iff.mp slot_eq).1] at hq
        obtain rfl := Option.some.inj hq
        exact (h.slots idx slot slot_eq).pop free_eq (ht.free_nodup hmem).2 layout
      case isFalse => exact (h.slots i q hq).mono fun b hb => List.mem_cons_of_mem _ hb
    · intro i hi
      exact h.none i (by simpa using hi)
  | @split layout mid post r ptr unserved regions_eq first ptr_eq ge_start aligned le_stop =>
    have hregions : regions = mid ++ r :: post := regions_eq
    have hr : r ∈ regions := by simp [hregions]
    have hroom : layout.request.1 ≤ r.len := by
      simp only [Extent.stop] at le_stop
      omega
    have hcharge := ht.charge_lt (List.mem_append_right _ hr) hroom
    refine ⟨?_, fun i q hq => (h.slots i q hq).mono fun b hb => List.mem_cons_of_mem _ hb, h.none⟩
    show (s.heap.used + _) % 2 ^ 64 = _
    rw [hused, Nat.mod_eq_of_lt hcharge, List.map_cons, List.sum_cons, Nat.add_comm]
    rfl
  | refuse => exact h
  | @push k idx b slot live_eq index slot_eq =>
    have hmem : slot ∈ slots := List.mem_of_getElem? slot_eq
    have hb : b ∈ s.live := List.mem_of_getElem? live_eq
    have hhome : b.ptr ∈ home idx := hguard b live_eq idx index
    have hreserved := (h.slots idx slot slot_eq).reserved_eq ht hmem hb hhome
    refine ⟨?_, ?_, ?_⟩
    · show s.heap.used - slot.bucket.blockSize = ((s.live.eraseIdx k).map Block.reserved).sum
      have hsum := sum_reserved_eraseIdx (show s.live[k]? = some b from live_eq)
      rw [hused, hsum, hreserved, Nat.add_sub_cancel_left]
    · intro i q hq
      rw [List.getElem?_set] at hq
      split at hq
      case isTrue hi =>
        subst hi
        rw [if_pos (List.getElem?_eq_some_iff.mp slot_eq).1] at hq
        obtain rfl := Option.some.inj hq
        exact (h.slots idx slot slot_eq).push live_eq hhome (ht.free_nodup hmem).2
      case isFalse hi =>
        -- a block has one bucket
        refine (h.slots i q hq).erase live_eq fun _ hsame => hi ?_
        have hmin := (ht.live b hb).min
        exact blockSize_inj ht.blockSizes slot_eq hq (hreserved.symm.trans hsame) (by omega)
    · intro i hi
      exact h.none i (by simpa using hi)
  | @insert k b mid post live_eq index =>
    have hb : b ∈ s.live := List.mem_of_getElem? live_eq
    refine ⟨?_, fun i q hq => (h.slots i q hq).erase live_eq fun _ hsame => ?_, h.none⟩
    · show s.heap.used - b.reserved = ((s.live.eraseIdx k).map Block.reserved).sum
      have hsum := sum_reserved_eraseIdx (show s.live[k]? = some b from live_eq)
      rw [hused, hsum, Nat.add_sub_cancel_left]
    · -- a large allocation is larger than any block
      have hlarge := ((ht.live b hb).large index).1
      have hsize := bucketIndex_none index
      have hle := blockSize_le ht.blockSizes hq
      simp only [Layout.request] at hsize
      omega
  | @unbucketed k idx b live_eq index slot_eq =>
    have hhome : b.ptr ∈ home idx := hguard b live_eq idx index
    rw [h.none idx slot_eq] at hhome
    cases hhome
  | miss => exact h
  | store => exact h

/-- The invariant makes the counters right. -/
theorem Contents.Truthful.sound (ht : Tiling unit s slots regions)
    (h : (s.contents slots regions).Truthful home) : s.Truthful where
  zero_iff := by
    have hused : s.heap.used = (s.live.map Block.reserved).sum := h.used_eq
    rw [hused]
    cases hlive : s.live with
    | nil => simp
    | cons b live =>
      have hmin := (ht.live b (by rw [hlive]; exact List.mem_cons_self)).min
      rw [List.map_cons, List.sum_cons]
      simp only [List.cons_ne_nil, iff_false]
      omega
  covers := by
    have hused : s.heap.used = (s.live.map Block.reserved).sum := h.used_eq
    rw [hused]
    exact List.sum_le_sum fun b hb => (ht.live b hb).fits
  free_le := by
    intro bucket hbucket
    rw [← ht.buckets] at hbucket
    obtain ⟨slot, hslot, rfl⟩ := List.mem_map.mp hbucket
    obtain ⟨idx, hidx⟩ := List.getElem?_of_mem hslot
    have hathome := h.slots idx slot hidx
    rw [hathome.count, hathome.total]
    exact ((ht.free_nodup hslot).1.subperm hathome.free).length_le

end Effects

/-! ### Runs -/

private theorem length_blockAddrs (current blockSize count : Nat) :
    (blockAddrs current blockSize count).length = count := by
  induction count generalizing current with
  | zero => rfl
  | succ count ih => rw [blockAddrs, List.length_cons, ih]

/-- `init` counts the blocks it lays out. -/
private theorem layOut_counts (sizes : List Nat) (current remaining : Nat)
    (hsizes : ∀ n ∈ sizes, 0 < n) :
    ∀ slot ∈ layOut current remaining sizes,
      slot.bucket.freeBlocks = slot.free.length ∧ slot.bucket.totalBlocks = slot.free.length := by
  induction sizes generalizing current remaining with
  | nil => simp [layOut]
  | cons blockSize sizes ih =>
    obtain ⟨hpos, hrest⟩ := List.forall_mem_cons.mp hsizes
    rw [layOut]
    split
    · simp [Bucket.new]
    · refine List.forall_mem_cons.mpr ⟨?_, ih _ _ hrest⟩
      dsimp only
      rw [length_blockAddrs, Nat.mul_div_cancel_left _ hpos]
      exact ⟨rfl, rfl⟩

theorem Contents.Truthful.boot (heapStart heapSize : Nat) (regions : List Extent) :
    Contents.Truthful (homeBlocks heapStart heapSize)
      ⟨[], layOut heapStart heapSize BUCKET_SIZES, regions, 0⟩ where
  used_eq := rfl
  slots := by
    intro idx slot hslot
    have hslot : (layOut heapStart heapSize BUCKET_SIZES)[idx]? = some slot := hslot
    obtain ⟨hfree, htotal⟩ := layOut_counts BUCKET_SIZES heapStart heapSize (by decide) slot
      (List.mem_of_getElem? hslot)
    have hhome : homeBlocks heapStart heapSize idx = slot.free := by rw [homeBlocks, hslot]; rfl
    rw [hhome]
    exact ⟨hfree, htotal, fun _ ha => ha, fun _ ha => .inl ha⟩
  none := by
    intro idx hnone
    have hnone : (layOut heapStart heapSize BUCKET_SIZES)[idx]? = Option.none := hnone
    rw [homeBlocks, hnone]
    rfl

/-- **Truthful statistics**: along a guarded run in which a bucket gets back only its own blocks,
    the byte counter and the block counts are right. -/
theorem truthful_of_guarded (mem : ByteStore) (heapStart heapSize : Nat) (hstart : 0 < heapStart)
    (hend : heapStart + heapSize ≤ 2 ^ 63) (events : List HeapEvent)
    (hguard : ∀ p ∈ steps HeapState.step (.boot mem heapStart heapSize) events,
      p.1.Guarded 1 p.2 ∧ p.1.ReleasesOwn (homeBlocks heapStart heapSize) p.2) :
    ∀ t ∈ states HeapState.step (.boot mem heapStart heapSize) events, t.Truthful := by
  intro t ht
  have hrun := run_contents hstart hend (one_dvd 8) (one_dvd _)
    (Contents.Truthful (homeBlocks heapStart heapSize))
    (fun s e => s.Guarded 1 e ∧ s.ReleasesOwn (homeBlocks heapStart heapSize) e)
    (fun regions _ _ => .boot heapStart heapSize regions)
    (fun _ _ _ _ _ _ hG => hG.1) (fun _ _ _ _ _ ht h hG => h.effect ht hG.2) events hguard
  obtain ⟨slots, regions, htiling, hcontents⟩ := hrun t ht
  exact hcontents.sound htiling

/-! ### Runs on the kernel's heap -/

private def bytes8 : Layout := layoutOf 8 3 (by decide)

/-- The 17 bytes were charged as 17 and are credited as a block of 32: with 8 bytes still live,
    `used` is 0. -/
theorem over_credited :
    ¬∀ t ∈ states HeapState.step kernelHeap [.alloc bytes8, .alloc bytes17, .dealloc 0],
      t.Truthful := by
  intro h
  have hlast := (h _ (foldl_mem_states _ _ _)).zero_iff.mp (by decide +kernel)
  have hlength := congrArg List.length hlast
  revert hlength
  decide +kernel

/-- Large and small allocations, and releases of blocks of the buckets. -/
private def ownBlocks : List HeapEvent :=
  [.alloc bytes4096, .alloc bytes32, .alloc bytes8, .dealloc 1, .dealloc 0]

theorem ownBlocks_truthful :
    (∀ p ∈ steps HeapState.step kernelHeap ownBlocks,
      p.1.Guarded 1 p.2 ∧ p.1.ReleasesOwn (homeBlocks 0x200000 (2 * 1024 * 1024)) p.2) ∧
      ∀ t ∈ states HeapState.step kernelHeap ownBlocks, t.Truthful := by
  have hguard : ∀ p ∈ steps HeapState.step kernelHeap ownBlocks,
      p.1.Guarded 1 p.2 ∧ p.1.ReleasesOwn (homeBlocks 0x200000 (2 * 1024 * 1024)) p.2 := by
    decide +kernel
  exact ⟨hguard, truthful_of_guarded _ _ _ (by decide) (by decide) ownBlocks hguard⟩

end RustKernel.Memory
