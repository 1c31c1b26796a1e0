import RustKernel.Memory.Contents

/-!
# RustKernel.Memory.HeapSteps

One step of the heap: an allocation, a release, or a store by a client.

`HeapState.Guarded` is what a step must respect for the heap to stay sound. A split of
a free region leaves room for the headers of what stays in the list, and a released
block is as long as the blocks of the bucket that takes it. `Tiling.effect` says that this
is enough, and what the step does to the contents of the heap.
-/

namespace RustKernel.Memory

open Lib BucketAllocator

/-! ### The guard -/

/-- The regions of the large list, as `alloc_large` walks them. -/
def walk (mem : ByteStore) : Nat → Nat → List Extent
  | 0, _ => []
  | fuel + 1, node =>
    if node = 0 then [] else ⟨node, read64 mem node⟩ :: walk mem fuel (read64 mem (node + 8))

def BucketAllocator.largeRegions (h : BucketAllocator) : List Extent :=
  walk h.mem WALK_LIMIT h.largeHead

/-- The first region the request fits in. -/
def BucketAllocator.firstFit (h : BucketAllocator) (layout : Layout) : Option Extent :=
  h.largeRegions.find? fun r => Fits layout.request.1 layout.request.2 r

/-- A split leaves room for headers, and a released block is long enough for its bucket. -/
def HeapState.Guarded (unit : Nat) (s : HeapState) : HeapEvent → Prop
  | .alloc layout => s.heap.servedByBucket layout = false → ∀ r ∈ s.heap.firstFit layout,
    GoodSplit unit r (alignUp r.start layout.request.2) layout.request.1
  | .dealloc k => ∀ b ∈ s.live[k]?, ∀ n ∈ s.heap.routedBlock b.layout, n ≤ b.reserved
  | .store .. => True

instance (unit : Nat) (r : Extent) (allocStart size : Nat) :
    Decidable (GoodSplit unit r allocStart size) := by
  unfold GoodSplit
  infer_instance

instance (unit : Nat) (s : HeapState) (e : HeapEvent) : Decidable (s.Guarded unit e) :=
  match e with
  | .alloc layout => inferInstanceAs (Decidable (s.heap.servedByBucket layout = false →
      ∀ r ∈ s.heap.firstFit layout,
        GoodSplit unit r (alignUp r.start layout.request.2) layout.request.1))
  | .dealloc k => inferInstanceAs (Decidable (∀ b ∈ s.live[k]?,
      ∀ n ∈ s.heap.routedBlock b.layout, n ≤ b.reserved))
  | .store .. => inferInstanceAs (Decidable True)

theorem walk_eq {mem : ByteStore} {head : Nat} {regions : List Extent}
    (h : LargeList mem head regions) (fuel : Nat) (hfuel : regions.length < fuel) :
    walk mem fuel head = regions := by
  induction regions generalizing head fuel with
  | nil =>
    obtain ⟨fuel, rfl⟩ := Nat.exists_eq_succ_of_ne_zero (by omega : fuel ≠ 0)
    exact if_pos h.head_eq
  | cons r regions ih =>
    obtain ⟨fuel, rfl⟩ := Nat.exists_eq_succ_of_ne_zero (by omega : fuel ≠ 0)
    obtain ⟨rfl, hne, hsize, hrest⟩ := LargeList.cons_iff.mp h
    rw [List.length_cons] at hfuel
    rw [walk, if_neg hne, hsize, ih hrest fuel (by omega)]

/-! ### Steps -/

section Steps

variable {unit : Nat} {s : HeapState} {slots : List Slot} {regions : List Extent}

theorem Tiling.length_lt (h : Tiling unit s slots regions) : regions.length < WALK_LIMIT := by
  have hle := (packed_regions h.packed).length_le
  have hstop := h.stop
  simp only [WALK_LIMIT]
  omega

theorem Tiling.largeRegions_eq (h : Tiling unit s slots regions) :
    s.heap.largeRegions = regions :=
  walk_eq h.large _ h.length_lt

theorem Layout.request_spec (layout : Layout) : ∃ k, 3 ≤ k ∧ k ≤ 63 ∧
    layout.request.2 = 2 ^ k ∧ layout.request.1 + 2 ^ k ≤ 2 ^ 63 + 8 := by
  obtain ⟨size, align, ⟨j, rfl⟩, hfits⟩ := layout
  have hj : j ≤ 63 := by
    by_contra hlt
    have hpow : 2 ^ 64 ≤ 2 ^ j := Nat.pow_le_pow_right (by decide) (by omega)
    omega
  have hpos : 0 < 2 ^ j := Nat.two_pow_pos j
  refine ⟨max j 3, le_max_right _ _, max_le hj (by decide), ?_, ?_⟩
  · rcases le_total j 3 with h | h
    · have hpow : 2 ^ j ≤ 2 ^ 3 := Nat.pow_le_pow_right (by decide) h
      simp only [Layout.request, max_eq_right h, max_eq_right (show 2 ^ j ≤ 8 from hpow)]
      rfl
    · have hpow : 2 ^ 3 ≤ 2 ^ j := Nat.pow_le_pow_right (by decide) h
      simp only [Layout.request, max_eq_left h, max_eq_left (show 8 ≤ 2 ^ j from hpow)]
  · rcases le_total j 3 with h | h
    · simp only [Layout.request, max_eq_right h]
      omega
    · simp only [Layout.request, max_eq_left h]
      omega

theorem alloc_of_bucket {h h' : BucketAllocator} {layout : Layout} {ptr : Nat}
    (htry : h.tryBucket layout.request.1 layout.request.2 = some (ptr, h')) :
    h.alloc layout = (some ptr, h') := by
  rw [Layout.request] at htry
  rw [BucketAllocator.alloc, htry]

theorem alloc_of_none {h : BucketAllocator} {layout : Layout}
    (htry : h.tryBucket layout.request.1 layout.request.2 = none) :
    h.alloc layout = h.allocLarge layout.request.1 layout.request.2 := by
  rw [Layout.request] at htry
  rw [BucketAllocator.alloc, htry]
  rfl

/-- An allocation from the large list has room for what was asked. -/
private theorem accounted_large (hunit : unit ∣ 8) (layout : Layout) {k : Nat} (hk : 3 ≤ k)
    {ptr : Nat}
    (hptr : 2 ^ k ∣ ptr) : Block.Accounted unit ⟨ptr, layout, layout.request.1⟩ where
  fits := le_max_left _ _
  min := le_max_right _ _
  large := fun hnone => by
    have hbig : 2048 < max layout.size 8 := bucketIndex_none hnone
    have hsize : 2048 < layout.size := by omega
    refine ⟨max_eq_left (by omega), ?_, ?_⟩
    · simp only [LARGE_NODE_LEN]
      omega
    · have height : 8 ∣ 2 ^ k := by
        rw [show 8 = 2 ^ 3 by rfl]
        exact Nat.pow_dvd_pow 2 hk
      exact hunit.trans (height.trans hptr)

/-- The contents after a step, which keeps the tiling. -/
def HeapState.StepsTo (unit : Nat) (s : HeapState) (slots : List Slot) (regions : List Extent)
    (e : HeapEvent) : Prop :=
  ∃ slots' regions', Tiling unit (s.step e) slots' regions' ∧
    Effect (s.contents slots regions) e ((s.step e).contents slots' regions')

private theorem firstFitting_eq {layout : Layout} {mid post : List Extent} {r : Extent}
    (hmid : ∀ q ∈ mid, ¬Fits layout.request.1 layout.request.2 q)
    (hfits : Fits layout.request.1 layout.request.2 r) :
    firstFitting (mid ++ r :: post) layout = some r := by
  rw [firstFitting, List.find?_append, List.find?_eq_none.mpr (by simpa using hmid),
    Option.none_or, List.find?_cons_of_pos (by simpa using hfits)]

theorem Tiling.unserved (h : Tiling unit s slots regions) {layout : Layout}
    (htry : s.heap.tryBucket layout.request.1 layout.request.2 = none) :
    (s.contents slots regions).Unserved layout := by
  intro idx slot hidx hslot halign
  have hbucket : s.heap.buckets[idx]? = some slot.bucket := by
    rw [← h.buckets, List.getElem?_map, show slots[idx]? = some slot from hslot]
    rfl
  have hlinked := h.linked slot (List.mem_of_getElem? hslot)
  cases hfree : slot.free with
  | nil => rfl
  | cons a rest =>
    -- the bucket's list has a first block, which the bucket part of `alloc` would return
    rw [Slot.Linked, hfree] at hlinked
    obtain ⟨hhead, hne, -⟩ := hlinked
    simp [tryBucket, hidx, hbucket, halign, Bucket.alloc, hhead, hne] at htry

theorem Tiling.firstFit_eq (h : Tiling unit s slots regions) (layout : Layout) :
    s.heap.firstFit layout = firstFitting regions layout := by
  rw [BucketAllocator.firstFit, h.largeRegions_eq, firstFitting]

/-- A guarded allocation. -/
private theorem Tiling.alloc_effect (hunit : unit ∣ 8) (h : Tiling unit s slots regions)
    (layout : Layout)
    (hguard : s.Guarded unit (.alloc layout)) : s.StepsTo unit slots regions (.alloc layout) := by
  rw [HeapState.StepsTo, HeapState.step]
  cases htry : s.heap.tryBucket layout.request.1 layout.request.2 with
  | some taken =>
    obtain ⟨ptr, heap'⟩ := taken
    obtain ⟨idx, slot, hidx, hslot, halign, hfree, hreserved, hused, htiling⟩ :=
      h.allocBucket layout ptr heap' htry
    rw [alloc_of_bucket htry]
    refine ⟨_, _, htiling, ?_⟩
    rw [HeapState.contents, HeapState.contents]
    dsimp only
    rw [hused, hreserved]
    exact .pop hidx hslot halign hfree
  | none =>
    have hserved : s.heap.servedByBucket layout = false := by rw [servedByBucket, htry]; rfl
    have hreserved : s.heap.reserved layout = layout.request.1 := by
      rw [BucketAllocator.reserved, hserved]
      rfl
    obtain ⟨k, hk3, hk, halign, hsum⟩ := layout.request_spec
    -- what the walk along the list needs of each region
    have hbounds : ∀ r ∈ regions, r.start + LARGE_NODE_LEN ≤ r.stop ∧ r.stop ≤ 2 ^ 63 := by
      intro r hr
      have hlen := (h.regions r hr).1
      have hwithin := (packed_regions h.packed).within r hr
      have hstop := h.stop
      simp only [Extent.Within, Extent.stop] at hwithin ⊢
      omega
    have hwalk := allocLargeFrom_spec s.heap layout.request.1 k hk hsum [] regions WALK_LIMIT
      h.large h.length_lt hbounds
    rw [← halign, show cursorAfter [] = none by rfl] at hwalk
    rw [alloc_of_none htry, BucketAllocator.allocLarge, hreserved]
    have hunserved := h.unserved htry
    rcases hwalk with ⟨hnofit, hnone⟩ | ⟨mid, r, post, rfl, hmid, hfits, hsome⟩
    · -- the walk came to the end of the list
      have hnofirst : firstFitting regions layout = none :=
        List.find?_eq_none.mpr (by simpa using hnofit)
      rw [hnone]
      exact ⟨slots, regions, h, .refuse hunserved hnofirst⟩
    · -- the walk stopped at the first region that fits
      obtain ⟨hge, -, hdvd⟩ := alignUp_spec r.start k hk (by
        have hr := hbounds r (by simp)
        omega)
      have hfirst : firstFitting (mid ++ r :: post) layout = some r := firstFitting_eq hmid hfits
      have hgood := hguard hserved r (by rw [h.firstFit_eq, hfirst]; rfl)
      have hb := accounted_large hunit layout hk3 hdvd
      rw [← halign] at hge hdvd hb
      rw [hsome]
      refine ⟨slots, _, h.carve hb hge hfits hgood, ?_⟩
      rw [HeapState.contents, HeapState.contents]
      dsimp only
      rw [List.nil_append, carve_used]
      exact .split hunserved rfl hfirst rfl hge hdvd hfits

theorem dealloc_eq (h : BucketAllocator) (ptr : Nat) (layout : Layout) :
    h.dealloc ptr layout =
      match bucketIndex layout.request.1 with
      | some idx =>
        match h.buckets[idx]? with
        | some bucket =>
          { h with
            used := h.used - bucket.blockSize
            buckets := h.buckets.set idx (bucket.dealloc ptr h.mem).1
            mem := (bucket.dealloc ptr h.mem).2 }
        | none => h
      | none => h.deallocLarge ptr layout.request.1 := rfl

/-- A guarded release. -/
private theorem Tiling.dealloc_effect (h : Tiling unit s slots regions) (k : Nat)
    (hguard : s.Guarded unit (.dealloc k)) : s.StepsTo unit slots regions (.dealloc k) := by
  rw [HeapState.StepsTo, HeapState.step]
  cases hk : s.live[k]? with
  | none => exact ⟨slots, regions, h, .miss hk⟩
  | some b =>
    dsimp only
    rw [dealloc_eq]
    have hole : Hole unit s.heap (s.live.eraseIdx k) slots [] regions b.room := h.holeLive hk
    cases hidx : bucketIndex b.layout.request.1 with
    | some idx =>
      dsimp only
      cases hbucket : s.heap.buckets[idx]? with
      | none =>
        refine ⟨slots, regions, ⟨h.start, h.stop, (Packed.cons_iff.mp hole.packed).2.2.2, h.buckets,
          h.blockSizes, h.linked, h.large, h.regions, hole.live⟩, .unbucketed hk hidx ?_⟩
        rwa [← h.buckets, List.getElem?_map, Option.map_eq_none_iff] at hbucket
      | some bucket =>
        obtain ⟨slot, hslot, rfl⟩ := getElem?_slots h hbucket
        have hroom : slot.bucket.blockSize ≤ b.reserved := by
          apply hguard b hk
          rw [routedBlock, hidx]
          simp [hbucket]
        exact ⟨_, regions, h.deallocBucket hk hslot hroom (s.heap.used - slot.bucket.blockSize),
          .push hk hidx hslot⟩
    | none =>
      -- the whole room of a large allocation becomes a free region again
      obtain ⟨hreserved, hlen, hdvd⟩ := (h.live b (List.mem_of_getElem? hk)).large hidx
      have hrequest : b.layout.request.1 = b.reserved := by
        simp only [LARGE_NODE_LEN, Layout.request] at hlen ⊢
        omega
      obtain ⟨hwithin, -, hapart, -⟩ := Packed.cons_iff.mp hole.packed
      simp only [Extent.Within, Block.room, Extent.stop] at hwithin
      rw [← hreserved] at hlen
      simp only [LARGE_NODE_LEN] at hlen
      have hfresh : ∀ r ∈ regions, r.start ≠ b.ptr := by
        intro r hr
        have hr' := hapart r (List.mem_append_right _ (List.mem_append_right _ hr))
        have hpos := (h.regions r hr).1
        simp only [Extent.Apart, Extent.stop, Block.room, LARGE_NODE_LEN] at hr' hpos
        omega
      have hstop := h.stop
      rw [hrequest, BucketAllocator.deallocLarge, if_neg (by omega)]
      dsimp only
      generalize hstored : ({ s.heap with
        used := s.heap.used - b.reserved } : BucketAllocator).setSize b.ptr b.reserved = h₁
      have hagree : AgreeOutside b.room.start b.room.stop s.heap.mem h₁.mem := by
        rw [← hstored]
        refine (write64_agree s.heap.mem b.ptr b.reserved).mono le_rfl ?_
        simp only [Block.room, Extent.stop]
        omega
      have hlist : LargeList h₁.mem h₁.largeHead ([] ++ regions) := by
        rw [← hstored] at hagree ⊢
        exact h.large.frame hagree hole.headers_outside
      have hsize : read64 h₁.mem b.room.start = b.room.len := by
        rw [← hstored]
        exact read64_write64 _ _ _ (by omega)
      obtain ⟨mid, post, rfl, hmid, hpost, heq⟩ := deallocLargeFrom_spec h₁ b.ptr b.reserved [] regions
        WALK_LIMIT hlist h.length_lt (by omega) hfresh
      have hhead : h₁.largeHead = headOf ((mid ++ post).map Extent.start) := hlist.head_eq
      rw [← hhead] at heq
      rw [show (none : Cursor) = cursorAfter [] from rfl, heq]
      have hmiddle : Hole unit h₁ (s.live.eraseIdx k) slots mid post b.room :=
        (h.holeLive hk).store hagree (by rw [← hstored]; rfl) (by rw [← hstored]; rfl)
          (by rw [← hstored]; rfl)
      have hroom : RegionOk unit b.room := ⟨hlen, hdvd⟩
      refine ⟨slots, _, hmiddle.insertAt hlist hsize hroom, ?_⟩
      have hused : (h₁.insertAt b.ptr b.reserved (cursorAfter mid)
          (headOf (post.map Extent.start))).used = s.heap.used - b.reserved := by
        rw [insertAt_used, ← hstored]
        rfl
      rw [HeapState.contents, HeapState.contents, List.nil_append]
      show Effect _ _ ⟨_, _, _, (h₁.insertAt b.ptr b.reserved _ _).used⟩
      rw [hused]
      exact .insert hk hidx rfl hmid hpost

/-- A store by a client keeps the tiling. -/
private theorem Tiling.clientStore (h : Tiling unit s slots regions) (k off : Nat) (byte : UInt8) :
    Tiling unit (s.step (.store k off byte)) slots regions := by
  rw [HeapState.step]
  cases hk : s.live[k]? with
  | none => exact h
  | some b =>
    dsimp only
    split
    · next hoff =>
      have hole : Hole unit s.heap (s.live.eraseIdx k) slots [] regions b.room := h.holeLive hk
      have hfits := (h.live b (List.mem_of_getElem? hk)).fits
      have hagree : AgreeOutside b.room.start b.room.stop s.heap.mem
          (Function.update s.heap.mem (b.ptr + off) byte) := by
        intro a ha
        simp only [Block.room, Extent.stop] at ha
        exact Function.update_of_ne (by omega) _ _
      exact ⟨h.start, h.stop, h.packed, h.buckets, h.blockSizes, hole.linked_frame hagree,
        h.large.frame hagree hole.headers_outside, h.regions, h.live⟩
    · exact h

/-- What a guarded step does. -/
theorem Tiling.effect (hunit : unit ∣ 8) (h : Tiling unit s slots regions) (e : HeapEvent)
    (hguard : s.Guarded unit e) : s.StepsTo unit slots regions e := by
  cases e with
  | alloc layout => exact h.alloc_effect hunit layout hguard
  | dealloc k => exact h.dealloc_effect k hguard
  | store k off byte =>
    refine ⟨slots, regions, h.clientStore k off byte, ?_⟩
    rw [HeapState.step]
    split
    · split <;> exact .store
    · exact .store

/-- A guarded step keeps the tiling. -/
theorem step_tiling (hunit : unit ∣ 8) (e : HeapEvent)
    (h : ∃ slots regions, Tiling unit s slots regions) (hguard : s.Guarded unit e) :
    ∃ slots regions, Tiling unit (s.step e) slots regions := by
  obtain ⟨slots, regions, h⟩ := h
  obtain ⟨slots', regions', htiling, -⟩ := h.effect hunit e hguard
  exact ⟨slots', regions', htiling⟩

end Steps

end RustKernel.Memory
