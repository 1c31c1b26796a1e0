import RustKernel.Memory.BucketSteps
import RustKernel.Memory.LargeList

/-!
# RustKernel.Memory.LargeSteps

Allocation from the large free list and release into it keep the tiling of the heap.

`Tiling.carve` needs that the split is good (`GoodSplit`): a prefix or leftover that
stays in the list must have room for its header outside of the allocation.
`Hole.insertAt` needs nothing beyond the tiling.

What becomes of the list is known from `LargeList.carve` and `LargeList.insertAt`. What is
left is that the extents stay packed, and that the stores reach no block of a bucket.
-/

namespace RustKernel.Memory

open Lib BucketAllocator

section Frames

variable {unit : Nat} {h h' : BucketAllocator} {live : List Block} {slots : List Slot}
  {pre post : List Extent} {e : Extent} {mem' : ByteStore}

/-- Stores into the hole and into the regions keep the free lists of the buckets. -/
private theorem Hole.linked_storesIn (hole : Hole unit h live slots pre post e) {es : List Extent}
    (hs : StoresIn es h.mem mem') (hes : ∀ f ∈ es, f ∈ e :: (pre ++ post)) :
    ∀ slot ∈ slots, slot.Linked mem' := by
  intro slot hslot
  refine hs.linked (hole.linked slot hslot) fun f hf g hg => ?_
  obtain ⟨-, -, hapart, hrest⟩ := Packed.cons_iff.mp hole.packed
  have hslots : f ∈ slots.flatMap Slot.extents := List.mem_flatMap.mpr ⟨slot, hslot, hf⟩
  rcases List.mem_cons.mp (hes g hg) with rfl | hg
  · exact (hapart f (List.mem_append_right _ (List.mem_append_left _ hslots))).symm
  · obtain ⟨-, hfree, -⟩ := Packed.append_iff.mp hrest
    obtain ⟨-, -, hcross⟩ := Packed.append_iff.mp hfree
    exact hcross f hslots g hg

/-- Stores into a hole leave a hole. -/
theorem Hole.store (hole : Hole unit h live slots pre post e)
    (hagree : AgreeOutside e.start e.stop h.mem h'.mem) (hbuckets : h'.buckets = h.buckets)
    (hstart : h'.heapStart = h.heapStart) (hstop : h'.heapEnd = h.heapEnd) :
    Hole unit h' live slots pre post e :=
  ⟨hstart ▸ hole.start, hstop ▸ hole.stop, hstart ▸ hstop ▸ hole.packed, hbuckets ▸ hole.buckets,
    hole.blockSizes, hole.linked_frame hagree, hole.regions, hole.live⟩

private theorem Hole.lengths (hole : Hole unit h live slots pre post e) :
    ∀ q ∈ pre ++ post, LARGE_NODE_LEN ≤ q.len := fun q hq => (hole.regions q hq).1

/-- No two headers of the regions overlap, the hole being one of them. -/
private theorem Hole.headersApart (hole : Hole unit h live slots pre post e)
    (he : LARGE_NODE_LEN ≤ e.len) : HeadersApart (pre ++ e :: post) := by
  obtain ⟨hwithin, hpos, hapart, hrest⟩ := Packed.cons_iff.mp hole.packed
  have hregions : Packed h.heapStart h.heapEnd (e :: (pre ++ post)) := by
    refine Packed.cons_iff.mpr ⟨hwithin, hpos, fun q hq => hapart q ?_, packed_regions hrest⟩
    exact List.mem_append_right _ (List.mem_append_right _ hq)
  refine headersApart_of_packed (hregions.perm List.perm_middle.symm) fun q hq => ?_
  rcases List.mem_cons.mp (List.perm_middle.mem_iff.mp hq) with rfl | hq
  · exact he
  · exact hole.lengths q hq

end Frames

/-! ### Carving an allocation out of a region -/

/-- What the split must leave: no remainder that stays in the list, or a leftover at a multiple
    of `unit`, behind a prefix or an allocation that is as long as a header. -/
def GoodSplit (unit : Nat) (r : Extent) (allocStart size : Nat) : Prop :=
  r.stop < allocStart + size + LARGE_NODE_LEN ∨
  (allocStart = r.start ∧ LARGE_NODE_LEN ≤ size ∨ r.start + LARGE_NODE_LEN ≤ allocStart) ∧
    unit ∣ allocStart + size

section Carve

variable {unit : Nat} {h : BucketAllocator} {live : List Block} {slots : List Slot}
  {pre post : List Extent} {r : Extent} {b : Block}

/-- A split changes the memory, the head of the list and the byte counter only. -/
theorem carve_frame (cursor : Cursor) (region allocStart size : Nat) :
    (h.carve cursor region allocStart size).buckets = h.buckets ∧
    (h.carve cursor region allocStart size).heapStart = h.heapStart ∧
    (h.carve cursor region allocStart size).heapEnd = h.heapEnd := by
  rw [BucketAllocator.carve]
  dsimp only
  split_ifs <;>
    simp only [takeNext_frame, writeCursor_frame, setNext_frame, setSize_frame, and_self]

/-- The allocation and what a good split leaves lie one behind the other in the region. -/
private theorem packed_leftovers (hpos : 0 < b.reserved) (hlo : r.start ≤ b.ptr)
    (hhi : b.ptr + b.reserved ≤ r.stop) :
    Packed r.start r.stop ([b].map Block.room ++ leftovers r b.ptr b.reserved) := by
  rw [leftovers]
  dsimp only
  split_ifs with hexcess hfront
  all_goals
    simp only [LARGE_NODE_LEN, Extent.stop] at hhi hexcess
    refine ⟨?_, ?_, ?_⟩ <;>
      simp only [List.map_cons, List.map_nil, List.cons_append, List.nil_append,
        List.forall_mem_cons, List.pairwise_cons, Extent.Within, Extent.Apart, Block.room,
        Extent.stop, List.not_mem_nil, false_imp_iff, implies_true, List.Pairwise.nil, and_true]
    all_goals omega

private theorem regionOk_leftovers (hr : RegionOk unit r)
    (hgood : GoodSplit unit r b.ptr b.reserved)
    (hlo : r.start ≤ b.ptr) : ∀ q ∈ leftovers r b.ptr b.reserved, RegionOk unit q := by
  rw [leftovers]
  dsimp only
  split_ifs with hexcess hfront
  · simp
  all_goals
    simp only [GoodSplit, LARGE_NODE_LEN] at hgood hexcess
    rcases hgood with hsmall | ⟨hroom, hunit⟩
    · omega
    simp only [List.forall_mem_cons, List.not_mem_nil, false_imp_iff, implies_true, and_true,
      RegionOk]
  all_goals simp only [LARGE_NODE_LEN]
  · exact ⟨by omega, hunit⟩
  · exact ⟨⟨by omega, hr.2⟩, by omega, hunit⟩

/-- A good split keeps the tiling. -/
theorem Tiling.carve {s : HeapState} (ht : Tiling unit s slots (pre ++ r :: post))
    (hb : b.Accounted unit) (hlo : r.start ≤ b.ptr) (hhi : b.ptr + b.reserved ≤ r.stop)
    (hgood : GoodSplit unit r b.ptr b.reserved) :
    Tiling unit ⟨s.heap.carve (cursorAfter pre) r.start b.ptr b.reserved, b :: s.live⟩ slots
      (pre ++ (leftovers r b.ptr b.reserved ++ post)) := by
  have hole := ht.holeRegion
  have hr := ht.regions r (List.mem_append_right _ List.mem_cons_self)
  have hstop := hole.bounds.2
  have hmin := hb.min
  have hapart := hole.headersApart hr.1
  -- the header of what is left behind the allocation lies in the region, behind its own header
  have hleft : b.ptr + b.reserved + LARGE_NODE_LEN ≤ r.stop →
      ∀ q ∈ pre ++ r :: post, (header q).Apart ⟨b.ptr + b.reserved, LARGE_NODE_LEN⟩ := by
    intro hexcess q hq
    rcases List.mem_cons.mp (List.perm_middle.mem_iff.mp hq) with rfl | hq
    · rcases hgood with hsmall | ⟨hroom, -⟩
      · omega
      · simp only [Extent.Apart, header, Extent.stop, LARGE_NODE_LEN] at hroom ⊢
        omega
    · have hside := hole.headers_outside q hq
      simp only [Extent.Apart, header, Extent.stop] at hside hexcess ⊢
      omega
  have hlarge := ht.large.carve hapart (by omega) hlo hhi hleft
  have hend : s.heap.endAddr r.start = r.stop := endAddr_eq (ht.large.sizes r (by simp)) (by omega)
  have hstores : StoresIn (r :: pre) s.heap.mem
      (s.heap.carve (cursorAfter pre) r.start b.ptr b.reserved).mem :=
    carve_storesIn hr.1 (fun p hp => hole.lengths p (List.mem_append_left post hp)) hend hlo
  obtain ⟨hbuckets, hheapStart, hheapEnd⟩ := carve_frame (h := s.heap) (cursorAfter pre) r.start
    b.ptr b.reserved
  have hlinked := hole.linked_storesIn hstores fun f hf => by
    rcases List.mem_cons.mp hf with rfl | hf
    · exact List.mem_cons_self
    · exact List.mem_cons_of_mem r (List.mem_append_left post hf)
  exact hole.fill [b] (packed_leftovers (by omega) hlo hhi) hbuckets hheapStart hheapEnd hlinked
    hlarge (regionOk_leftovers hr hgood hlo) (by simpa using hb)

end Carve

/-! ### Inserting a freed block -/

section Insert

variable {unit lo hi : Nat} {h h' : BucketAllocator} {live : List Block} {slots : List Slot}
  {pre post es : List Extent} {e p c : Extent}

/-- An insertion changes the memory and the head of the list only. -/
theorem insertAt_frame (ptr size : Nat) (prev : Cursor) (curr : Nat) :
    (h.insertAt ptr size prev curr).buckets = h.buckets ∧
    (h.insertAt ptr size prev curr).heapStart = h.heapStart ∧
    (h.insertAt ptr size prev curr).heapEnd = h.heapEnd := by
  have hbefore : (h.insertBefore ptr size prev curr).buckets = h.buckets ∧
      (h.insertBefore ptr size prev curr).heapStart = h.heapStart ∧
      (h.insertBefore ptr size prev curr).heapEnd = h.heapEnd := by
    rw [BucketAllocator.insertBefore]
    split <;> cases prev <;> exact ⟨rfl, rfl, rfl⟩
  cases prev with
  | none => exact hbefore
  | some p =>
    rw [BucketAllocator.insertAt]
    split
    · rw [BucketAllocator.mergePrev]
      dsimp only
      split <;> exact ⟨rfl, rfl, rfl⟩
    · exact hbefore

/-- An extent goes in front of a list, united with the first extent if they touch. -/
private theorem packed_absorb (h : Packed lo hi (e :: (es ++ (pre ++ post)))) :
    Packed lo hi (es ++ (pre ++ absorb e post)) := by
  have hmiddle : ∀ (f : Extent) (rest : List Extent),
      (f :: (es ++ (pre ++ rest))).Perm (es ++ (pre ++ f :: rest)) := by
    intro f rest
    rw [← List.append_assoc, ← List.append_assoc]
    exact List.perm_middle.symm
  cases post with
  | nil => exact h.perm (hmiddle e [])
  | cons c post =>
    rw [absorb]
    split
    case isTrue hadj =>
      have hpair := h.perm ((hmiddle c post).symm.cons e)
      exact (hpair.merge hadj).perm (hmiddle _ post)
    case isFalse => exact h.perm (hmiddle e (c :: post))

/-- It goes between two parts of a list, united with the neighbours it touches. -/
private theorem packed_coalesce (h : Packed lo hi (e :: (es ++ (pre ++ post)))) :
    Packed lo hi (es ++ coalesce pre e post) := by
  rcases List.eq_nil_or_concat' pre with rfl | ⟨front, p, rfl⟩
  · exact packed_absorb h
  rw [coalesce, List.getLast?_concat]
  dsimp only
  split
  case isTrue hadj =>
    have hswap : (e :: (es ++ (front ++ [p] ++ post))).Perm
        (p :: e :: (es ++ (front ++ post))) := by
      rw [← Multiset.coe_eq_coe]
      simp only [← Multiset.coe_add, ← Multiset.cons_coe, ← Multiset.singleton_add, Multiset.coe_nil]
      abel
    rw [List.dropLast_concat]
    exact packed_absorb ((h.perm hswap).merge hadj)
  case isFalse => exact packed_absorb h

private theorem regionOk_absorb (he : RegionOk unit e) (h : ∀ q ∈ post, RegionOk unit q) :
    ∀ q ∈ absorb e post, RegionOk unit q := by
  cases post with
  | nil => simpa [absorb] using he
  | cons c post =>
    obtain ⟨-, hpost⟩ := List.forall_mem_cons.mp h
    rw [absorb]
    split
    · exact List.forall_mem_cons.mpr ⟨⟨he.1.trans (Nat.le_add_right _ _), he.2⟩, hpost⟩
    · exact List.forall_mem_cons.mpr ⟨he, h⟩

private theorem regionOk_coalesce (he : RegionOk unit e) (h : ∀ q ∈ pre ++ post, RegionOk unit q) :
    ∀ q ∈ coalesce pre e post, RegionOk unit q := by
  obtain ⟨hpre, hpost⟩ := List.forall_mem_append.mp h
  rcases List.eq_nil_or_concat' pre with rfl | ⟨front, p, rfl⟩
  · exact regionOk_absorb he hpost
  obtain ⟨hfront, hp⟩ := List.forall_mem_append.mp hpre
  have hp := hp p (List.mem_singleton_self p)
  rw [coalesce, List.getLast?_concat]
  dsimp only
  split
  · rw [List.dropLast_concat]
    have hgrown : RegionOk unit ⟨p.start, p.len + e.len⟩ := ⟨hp.1.trans (Nat.le_add_right _ _), hp.2⟩
    exact List.forall_mem_append.mpr ⟨hfront, regionOk_absorb hgrown hpost⟩
  · exact List.forall_mem_append.mpr ⟨hpre, regionOk_absorb he hpost⟩

/-- Between the two regions that enclose it, a freed block finds its place. -/
theorem Hole.insertAt (hole : Hole unit h live slots pre post e)
    (hlist : LargeList h.mem h.largeHead (pre ++ post)) (hsize : read64 h.mem e.start = e.len)
    (he : RegionOk unit e) :
    Tiling unit ⟨h.insertAt e.start e.len (cursorAfter pre)
      (headOf (post.map Extent.start)), live⟩ slots (coalesce pre e post) := by
  obtain ⟨hpos, hstop⟩ := hole.bounds
  obtain ⟨hbuckets, hheapStart, hheapEnd⟩ := insertAt_frame (h := h) e.start e.len (cursorAfter pre)
    (headOf (post.map Extent.start))
  have hstops : ∀ q ∈ pre ++ post, q.stop < 2 ^ 64 := by
    intro q hq
    have hwithin := (packed_regions (Packed.cons_iff.mp hole.packed).2.2.2).within q hq
    have hend := hole.stop
    simp only [Extent.Within] at hwithin
    omega
  -- only headers of free regions are written, so what else is linked stays
  have hstores : StoresIn (e :: (pre ++ post)) h.mem
      (h.insertAt e.start e.len (cursorAfter pre) (headOf (post.map Extent.start))).mem :=
    insertAt_storesIn he.1 hole.lengths
  have hpacked : Packed h.heapStart h.heapEnd (extents live slots (coalesce pre e post)) := by
    have hwhole := hole.packed
    unfold extents at hwhole ⊢
    rw [← List.append_assoc] at hwhole ⊢
    exact packed_coalesce hwhole
  exact {
    start := by simpa only [hheapStart] using hole.start
    stop := by simpa only [hheapEnd] using hole.stop
    packed := by simpa only [hheapStart, hheapEnd] using hpacked
    buckets := by simpa only [hbuckets] using hole.buckets
    blockSizes := hole.blockSizes
    linked := hole.linked_storesIn hstores fun f hf => hf
    large := hlist.insertAt hsize (by omega) (by omega) (hole.headersApart he.1) hstops
    regions := regionOk_coalesce he hole.regions
    live := hole.live }

end Insert

end RustKernel.Memory
