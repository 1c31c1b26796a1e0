import RustKernel.Memory.FreeList
import Mathlib.Algebra.Order.Group.Multiset

/-!
# RustKernel.Memory.Tiling

The heap with its clients: live allocations, the calls that make and free them, and
the stores of the clients into their own bytes.

`Tiling` is the invariant of a sound heap. The live allocations, the free blocks of
the buckets and the large free regions are packed into the heap, and both kinds of
free lists are intact in memory.
-/

namespace RustKernel.Memory

open Lib BucketAllocator

/-! ### Heap states and events -/

/-- A live allocation, with the number of bytes the allocator set aside for it. -/
structure Block where
  ptr : Nat
  layout : Layout
  reserved : Nat

/-- `[ptr, ptr + layout.size())` -/
def Block.extent (b : Block) : Extent := ⟨b.ptr, b.layout.size⟩

def Block.room (b : Block) : Extent := ⟨b.ptr, b.reserved⟩

structure HeapState where
  heap : BucketAllocator
  live : List Block

/-- An allocation, the release of the `k`-th live allocation with its own layout, or a store
    by a client into its `k`-th live allocation. -/
inductive HeapEvent where
  | alloc (layout : Layout)
  | dealloc (k : Nat)
  | store (k off : Nat) (byte : UInt8)

/-- The size and alignment `alloc` works with. -/
def Layout.request (layout : Layout) : Nat × Nat := (max layout.size 8, max layout.align 8)

/-- The block size of the bucket that `dealloc` routes a layout to, if there is one. -/
def BucketAllocator.routedBlock (h : BucketAllocator) (layout : Layout) : Option Nat := do
  let idx ← bucketIndex layout.request.1
  let bucket ← h.buckets[idx]?
  some bucket.blockSize

/-- A bucket serves the request. -/
def BucketAllocator.servedByBucket (h : BucketAllocator) (layout : Layout) : Bool :=
  (h.tryBucket layout.request.1 layout.request.2).isSome

/-- The bytes `alloc` sets aside: a whole block of a bucket, or the request itself. -/
def BucketAllocator.reserved (h : BucketAllocator) (layout : Layout) : Nat :=
  if h.servedByBucket layout then (h.routedBlock layout).getD 0 else layout.request.1

def HeapState.step (s : HeapState) : HeapEvent → HeapState
  | .alloc layout =>
    match s.heap.alloc layout with
    | (some ptr, heap) => ⟨heap, ⟨ptr, layout, s.heap.reserved layout⟩ :: s.live⟩
    | (none, heap) => { s with heap }
  | .dealloc k =>
    match s.live[k]? with
    | some b => ⟨s.heap.dealloc b.ptr b.layout, s.live.eraseIdx k⟩
    | none => s
  | .store k off byte =>
    match s.live[k]? with
    | some b =>
      if off < b.layout.size then
        { s with heap := { s.heap with mem := Function.update s.heap.mem (b.ptr + off) byte } }
      else s
    | none => s

/-! ### The invariant -/

/-- What is known of a live allocation: it fits in its room, and a large one has exactly the
    room it asked for, at a multiple of `unit`. -/
structure Block.Accounted (unit : Nat) (b : Block) : Prop where
  fits : b.layout.size ≤ b.reserved
  min : 8 ≤ b.reserved
  large : bucketIndex b.layout.request.1 = none →
    b.reserved = b.layout.size ∧ LARGE_NODE_LEN ≤ b.layout.size ∧ unit ∣ b.ptr

/-- A free region can hold its header and starts at a multiple of `unit`. -/
def RegionOk (unit : Nat) (r : Extent) : Prop := LARGE_NODE_LEN ≤ r.len ∧ unit ∣ r.start

/-- Every extent of the heap: rooms of live allocations, free blocks, free regions. -/
def extents (live : List Block) (slots : List Slot) (regions : List Extent) : List Extent :=
  live.map Block.room ++ (slots.flatMap Slot.extents ++ regions)

/-- Each bucket has its block size, or was never set up. -/
def SlotSizes (slots : List Slot) : Prop :=
  ∀ (i : Nat) (slot : Slot), slots[i]? = some slot →
    BUCKET_SIZES[i]? = some slot.bucket.blockSize ∨ slot.bucket.blockSize = 0

structure Tiling (unit : Nat) (s : HeapState) (slots : List Slot) (regions : List Extent) :
    Prop where
  start : 0 < s.heap.heapStart
  stop : s.heap.heapEnd ≤ 2 ^ 63
  packed : Packed s.heap.heapStart s.heap.heapEnd (extents s.live slots regions)
  buckets : slots.map Slot.bucket = s.heap.buckets
  blockSizes : SlotSizes slots
  linked : ∀ slot ∈ slots, slot.Linked s.heap.mem
  large : LargeList s.heap.mem s.heap.largeHead regions
  regions : ∀ r ∈ regions, RegionOk unit r
  live : ∀ b ∈ s.live, b.Accounted unit

/-! ### Reading the invariant -/

section Packing

variable {live : List Block} {slots : List Slot} {pre post regions : List Extent} {r : Extent}
  {lo hi : Nat}

/-- Bring one region to the front. -/
private theorem extents_region : (extents live slots (pre ++ r :: post)).Perm
    (r :: extents live slots (pre ++ post)) := by
  unfold extents
  simp only [← List.append_assoc]
  exact List.perm_middle

/-- The extents without the live allocations and blocks. -/
theorem packed_regions (h : Packed lo hi (extents live slots regions)) : Packed lo hi regions :=
  h.sublist ((List.sublist_append_right _ _).trans (List.sublist_append_right _ _))

/-- Bring one live allocation to the front. -/
private theorem extents_live {k : Nat} {b : Block} (h : live[k]? = some b) :
    (extents live slots regions).Perm (b.room :: extents (live.eraseIdx k) slots regions) := by
  obtain ⟨hk, rfl⟩ := List.getElem?_eq_some_iff.mp h
  unfold extents
  exact ((List.getElem_cons_eraseIdx_perm hk).symm.map Block.room).append_right _

/-- Bring the free blocks of one bucket to the front. -/
theorem extents_slot {k : Nat} {slot : Slot} (h : slots[k]? = some slot) :
    (extents live slots regions).Perm
      (slot.extents ++ extents live (slots.eraseIdx k) regions) := by
  obtain ⟨hk, rfl⟩ := List.getElem?_eq_some_iff.mp h
  have hslots : (slots.flatMap Slot.extents).Perm
      (slots[k].extents ++ (slots.eraseIdx k).flatMap Slot.extents) :=
    (List.getElem_cons_eraseIdx_perm hk).symm.flatMap_right Slot.extents
  unfold extents
  calc live.map Block.room ++ (slots.flatMap Slot.extents ++ regions)
    _ |>.Perm (live.map Block.room ++
        (slots[k].extents ++ (slots.eraseIdx k).flatMap Slot.extents ++ regions)) :=
      (hslots.append_right regions).append_left _
    _ |>.Perm (slots[k].extents ++ (live.map Block.room ++
        ((slots.eraseIdx k).flatMap Slot.extents ++ regions))) := by
      simp only [← List.append_assoc]
      exact ((List.perm_append_comm).append_right _).append_right _

theorem headersApart_of_packed (h : Packed lo hi regions)
    (hlen : ∀ r ∈ regions, LARGE_NODE_LEN ≤ r.len) : HeadersApart regions := by
  refine h.apart.imp_of_mem ?_
  intro r q hr hq hapart
  have hr' := hlen r hr
  have hq' := hlen q hq
  simp only [Extent.Apart, Extent.stop, header] at hapart ⊢
  omega

end Packing

/-! ### A tiling with a hole -/

/-- A tiling of which one extent has been taken out, between two parts of the large list. The
    list itself is not accounted for. -/
structure Hole (unit : Nat) (h : BucketAllocator) (live : List Block) (slots : List Slot)
    (pre post : List Extent) (e : Extent) : Prop where
  start : 0 < h.heapStart
  stop : h.heapEnd ≤ 2 ^ 63
  packed : Packed h.heapStart h.heapEnd (e :: extents live slots (pre ++ post))
  buckets : slots.map Slot.bucket = h.buckets
  blockSizes : SlotSizes slots
  linked : ∀ slot ∈ slots, slot.Linked h.mem
  regions : ∀ r ∈ pre ++ post, RegionOk unit r
  live : ∀ b ∈ live, b.Accounted unit

/-- Take a free region out. -/
theorem Tiling.holeRegion {unit : Nat} {s : HeapState} {slots : List Slot} {pre post : List Extent}
    {r : Extent} (h : Tiling unit s slots (pre ++ r :: post)) :
    Hole unit s.heap s.live slots pre post r where
  start := h.start
  stop := h.stop
  packed := h.packed.perm extents_region
  buckets := h.buckets
  blockSizes := h.blockSizes
  linked := h.linked
  regions := fun q hq => h.regions q (by
    rcases List.mem_append.mp hq with hq | hq
    · exact List.mem_append_left _ hq
    · exact List.mem_append_right _ (List.mem_cons_of_mem r hq))
  live := h.live

/-- Take a live allocation out. -/
theorem Tiling.holeLive {unit : Nat} {s : HeapState} {slots : List Slot} {pre post : List Extent}
    (h : Tiling unit s slots (pre ++ post)) {k : Nat} {b : Block} (hk : s.live[k]? = some b) :
    Hole unit s.heap (s.live.eraseIdx k) slots pre post b.room where
  start := h.start
  stop := h.stop
  packed := h.packed.perm (extents_live hk)
  buckets := h.buckets
  blockSizes := h.blockSizes
  linked := h.linked
  regions := h.regions
  live := fun c hc => h.live c (List.mem_of_mem_eraseIdx hc)

namespace Hole

variable {unit : Nat} {h h' : BucketAllocator} {live newLive : List Block} {slots : List Slot}
  {pre post news : List Extent} {e p c : Extent} {mem' : ByteStore}

/-- The hole lies in the heap. -/
theorem bounds (hole : Hole unit h live slots pre post e) :
    0 < e.start ∧ e.stop ≤ 2 ^ 63 := by
  obtain ⟨⟨hlo, hhi⟩, -⟩ := Packed.cons_iff.mp hole.packed
  have hstart := hole.start
  have hstop := hole.stop
  omega

/-- No header of a remaining region reaches into the hole. -/
theorem headers_outside (hole : Hole unit h live slots pre post e) :
    ∀ r ∈ pre ++ post, (header r).stop ≤ e.start ∨ e.stop ≤ r.start := by
  intro r hr
  obtain ⟨-, -, hapart, -⟩ := Packed.cons_iff.mp hole.packed
  have hlen := (hole.regions r hr).1
  have hr' := hapart r (List.mem_append_right _ (List.mem_append_right _ hr))
  simp only [Extent.Apart, header, Extent.stop] at hr' ⊢
  omega

/-- Stores into the hole keep the free lists of the buckets. -/
theorem linked_frame (hole : Hole unit h live slots pre post e)
    (hagree : AgreeOutside e.start e.stop h.mem mem') : ∀ slot ∈ slots, slot.Linked mem' := by
  intro slot hslot
  obtain ⟨-, -, hapart, -⟩ := Packed.cons_iff.mp hole.packed
  refine (hole.linked slot hslot).frame hagree fun f hf => (hapart f ?_).symm
  exact List.mem_append_right _ (List.mem_append_left _ (List.mem_flatMap.mpr ⟨slot, hslot, hf⟩))

/-- Live allocations and free regions packed into the hole. -/
private theorem packed_fill (hole : Hole unit h live slots pre post e)
    (hpieces : Packed e.start e.stop (newLive.map Block.room ++ news)) :
    Packed h.heapStart h.heapEnd
      (extents (newLive ++ live) slots (pre ++ (news ++ post))) := by
  refine (hole.packed.split hpieces).perm ?_
  unfold extents
  rw [← Multiset.coe_eq_coe]
  simp only [← Multiset.coe_add, List.map_append]
  abel

private theorem regions_fill (hole : Hole unit h live slots pre post e)
    (hnews : ∀ r ∈ news, RegionOk unit r) : ∀ r ∈ pre ++ (news ++ post), RegionOk unit r := by
  intro r hr
  rcases List.mem_append.mp hr with hr | hr
  · exact hole.regions r (List.mem_append_left _ hr)
  · rcases List.mem_append.mp hr with hr | hr
    · exact hnews r hr
    · exact hole.regions r (List.mem_append_right _ hr)

/-- Fill the hole, the large list having been relinked. -/
theorem fill (hole : Hole unit h live slots pre post e) (newLive : List Block)
    (hpieces : Packed e.start e.stop (newLive.map Block.room ++ news))
    (hbuckets : h'.buckets = h.buckets) (hstart : h'.heapStart = h.heapStart)
    (hstop : h'.heapEnd = h.heapEnd) (hlinked : ∀ slot ∈ slots, slot.Linked h'.mem)
    (hlarge : LargeList h'.mem h'.largeHead (pre ++ (news ++ post)))
    (hnews : ∀ r ∈ news, RegionOk unit r) (hnewLive : ∀ b ∈ newLive, b.Accounted unit) :
    Tiling unit ⟨h', newLive ++ live⟩ slots (pre ++ (news ++ post)) where
  start := hstart ▸ hole.start
  stop := hstop ▸ hole.stop
  packed := by
    dsimp only
    rw [hstart, hstop]
    exact hole.packed_fill hpieces
  buckets := hbuckets ▸ hole.buckets
  blockSizes := hole.blockSizes
  linked := hlinked
  large := hlarge
  regions := hole.regions_fill hnews
  live := List.forall_mem_append.mpr ⟨hnewLive, hole.live⟩

end Hole

end RustKernel.Memory
