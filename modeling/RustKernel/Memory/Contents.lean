import RustKernel.Memory.LargeSteps

/-!
# RustKernel.Memory.Contents

What the allocator manages, without the memory that holds it: the live allocations, the free blocks
of the buckets, the free regions in address order, and the byte counter.

`Effect` says all that an event can do to the contents. The properties of runs are proved from its
cases; that a guarded step of the heap has such an effect is `Tiling.effect`.
-/

namespace RustKernel.Memory

open Lib BucketAllocator

structure Contents where
  live : List Block
  slots : List Slot
  regions : List Extent
  used : Nat

def HeapState.contents (s : HeapState) (slots : List Slot) (regions : List Extent) : Contents :=
  ⟨s.live, slots, regions, s.heap.used⟩

/-- The first region the request fits in. -/
def firstFitting (regions : List Extent) (layout : Layout) : Option Extent :=
  regions.find? fun r => Fits layout.request.1 layout.request.2 r

/-- No bucket serves the request: it has none of its size, its blocks are too small for the
    alignment, or they are used up. -/
def Contents.Unserved (c : Contents) (layout : Layout) : Prop :=
  ∀ idx slot, bucketIndex layout.request.1 = some idx → c.slots[idx]? = some slot →
    layout.request.2 ≤ slot.bucket.blockSize → slot.free = []

/-- An allocation pops a block, splits a region or is refused; a release pushes a block, puts a
    region back or, without a bucket for its size, has no effect on the free lists. -/
inductive Effect (c : Contents) : HeapEvent → Contents → Prop
  | pop {layout : Layout} {idx : Nat} {slot : Slot} {ptr : Nat}
      (index : bucketIndex layout.request.1 = some idx) (slot_eq : c.slots[idx]? = some slot)
      (aligned : layout.request.2 ≤ slot.bucket.blockSize)
      (free_eq : slot.free = ptr :: slot.free.tail) :
      Effect c (.alloc layout)
        { c with
          live := ⟨ptr, layout, slot.bucket.blockSize⟩ :: c.live
          slots := c.slots.set idx slot.pop
          used := (c.used + slot.bucket.blockSize) % 2 ^ 64 }
  | split {layout : Layout} {mid post : List Extent} {r : Extent} {ptr : Nat}
      (unserved : c.Unserved layout) (regions_eq : c.regions = mid ++ r :: post)
      (first : firstFitting c.regions layout = some r)
      (ptr_eq : ptr = alignUp r.start layout.request.2) (ge_start : r.start ≤ ptr)
      (aligned : layout.request.2 ∣ ptr) (le_stop : ptr + layout.request.1 ≤ r.stop) :
      Effect c (.alloc layout)
        { c with
          live := ⟨ptr, layout, layout.request.1⟩ :: c.live
          regions := mid ++ (leftovers r ptr layout.request.1 ++ post)
          used := (c.used + layout.request.1) % 2 ^ 64 }
  | refuse {layout : Layout} (unserved : c.Unserved layout)
      (first : firstFitting c.regions layout = none) : Effect c (.alloc layout) c
  | push {k idx : Nat} {b : Block} {slot : Slot} (live_eq : c.live[k]? = some b)
      (index : bucketIndex b.layout.request.1 = some idx) (slot_eq : c.slots[idx]? = some slot) :
      Effect c (.dealloc k)
        { c with
          live := c.live.eraseIdx k
          slots := c.slots.set idx (slot.push b.ptr)
          used := c.used - slot.bucket.blockSize }
  | insert {k : Nat} {b : Block} {mid post : List Extent} (live_eq : c.live[k]? = some b)
      (index : bucketIndex b.layout.request.1 = none) (regions_eq : c.regions = mid ++ post)
      (before : ∀ r ∈ mid, r.start < b.ptr) (after : ∀ r ∈ post.head?, b.ptr < r.start) :
      Effect c (.dealloc k)
        { c with
          live := c.live.eraseIdx k
          regions := coalesce mid b.room post
          used := c.used - b.reserved }
  | unbucketed {k idx : Nat} {b : Block} (live_eq : c.live[k]? = some b)
      (index : bucketIndex b.layout.request.1 = some idx) (slot_eq : c.slots[idx]? = none) :
      Effect c (.dealloc k) { c with live := c.live.eraseIdx k }
  | miss {k : Nat} (live_eq : c.live[k]? = none) : Effect c (.dealloc k) c
  | store {k off : Nat} {byte : UInt8} : Effect c (.store k off byte) c

/-! ### The byte counter -/

section Counter

variable (h : BucketAllocator)

@[simp] theorem setSize_used (node v : Nat) : (h.setSize node v).used = h.used := rfl

@[simp] theorem setNext_used (node v : Nat) : (h.setNext node v).used = h.used := rfl

@[simp] theorem takeNext_used (node : Nat) : (h.takeNext node).2.used = h.used := rfl

@[simp] theorem writeCursor_used (cursor : Cursor) (v : Nat) :
    (h.writeCursor cursor v).used = h.used := by
  cases cursor <;> rfl

/-- A split charges the size of the request. -/
theorem carve_used (cursor : Cursor) (region allocStart size : Nat) :
    (h.carve cursor region allocStart size).used = (h.used + size) % 2 ^ 64 := by
  rw [BucketAllocator.carve]
  dsimp only
  split_ifs <;> simp only [writeCursor_used, setNext_used, setSize_used, takeNext_used]

private theorem insertBefore_used (ptr size : Nat) (prev : Cursor) (curr : Nat) :
    (h.insertBefore ptr size prev curr).used = h.used := by
  rw [BucketAllocator.insertBefore]
  split_ifs <;> simp

theorem insertAt_used (ptr size : Nat) (prev : Cursor) (curr : Nat) :
    (h.insertAt ptr size prev curr).used = h.used := by
  cases prev with
  | none => exact insertBefore_used _ _ _ _ _
  | some p =>
    rw [BucketAllocator.insertAt]
    split_ifs
    · rw [BucketAllocator.mergePrev]
      dsimp only
      split_ifs <;> simp
    · exact insertBefore_used _ _ _ _ _

end Counter

end RustKernel.Memory
