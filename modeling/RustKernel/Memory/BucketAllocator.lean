import RustKernel.Lib.ByteStore

/-!
# RustKernel.Memory.BucketAllocator

The kernel heap allocator, as the source computes it: nine buckets of fixed-size
blocks for small requests, and an address-ordered free list of large regions.

The free lists live in the memory the allocator manages, so the memory is part of
its state. An optional pointer is a word, `0` standing for `None`. A `FreeNode` is
the word at its address; a `LargeNode` is two words, its size and its successor.
-/

namespace RustKernel.Memory

open Lib

/-! ### Constants and layouts -/

/-- Bucket sizes in bytes. -/
def BUCKET_SIZES : List Nat := [8, 16, 32, 64, 128, 256, 512, 1024, 2048]

def BLOCKS_PER_BUCKET : Nat := 256

/-- `size_of::<LargeNode>()` -/
def LARGE_NODE_LEN : Nat := 16

/-- `core::alloc::Layout`, with what its constructors guarantee. -/
structure Layout where
  size : Nat
  align : Nat
  align_pow : ∃ k, align = 2 ^ k
  fits : size + (align - 1) ≤ 2 ^ 63 - 1

/-- `align_up` in 64-bit arithmetic; `2 ^ 64 - align` is `!(align - 1)`. -/
def alignUp (addr align : Nat) : Nat := ((addr + align - 1) % 2 ^ 64) &&& (2 ^ 64 - align)

/-- `NonNull::new` -/
def nonNull (ptr : Nat) : Option Nat := if ptr = 0 then none else some ptr

/-! ### Buckets -/

structure Bucket where
  blockSize : Nat
  freeList : Nat
  totalBlocks : Nat
  freeBlocks : Nat
  deriving DecidableEq, Repr

def Bucket.new (blockSize : Nat) : Bucket := ⟨blockSize, 0, 0, 0⟩

/-- The loop of `Bucket::init`: link `count` blocks from `current` on. -/
def Bucket.initNodes (mem : ByteStore) (current blockSize : Nat) : Nat → ByteStore
  | 0 => mem
  | count + 1 =>
    initNodes (write64 mem current (if count = 0 then 0 else current + blockSize))
      (current + blockSize) blockSize count

/-- `Bucket::init` -/
def Bucket.init (bucket : Bucket) (start size : Nat) (mem : ByteStore) : Bucket × ByteStore :=
  let blockCount := size / bucket.blockSize
  ({ bucket with totalBlocks := blockCount, freeBlocks := blockCount, freeList := start },
    initNodes mem start bucket.blockSize blockCount)

/-- `Bucket::alloc`: pop the first block. -/
def Bucket.alloc (bucket : Bucket) (mem : ByteStore) : Option (Nat × Bucket) :=
  if bucket.freeList = 0 then none
  else
    some (bucket.freeList,
      { bucket with
        freeList := read64 mem bucket.freeList
        freeBlocks := (bucket.freeBlocks + (2 ^ 64 - 1)) % 2 ^ 64 })

/-- `Bucket::dealloc`: push a block. -/
def Bucket.dealloc (bucket : Bucket) (ptr : Nat) (mem : ByteStore) : Bucket × ByteStore :=
  ({ bucket with freeList := ptr, freeBlocks := (bucket.freeBlocks + 1) % 2 ^ 64 },
    write64 mem ptr bucket.freeList)

/-! ### The allocator -/

structure BucketAllocator where
  buckets : List Bucket
  largeHead : Nat
  used : Nat
  heapStart : Nat
  heapEnd : Nat
  mem : ByteStore

/-- The bucket loop of `init`: the buckets, the memory, and what is left of the region. -/
def initBuckets (mem : ByteStore) (current remaining : Nat) :
    List Nat → List Bucket × ByteStore × Nat × Nat
  | [] => ([], mem, current, remaining)
  | blockSize :: sizes =>
    let bucketSize := blockSize * BLOCKS_PER_BUCKET
    -- the bucket that does not fit keeps its block size, the ones behind it are never set
    if remaining < bucketSize then
      (Bucket.new blockSize :: sizes.map fun _ => Bucket.new 0, mem, current, remaining)
    else
      let (bucket, mem) := (Bucket.new blockSize).init current bucketSize mem
      let (buckets, rest) := initBuckets mem (current + bucketSize) (remaining - bucketSize) sizes
      (bucket :: buckets, rest)

namespace BucketAllocator

/-- `BucketAllocator::init` on a fresh allocator. -/
def init (mem : ByteStore) (heapStart heapSize : Nat) : BucketAllocator :=
  let (buckets, mem, current, remaining) := initBuckets mem heapStart heapSize BUCKET_SIZES
  let heapEnd := heapStart + heapSize
  if remaining > LARGE_NODE_LEN then
    { buckets, largeHead := current, used := 0, heapStart, heapEnd,
      mem := write64 (write64 mem current remaining) (current + 8) 0 }
  else { buckets, largeHead := 0, used := 0, heapStart, heapEnd, mem }

/-- `bucket_index` -/
def bucketIndex (size : Nat) : Option Nat :=
  BUCKET_SIZES.findIdx? fun bucketSize => size ≤ bucketSize

/-! ### Fields of large nodes -/

/-- `LargeNode::end_addr` -/
def endAddr (h : BucketAllocator) (node : Nat) : Nat := (node + read64 h.mem node) % 2 ^ 64

def setSize (h : BucketAllocator) (node size : Nat) : BucketAllocator :=
  { h with mem := write64 h.mem node size }

def setNext (h : BucketAllocator) (node next : Nat) : BucketAllocator :=
  { h with mem := write64 h.mem (node + 8) next }

/-- `next.take()` -/
def takeNext (h : BucketAllocator) (node : Nat) : Nat × BucketAllocator :=
  (read64 h.mem (node + 8), h.setNext node 0)

/-- A place that holds a pointer into the large list: `large_head.next` (`none`), or the
    `next` field of a node. -/
abbrev Cursor := Option Nat

def readCursor (h : BucketAllocator) : Cursor → Nat
  | none => h.largeHead
  | some node => read64 h.mem (node + 8)

def writeCursor (h : BucketAllocator) : Cursor → Nat → BucketAllocator
  | none, ptr => { h with largeHead := ptr }
  | some node, ptr => h.setNext node ptr

/-- Bound on the walks below: a list of distinct addresses is shorter. -/
def WALK_LIMIT : Nat := 2 ^ 64

/-! ### Allocation -/

/-- `alloc_large` once `region` fits: cut the allocation out of it. -/
def carve (h : BucketAllocator) (cursor : Cursor) (region allocStart size : Nat) :
    BucketAllocator :=
  let allocEnd := allocStart + size
  let excess := h.endAddr region - allocEnd
  let h := { h with used := (h.used + size) % 2 ^ 64 }
  if excess ≥ LARGE_NODE_LEN then
    -- what is left behind the allocation becomes a region
    let h := h.setSize allocEnd excess
    if allocStart = region then
      let (next, h) := h.takeNext region
      (h.setNext allocEnd next).writeCursor cursor allocEnd
    else
      -- and so does what is left in front of it
      let (next, h) := (h.setSize region (allocStart - region)).takeNext region
      (h.setNext allocEnd next).setNext region allocEnd
  else
    -- the region goes as a whole, also what the request does not need of it
    let (next, h) := h.takeNext region
    h.writeCursor cursor next

/-- The loop of `alloc_large`. -/
def allocLargeFrom (h : BucketAllocator) (size align : Nat) :
    Nat → Cursor → Option Nat × BucketAllocator
  | 0, _ => (none, h)
  | fuel + 1, cursor =>
    let region := h.readCursor cursor
    if region = 0 then (none, h)
    else
      let allocStart := alignUp region align
      -- `checked_add`
      if allocStart + size ≥ 2 ^ 64 then (none, h)
      else if allocStart + size ≤ h.endAddr region then
        (nonNull allocStart, h.carve cursor region allocStart size)
      else allocLargeFrom h size align fuel (some region)

def allocLarge (h : BucketAllocator) (size align : Nat) : Option Nat × BucketAllocator :=
  h.allocLargeFrom size align WALK_LIMIT none

/-- The bucket part of `alloc`. -/
def tryBucket (h : BucketAllocator) (size align : Nat) : Option (Nat × BucketAllocator) := do
  let idx ← bucketIndex size
  let bucket ← h.buckets[idx]?
  if bucket.blockSize ≥ align then
    let (ptr, bucket') ← bucket.alloc h.mem
    some (ptr,
      { h with
        used := (h.used + bucket.blockSize) % 2 ^ 64
        buckets := h.buckets.set idx bucket' })
  else none

def alloc (h : BucketAllocator) (layout : Layout) : Option Nat × BucketAllocator :=
  let size := max layout.size 8
  let align := max layout.align 8
  match h.tryBucket size align with
  | some (ptr, h) => (some ptr, h)
  | none => h.allocLarge size align

/-! ### Deallocation -/

/-- Grow the node before the freed block over it, and over the node after it if they touch. -/
def mergePrev (h : BucketAllocator) (prev size curr : Nat) : BucketAllocator :=
  let h := h.setSize prev (read64 h.mem prev + size)
  if curr ≠ 0 ∧ h.endAddr prev = curr then
    let h := h.setSize prev (read64 h.mem prev + read64 h.mem curr)
    let (next, h) := h.takeNext curr
    h.setNext prev next
  else h

/-- Put the freed block before `curr`, merged with it if they touch. -/
def insertBefore (h : BucketAllocator) (ptr size : Nat) (prev : Cursor) (curr : Nat) :
    BucketAllocator :=
  if curr ≠ 0 ∧ ptr + size = curr then
    let (next, h) := h.takeNext curr
    ((h.setSize ptr (size + read64 h.mem curr)).setNext ptr next).writeCursor prev ptr
  else (h.setNext ptr curr).writeCursor prev ptr

/-- The place between `prev` and `curr` has been found. -/
def insertAt (h : BucketAllocator) (ptr size : Nat) (prev : Cursor) (curr : Nat) :
    BucketAllocator :=
  match prev with
  | some p =>
    if h.endAddr p = ptr then h.mergePrev p size curr else h.insertBefore ptr size prev curr
  | none => h.insertBefore ptr size prev curr

/-- The loop of `dealloc_large`. -/
def deallocLargeFrom (h : BucketAllocator) (ptr size : Nat) :
    Nat → Cursor → Nat → BucketAllocator
  | 0, _, _ => h
  | fuel + 1, prev, curr =>
    let currAddr := if curr = 0 then 2 ^ 64 - 1 else curr
    if ptr < currAddr then h.insertAt ptr size prev curr
    -- a double free
    else if ptr = currAddr then h
    else deallocLargeFrom h ptr size fuel (nonNull curr)
      (if curr = 0 then 0 else read64 h.mem (curr + 8))

def deallocLarge (h : BucketAllocator) (ptr size : Nat) : BucketAllocator :=
  if ptr < h.heapStart ∨ ptr + size > h.heapEnd then h
  else
    let h := { h with used := h.used - size }.setSize ptr size
    h.deallocLargeFrom ptr size WALK_LIMIT none h.largeHead

def dealloc (h : BucketAllocator) (ptr : Nat) (layout : Layout) : BucketAllocator :=
  let size := max layout.size 8
  match bucketIndex size with
  | some idx =>
    match h.buckets[idx]? with
    | some bucket =>
      let (bucket', mem) := bucket.dealloc ptr h.mem
      { h with used := h.used - bucket.blockSize, buckets := h.buckets.set idx bucket', mem }
    | none => h
  | none => h.deallocLarge ptr size

end BucketAllocator

end RustKernel.Memory
