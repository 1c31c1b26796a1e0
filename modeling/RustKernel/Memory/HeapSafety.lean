import RustKernel.Lib.Run
import RustKernel.Memory.HeapInit

/-!
# RustKernel.Memory.HeapSafety

Runs of the heap: `init`, then any sequence of allocations, releases and client stores.

## Main results

* `live_disjoint_of_guarded`: live allocations share no byte and lie in the heap.
* `metadata_free_of_guarded`: every node of the large list is aligned, long enough for
  its header, and its header touches no live allocation.

## Proof strategy

Both read the `Tiling` of the state, which `init` establishes and every guarded step
keeps. The second result is taken at `unit = 8`, where the guard also asks that
leftovers start at a multiple of 8.
-/

namespace RustKernel.Memory

open Lib BucketAllocator

/-! ### The bounds of the heap -/

/-- The region given to `init`. -/
def BucketAllocator.bounds (h : BucketAllocator) : Nat × Nat := (h.heapStart, h.heapEnd)

section Bounds

variable (h : BucketAllocator)

@[simp] theorem setSize_bounds (node v : Nat) : (h.setSize node v).bounds = h.bounds := rfl

@[simp] theorem setNext_bounds (node v : Nat) : (h.setNext node v).bounds = h.bounds := rfl

@[simp] theorem takeNext_bounds (node : Nat) : (h.takeNext node).2.bounds = h.bounds := rfl

@[simp] theorem writeCursor_bounds (cursor : Cursor) (v : Nat) :
    (h.writeCursor cursor v).bounds = h.bounds := by
  cases cursor <;> rfl

private theorem carve_bounds (cursor : Cursor) (region allocStart size : Nat) :
    (h.carve cursor region allocStart size).bounds = h.bounds := by
  rw [BucketAllocator.carve]
  dsimp only
  split_ifs <;> simp only [writeCursor_bounds, setNext_bounds, setSize_bounds, takeNext_bounds] <;>
    rfl

private theorem allocLargeFrom_bounds (size align fuel : Nat) (cursor : Cursor) :
    (h.allocLargeFrom size align fuel cursor).2.bounds = h.bounds := by
  induction fuel generalizing cursor with
  | zero => rfl
  | succ fuel ih =>
    rw [BucketAllocator.allocLargeFrom]
    dsimp only
    split_ifs
    · rfl
    · rfl
    · exact carve_bounds _ _ _ _ _
    · exact ih _

private theorem alloc_bounds (layout : Layout) : (h.alloc layout).2.bounds = h.bounds := by
  cases htry : h.tryBucket layout.request.1 layout.request.2 with
  | some taken =>
    obtain ⟨ptr, h'⟩ := taken
    obtain ⟨idx, bucket, bucket', -, -, -, -, rfl⟩ := tryBucket_eq_some htry
    rw [alloc_of_bucket htry]
    rfl
  | none =>
    rw [alloc_of_none htry]
    exact allocLargeFrom_bounds _ _ _ _ _

private theorem insertBefore_bounds (ptr size : Nat) (prev : Cursor) (curr : Nat) :
    (h.insertBefore ptr size prev curr).bounds = h.bounds := by
  rw [BucketAllocator.insertBefore]
  split_ifs
  · simp
  · simp

private theorem insertAt_bounds (ptr size : Nat) (prev : Cursor) (curr : Nat) :
    (h.insertAt ptr size prev curr).bounds = h.bounds := by
  cases prev with
  | none => exact insertBefore_bounds _ _ _ _ _
  | some p =>
    rw [BucketAllocator.insertAt]
    split_ifs
    · rw [BucketAllocator.mergePrev]
      dsimp only
      split_ifs <;> simp
    · exact insertBefore_bounds _ _ _ _ _

private theorem deallocLargeFrom_bounds (ptr size fuel : Nat) (prev : Cursor) (curr : Nat) :
    (h.deallocLargeFrom ptr size fuel prev curr).bounds = h.bounds := by
  induction fuel generalizing prev curr with
  | zero => rfl
  | succ fuel ih =>
    rw [BucketAllocator.deallocLargeFrom]
    split_ifs
    all_goals first | exact insertAt_bounds _ _ _ _ _ | rfl | exact ih _ _

private theorem dealloc_bounds (ptr : Nat) (layout : Layout) :
    (h.dealloc ptr layout).bounds = h.bounds := by
  rw [dealloc_eq]
  split
  · split <;> rfl
  · rw [BucketAllocator.deallocLarge]
    split
    · rfl
    · exact deallocLargeFrom_bounds _ _ _ _ _ _

private theorem step_bounds (s : HeapState) (e : HeapEvent) :
    (s.step e).heap.bounds = s.heap.bounds := by
  cases e with
  | alloc layout =>
    have hbounds := alloc_bounds s.heap layout
    rw [HeapState.step]
    split <;> rename_i heq <;> rw [heq] at hbounds <;> exact hbounds
  | dealloc k =>
    rw [HeapState.step]
    split
    · exact dealloc_bounds _ _ _
    · rfl
  | store k off byte =>
    rw [HeapState.step]
    split
    · split <;> rfl
    · rfl

end Bounds

/-! ### The properties -/

/-- The intervals of the live allocations are pairwise disjoint and lie in `[lo, hi)`. -/
def HeapState.Safe (lo hi : Nat) (s : HeapState) : Prop :=
  (s.live.map Block.extent).Pairwise Extent.Apart ∧ ∀ b ∈ s.live, b.extent.Within lo hi

/-- Every node of the large list is aligned and long enough for its header, and the header
    touches no live allocation. -/
def HeapState.MetadataFree (s : HeapState) : Prop :=
  ∀ r ∈ s.heap.largeRegions, 8 ∣ r.start ∧ LARGE_NODE_LEN ≤ r.len ∧
    ∀ b ∈ s.live, (header r).Apart b.extent

section Properties

variable {unit : Nat} {s : HeapState} {slots : List Slot} {regions : List Extent}

private theorem Tiling.extent_within (h : Tiling unit s slots regions) :
    ∀ b ∈ s.live, b.extent.Within b.room.start b.room.stop := by
  intro b hb
  have hfits := (h.live b hb).fits
  simp only [Extent.Within, Block.extent, Block.room, Extent.stop]
  omega

private theorem Tiling.safe (h : Tiling unit s slots regions) :
    s.Safe s.heap.heapStart s.heap.heapEnd := by
  obtain ⟨hrooms, -, -⟩ := Packed.append_iff.mp h.packed
  constructor
  · have hapart := List.pairwise_map.mp hrooms.apart
    refine List.pairwise_map.mpr (hapart.imp_of_mem ?_)
    intro b c hb hc hbc
    exact hbc.mono (h.extent_within b hb) (h.extent_within c hc)
  · intro b hb
    have hin := h.extent_within b hb
    have hroom := hrooms.within b.room (List.mem_map_of_mem hb)
    simp only [Extent.Within] at hin hroom ⊢
    omega

private theorem Tiling.metadataFree (h : Tiling 8 s slots regions) : s.MetadataFree := by
  rw [HeapState.MetadataFree, h.largeRegions_eq]
  intro r hr
  obtain ⟨hlen, hdvd⟩ := h.regions r hr
  refine ⟨hdvd, hlen, fun b hb => ?_⟩
  obtain ⟨-, -, hcross⟩ := Packed.append_iff.mp h.packed
  have hapart := hcross b.room (List.mem_map_of_mem hb) r (List.mem_append_right _ hr)
  have hheader : (header r).Within r.start r.stop := by
    refine ⟨le_rfl, ?_⟩
    simp only [header, Extent.stop]
    omega
  exact (hapart.mono (h.extent_within b hb) hheader).symm

end Properties

/-! ### Runs -/

/-- The invariant of a guarded run over the heap `[lo, hi)`. -/
def HeapState.Sound (unit lo hi : Nat) (s : HeapState) : Prop :=
  (∃ slots regions, Tiling unit s slots regions) ∧ s.heap.bounds = (lo, hi)

theorem run_sound (unit : Nat) (mem : ByteStore) (heapStart heapSize : Nat)
    (hstart : 0 < heapStart) (hend : heapStart + heapSize ≤ 2 ^ 63) (hunit : unit ∣ 8)
    (haligned : unit ∣ heapStart) (events : List HeapEvent)
    (hguard : ∀ p ∈ steps HeapState.step (.boot mem heapStart heapSize) events,
      p.1.Guarded unit p.2) :
    ∀ t ∈ states HeapState.step (.boot mem heapStart heapSize) events,
      t.Sound unit heapStart (heapStart + heapSize) := by
  refine invariant_states HeapState.step (HeapState.Sound unit heapStart (heapStart + heapSize))
    (HeapState.Guarded unit) (fun s e hs hG => ?_) _ events ⟨?_, ?_⟩ hguard
  · exact ⟨step_tiling hunit e hs.1 hG, (step_bounds s e).trans hs.2⟩
  · exact init_tiling unit mem heapStart heapSize hstart hend hunit haligned
  · obtain ⟨hlo, hhi⟩ := init_bounds mem heapStart heapSize
    exact Prod.ext hlo hhi

private theorem init_used (mem : ByteStore) (heapStart heapSize : Nat) :
    (BucketAllocator.init mem heapStart heapSize).used = 0 := by
  rw [BucketAllocator.init]
  dsimp only
  split <;> rfl

private theorem boot_contents (mem : ByteStore) (heapStart heapSize : Nat) (slots : List Slot)
    (regions : List Extent) :
    (HeapState.boot mem heapStart heapSize).contents slots regions = ⟨[], slots, regions, 0⟩ := by
  simp only [HeapState.contents, HeapState.boot, init_used]

/-- An invariant of the contents holds along a run if `init` establishes it and the effects of
    the steps that the guard allows keep it. -/
theorem run_contents {unit : Nat} {mem : ByteStore} {heapStart heapSize : Nat}
    (hstart : 0 < heapStart) (hend : heapStart + heapSize ≤ 2 ^ 63) (hunit : unit ∣ 8)
    (haligned : unit ∣ heapStart) (I : Contents → Prop) (G : HeapState → HeapEvent → Prop)
    (hinit : ∀ regions, regions.length ≤ 1 →
      Tiling unit (.boot mem heapStart heapSize) (layOut heapStart heapSize BUCKET_SIZES) regions →
      I ⟨[], layOut heapStart heapSize BUCKET_SIZES, regions, 0⟩)
    (hguard : ∀ s slots regions e, Tiling unit s slots regions → I (s.contents slots regions) →
      G s e → s.Guarded unit e)
    (hkeep : ∀ s slots regions e c', Tiling unit s slots regions → I (s.contents slots regions) →
      G s e → Effect (s.contents slots regions) e c' → I c')
    (events : List HeapEvent)
    (hrun : ∀ p ∈ steps HeapState.step (.boot mem heapStart heapSize) events, G p.1 p.2) :
    ∀ t ∈ states HeapState.step (.boot mem heapStart heapSize) events,
      ∃ slots regions, Tiling unit t slots regions ∧ I (t.contents slots regions) := by
  refine invariant_states HeapState.step (fun t => ∃ slots regions,
    Tiling unit t slots regions ∧ I (t.contents slots regions)) G ?_ _ events ?_ hrun
  · rintro s e ⟨slots, regions, htiling, hcontents⟩ hG
    obtain ⟨slots', regions', htiling', heffect⟩ :=
      htiling.effect hunit e (hguard s slots regions e htiling hcontents hG)
    exact ⟨slots', regions', htiling', hkeep s slots regions e _ htiling hcontents hG heffect⟩
  · obtain ⟨regions, hle, htiling⟩ := boot_tiling unit mem heapStart heapSize hstart hend hunit
      haligned
    refine ⟨_, regions, htiling, ?_⟩
    rw [boot_contents]
    exact hinit regions hle htiling

/-- **Heap safety**: along a guarded run the live allocations are disjoint and in the heap. -/
theorem live_disjoint_of_guarded (mem : ByteStore) (heapStart heapSize : Nat)
    (hstart : 0 < heapStart) (hend : heapStart + heapSize ≤ 2 ^ 63) (events : List HeapEvent)
    (hguard : ∀ p ∈ steps HeapState.step (.boot mem heapStart heapSize) events,
      p.1.Guarded 1 p.2) :
    ∀ t ∈ states HeapState.step (.boot mem heapStart heapSize) events,
      t.Safe heapStart (heapStart + heapSize) := by
  intro t ht
  obtain ⟨⟨slots, regions, htiling⟩, hbounds⟩ := run_sound 1 mem heapStart heapSize hstart hend
    (one_dvd 8) (one_dvd _) events hguard t ht
  obtain ⟨hlo, hhi⟩ := Prod.mk.inj hbounds
  have hsafe := htiling.safe
  rwa [hlo, hhi] at hsafe

/-- **Free metadata**: along a guarded run the nodes of the large list are aligned, long enough,
    and apart from the live allocations. -/
theorem metadata_free_of_guarded (mem : ByteStore) (heapStart heapSize : Nat)
    (hstart : 0 < heapStart) (hend : heapStart + heapSize ≤ 2 ^ 63) (haligned : 8 ∣ heapStart)
    (events : List HeapEvent)
    (hguard : ∀ p ∈ steps HeapState.step (.boot mem heapStart heapSize) events,
      p.1.Guarded 8 p.2) :
    ∀ t ∈ states HeapState.step (.boot mem heapStart heapSize) events, t.MetadataFree := by
  intro t ht
  obtain ⟨⟨slots, regions, htiling⟩, -⟩ := run_sound 8 mem heapStart heapSize hstart hend
    (dvd_refl 8) haligned events hguard t ht
  exact htiling.metadataFree

/-! ### Runs on the kernel's heap -/

section KernelHeap

/-- The heap of the kernel: 2 MiB, here at address 2 MiB. -/
def kernelHeap : HeapState := .boot (fun _ => 0) 0x200000 (2 * 1024 * 1024)

/-- A layout of `size` bytes, aligned to `2 ^ k`. -/
def layoutOf (size k : Nat) (fits : size + (2 ^ k - 1) ≤ 2 ^ 63 - 1) : Layout :=
  ⟨size, 2 ^ k, ⟨k, rfl⟩, fits⟩

def bytes17 : Layout := layoutOf 17 6 (by decide)
def bytes32 : Layout := layoutOf 32 3 (by decide)
def bytes2049 : Layout := layoutOf 2049 0 (by decide)
def bytes4096 : Layout := layoutOf 4096 12 (by decide)

/-- 17 bytes at alignment 64 come from the large list; released, they serve as a block of 32, and
    the next large allocation takes what follows the 17. -/
private def migration : List HeapEvent :=
  [.alloc bytes17, .dealloc 0, .alloc bytes32, .alloc bytes2049]

theorem migrated_block_overlaps :
    ¬∀ t ∈ states HeapState.step kernelHeap migration,
      t.Safe 0x200000 (0x200000 + 2 * 1024 * 1024) := by
  intro h
  have hlast := (h _ (List.mem_cons_of_mem _ (List.mem_cons_of_mem _ (List.mem_cons_of_mem _
    (List.mem_cons_of_mem _ List.mem_cons_self))))).1
  revert hlast
  decide +kernel

/-- After 2049 bytes the leftover node starts at an odd address. -/
theorem leftover_misaligned :
    ¬∀ t ∈ states HeapState.step kernelHeap [.alloc bytes2049], t.MetadataFree := by
  intro h
  have hlast := h _ (List.mem_cons_of_mem _ List.mem_cons_self)
  have haligned : ∀ r ∈ (kernelHeap.step (.alloc bytes2049)).heap.largeRegions, 8 ∣ r.start :=
    fun r hr => (hlast r hr).1
  revert haligned
  decide +kernel

/-- Allocations that keep to the guard, and the release of one of them. -/
private def guardedRun : List HeapEvent :=
  [.alloc bytes4096, .alloc bytes32, .dealloc 1, .alloc bytes4096]

theorem guardedRun_safe :
    (∀ p ∈ steps HeapState.step kernelHeap guardedRun, p.1.Guarded 1 p.2) ∧
      ∀ t ∈ states HeapState.step kernelHeap guardedRun,
        t.Safe 0x200000 (0x200000 + 2 * 1024 * 1024) := by
  have hguard : ∀ p ∈ steps HeapState.step kernelHeap guardedRun, p.1.Guarded 1 p.2 := by
    decide +kernel
  exact ⟨hguard, live_disjoint_of_guarded _ _ _ (by decide) (by decide) guardedRun hguard⟩

theorem guardedRun_metadataFree :
    (∀ p ∈ steps HeapState.step kernelHeap guardedRun, p.1.Guarded 8 p.2) ∧
      ∀ t ∈ states HeapState.step kernelHeap guardedRun, t.MetadataFree := by
  have hguard : ∀ p ∈ steps HeapState.step kernelHeap guardedRun, p.1.Guarded 8 p.2 := by
    decide +kernel
  exact ⟨hguard, metadata_free_of_guarded _ _ _ (by decide) (by decide) (by decide) guardedRun
    hguard⟩

end KernelHeap

end RustKernel.Memory
