import RustKernel.Memory.HeapSafety

/-!
# RustKernel.Memory.Alignment

Whether the pointers that `alloc` returns are aligned. A bucket serves a request whose alignment is
at most its block size, on the ground that its blocks are naturally aligned. A release does not
check this: a block that the large list carved for a small alignment joins the bucket of its size.

## Main result

- `aligned_of_guarded`: along a guarded run every live allocation is at a multiple of its alignment,
  if each block released into a bucket is at a multiple of the block size.

## Proof strategy

The invariant is `Contents.Aligned`: the free blocks of a bucket are at multiples of its block size.
All block sizes divide 2048 and every bucket is 256 blocks long, so `layOut` has this property on
a heap at a multiple of 2048; of the effects, only `push` adds a free block.
-/

namespace RustKernel.Memory

open Lib BucketAllocator

/-- A block released into a bucket is at a multiple of the bucket's block size. -/
def HeapState.ReleasesAligned (s : HeapState) : HeapEvent → Prop
  | .dealloc k => ∀ b ∈ s.live[k]?, ∀ n ∈ s.heap.routedBlock b.layout, n ∣ b.ptr
  | _ => True

instance (s : HeapState) (e : HeapEvent) : Decidable (s.ReleasesAligned e) :=
  match e with
  | .alloc _ => inferInstanceAs (Decidable True)
  | .dealloc k => inferInstanceAs (Decidable (∀ b ∈ s.live[k]?,
      ∀ n ∈ s.heap.routedBlock b.layout, n ∣ b.ptr))
  | .store .. => inferInstanceAs (Decidable True)

/-- Every live allocation is at a multiple of its alignment. -/
def HeapState.Aligned (s : HeapState) : Prop := ∀ b ∈ s.live, b.layout.align ∣ b.ptr

/-! ### The invariant -/

/-- The free blocks of the buckets and the live allocations are aligned. -/
structure Contents.Aligned (c : Contents) : Prop where
  blocks : ∀ slot ∈ c.slots, ∀ a ∈ slot.free, slot.bucket.blockSize ∣ a
  live : ∀ b ∈ c.live, b.layout.align ∣ b.ptr

/-- Powers of two divide one another in their order. -/
private theorem two_pow_dvd {j k : Nat} (h : 2 ^ j ≤ 2 ^ k) : 2 ^ j ∣ 2 ^ k :=
  Nat.pow_dvd_pow 2 ((Nat.pow_le_pow_iff_right (by decide)).mp h)

private theorem mem_BUCKET_SIZES {n : Nat} (h : n ∈ BUCKET_SIZES) : ∃ k, n = 2 ^ k := by
  have hpowers : BUCKET_SIZES = (List.range 9).map fun k => 2 ^ (k + 3) := by decide
  rw [hpowers, List.mem_map] at h
  obtain ⟨k, -, rfl⟩ := h
  exact ⟨k + 3, rfl⟩

/-- The alignment `alloc` works with is a multiple of the layout's. -/
private theorem Layout.align_dvd (layout : Layout) : layout.align ∣ layout.request.2 := by
  obtain ⟨j, hj⟩ := layout.align_pow
  obtain ⟨k, -, -, hk, -⟩ := layout.request_spec
  have hle : layout.align ≤ layout.request.2 := le_max_left _ _
  rw [hj, hk] at hle ⊢
  exact two_pow_dvd hle

/-- A block size that is as large as the alignment is a multiple of it. -/
private theorem request_dvd_block {slots : List Slot} (h : SlotSizes slots) {idx : Nat}
    {slot : Slot}
    (hslot : slots[idx]? = some slot) {layout : Layout}
    (haligned : layout.request.2 ≤ slot.bucket.blockSize) :
    layout.request.2 ∣ slot.bucket.blockSize := by
  have hmin : 8 ≤ layout.request.2 := le_max_right _ _
  rcases h idx slot hslot with hsize | hzero
  · obtain ⟨j, -, -, hj, -⟩ := layout.request_spec
    obtain ⟨k, hk⟩ := mem_BUCKET_SIZES (List.mem_of_getElem? hsize)
    rw [hj, hk] at haligned ⊢
    exact two_pow_dvd haligned
  · omega

private theorem mem_blockAddrs {current blockSize count a : Nat}
    (h : a ∈ blockAddrs current blockSize count) : ∃ i, a = current + blockSize * i := by
  induction count generalizing current with
  | zero => cases h
  | succ count ih =>
    rcases List.mem_cons.mp h with rfl | h
    · exact ⟨0, rfl⟩
    · obtain ⟨i, rfl⟩ := ih h
      exact ⟨i + 1, by ring⟩

/-- On a heap at a multiple of 2048 `init` lays aligned blocks out. -/
private theorem layOut_aligned (sizes : List Nat) (current remaining : Nat)
    (hsizes : ∀ n ∈ sizes, n ∣ 2048 ∧ 8 ∣ n) (hcurrent : 2048 ∣ current) :
    ∀ slot ∈ layOut current remaining sizes, ∀ a ∈ slot.free, slot.bucket.blockSize ∣ a := by
  induction sizes generalizing current remaining with
  | nil => simp [layOut]
  | cons blockSize sizes ih =>
    obtain ⟨⟨hdvd, height⟩, hrest⟩ := List.forall_mem_cons.mp hsizes
    rw [layOut]
    split
    · -- the buckets that do not fit have no blocks
      simp
    · refine List.forall_mem_cons.mpr ⟨fun a ha => ?_, ih _ _ hrest ?_⟩
      · obtain ⟨i, rfl⟩ := mem_blockAddrs ha
        exact (hdvd.trans hcurrent).add (Nat.dvd_mul_right _ _)
      · refine hcurrent.add ?_
        rw [show 2048 = 8 * 256 by rfl]
        exact Nat.mul_dvd_mul height (dvd_refl 256)

private theorem Slot.push_aligned {slot : Slot} {ptr : Nat}
    (h : ∀ a ∈ slot.free, slot.bucket.blockSize ∣ a) (hptr : slot.bucket.blockSize ∣ ptr) :
    ∀ a ∈ (slot.push ptr).free, (slot.push ptr).bucket.blockSize ∣ a :=
  List.forall_mem_cons.mpr ⟨hptr, h⟩

private theorem Tiling.routedBlock_eq {unit : Nat} {s : HeapState} {slots : List Slot}
    {regions : List Extent} (h : Tiling unit s slots regions) {idx : Nat} {slot : Slot}
    {layout : Layout} (hidx : bucketIndex layout.request.1 = some idx)
    (hslot : slots[idx]? = some slot) :
    s.heap.routedBlock layout = some slot.bucket.blockSize := by
  rw [routedBlock, hidx, ← h.buckets]
  simp [hslot]

/-- The effects of aligned releases keep the alignment. -/
theorem Contents.Aligned.effect {unit : Nat} {s : HeapState} {slots : List Slot}
    {regions : List Extent} {e : HeapEvent} {c' : Contents} (ht : Tiling unit s slots regions)
    (h : (s.contents slots regions).Aligned) (hguard : s.ReleasesAligned e)
    (heffect : Effect (s.contents slots regions) e c') : c'.Aligned := by
  cases heffect with
  | @pop layout idx slot ptr index slot_eq aligned free_eq =>
    -- a block of the bucket is aligned to the bucket's size, so to the alignment requested
    have hslot := h.blocks slot (List.mem_of_getElem? slot_eq)
    constructor
    · intro q hq a ha
      rcases List.mem_or_eq_of_mem_set hq with hq | rfl
      · exact h.blocks q hq a ha
      · exact hslot a (List.mem_of_mem_tail ha)
    · refine List.forall_mem_cons.mpr ⟨?_, h.live⟩
      have hptr := hslot ptr (by rw [free_eq]; exact List.mem_cons_self)
      exact (layout.align_dvd.trans (request_dvd_block ht.blockSizes slot_eq aligned)).trans hptr
  | @split layout mid post r ptr unserved regions_eq first ptr_eq ge_start aligned le_stop =>
    exact ⟨h.blocks, List.forall_mem_cons.mpr ⟨layout.align_dvd.trans aligned, h.live⟩⟩
  | refuse => exact h
  | @push k idx b slot live_eq index slot_eq =>
    constructor
    · intro q hq
      rcases List.mem_or_eq_of_mem_set hq with hq | rfl
      · exact h.blocks q hq
      -- this is where the guard is used: the block is aligned to the size of its bucket
      · refine Slot.push_aligned (h.blocks slot (List.mem_of_getElem? slot_eq)) ?_
        exact hguard b live_eq _ (ht.routedBlock_eq index slot_eq)
    · exact fun c hc => h.live c (List.mem_of_mem_eraseIdx hc)
  | insert => exact ⟨h.blocks, fun c hc => h.live c (List.mem_of_mem_eraseIdx hc)⟩
  | unbucketed => exact ⟨h.blocks, fun c hc => h.live c (List.mem_of_mem_eraseIdx hc)⟩
  | miss => exact h
  | store => exact h

/-! ### Runs -/

/-- **Alignment**: along a guarded run whose releases into buckets are aligned, every pointer that
    `alloc` returns is a multiple of the alignment asked for. -/
theorem aligned_of_guarded (mem : ByteStore) (heapStart heapSize : Nat) (hstart : 0 < heapStart)
    (hend : heapStart + heapSize ≤ 2 ^ 63) (haligned : 4096 ∣ heapStart) (events : List HeapEvent)
    (hguard : ∀ p ∈ steps HeapState.step (.boot mem heapStart heapSize) events,
      p.1.Guarded 1 p.2 ∧ p.1.ReleasesAligned p.2) :
    ∀ t ∈ states HeapState.step (.boot mem heapStart heapSize) events, t.Aligned := by
  intro t ht
  have hrun := run_contents hstart hend (one_dvd 8) (one_dvd _) Contents.Aligned
    (fun s e => s.Guarded 1 e ∧ s.ReleasesAligned e)
    (fun _ _ _ => ⟨layOut_aligned BUCKET_SIZES heapStart heapSize (by decide)
      ((by decide : 2048 ∣ 4096).trans haligned), by simp⟩)
    (fun _ _ _ _ _ _ hG => hG.1) (fun _ _ _ _ _ ht h hG => h.effect ht hG.2) events hguard
  obtain ⟨slots, regions, -, hcontents⟩ := hrun t ht
  exact hcontents.live

/-- Allocations that keep to the guard, and an aligned release. -/
private def alignedRun : List HeapEvent :=
  [.alloc bytes4096, .alloc bytes32, .dealloc 0, .alloc bytes32]

theorem alignedRun_aligned :
    (∀ p ∈ steps HeapState.step kernelHeap alignedRun,
      p.1.Guarded 1 p.2 ∧ p.1.ReleasesAligned p.2) ∧
      ∀ t ∈ states HeapState.step kernelHeap alignedRun, t.Aligned := by
  have hguard : ∀ p ∈ steps HeapState.step kernelHeap alignedRun,
      p.1.Guarded 1 p.2 ∧ p.1.ReleasesAligned p.2 := by
    decide +kernel
  exact ⟨hguard, aligned_of_guarded _ _ _ (by decide) (by decide) (by decide) alignedRun hguard⟩

/-! ### A bucket that runs out -/

section Exhaustion

variable {unit : Nat} {s : HeapState} {slots : List Slot} {regions : List Extent} {c c' : Contents}
  {layout : Layout} {idx : Nat} {slot : Slot} {r : Extent}

/-- A bucket with a free block serves a request of its size. -/
private theorem Effect.of_served (h : Effect c (.alloc layout) c')
    (hidx : bucketIndex layout.request.1 = some idx) (hslot : c.slots[idx]? = some slot)
    (haligned : layout.request.2 ≤ slot.bucket.blockSize) {ptr : Nat} {rest : List Nat}
    (hfree : slot.free = ptr :: rest) :
    c'.slots = c.slots.set idx slot.pop ∧ c'.regions = c.regions ∧
      c'.live = ⟨ptr, layout, slot.bucket.blockSize⟩ :: c.live := by
  cases h with
  | @pop _ idx' slot' ptr' index slot_eq aligned free_eq =>
    obtain rfl := Option.some.inj (hidx.symm.trans index)
    obtain rfl := Option.some.inj (hslot.symm.trans slot_eq)
    obtain ⟨rfl, -⟩ := List.cons.inj (hfree.symm.trans free_eq)
    exact ⟨rfl, rfl, rfl⟩
  | split unserved =>
    rw [unserved idx slot hidx hslot haligned] at hfree
    cases hfree
  | refuse unserved =>
    rw [unserved idx slot hidx hslot haligned] at hfree
    cases hfree

/-- A request that no bucket serves is carved out of the only region. -/
private theorem Effect.of_unserved (h : Effect c (.alloc layout) c') (hregions : c.regions = [r])
    (hunserved : c.Unserved layout) (hfits : Fits layout.request.1 layout.request.2 r) :
    c'.slots = c.slots ∧
      c'.regions = leftovers r (alignUp r.start layout.request.2) layout.request.1 ∧
      c'.live = ⟨alignUp r.start layout.request.2, layout, layout.request.1⟩ :: c.live := by
  have honly : firstFitting c.regions layout = some r := by
    rw [hregions, firstFitting, List.find?_cons_of_pos (by simpa using hfits)]
  cases h with
  | @pop _ idx' slot' ptr' index slot_eq aligned free_eq =>
    rw [hunserved idx' slot' index slot_eq aligned] at free_eq
    cases free_eq
  | @split _ mid post q ptr unserved regions_eq first ptr_eq ge_start aligned le_stop =>
    obtain rfl := Option.some.inj (honly.symm.trans first)
    subst ptr_eq
    rw [hregions, List.singleton_eq_append_iff] at regions_eq
    rcases regions_eq with ⟨rfl, hpost⟩ | ⟨-, hpost⟩
    · obtain ⟨-, rfl⟩ := List.cons.inj hpost
      exact ⟨rfl, List.append_nil _, rfl⟩
    · cases hpost
  | refuse unserved first => rw [first] at honly; cases honly

/-- A release goes to the bucket of its size. -/
private theorem Effect.of_release {k : Nat} {b : Block} (h : Effect c (.dealloc k) c')
    (hlive : c.live[k]? = some b) (hidx : bucketIndex b.layout.request.1 = some idx)
    (hslot : c.slots[idx]? = some slot) : c'.slots = c.slots.set idx (slot.push b.ptr) := by
  cases h with
  | @push _ idx' b' slot' live_eq index slot_eq =>
    obtain rfl := Option.some.inj (hlive.symm.trans live_eq)
    obtain rfl := Option.some.inj (hidx.symm.trans index)
    obtain rfl := Option.some.inj (hslot.symm.trans slot_eq)
    rfl
  | insert live_eq index =>
    obtain rfl := Option.some.inj (hlive.symm.trans live_eq)
    rw [index] at hidx
    cases hidx
  | unbucketed live_eq index slot_eq =>
    obtain rfl := Option.some.inj (hlive.symm.trans live_eq)
    obtain rfl := Option.some.inj (hidx.symm.trans index)
    rw [slot_eq] at hslot
    cases hslot
  | miss live_eq => rw [live_eq] at hlive; cases hlive

/-- A request that no bucket serves, with one region left. -/
private theorem Tiling.carveOnly (hunit : unit ∣ 8) (h : Tiling unit s slots [r]) (layout : Layout)
    (hunserved : (s.contents slots [r]).Unserved layout)
    (hfits : Fits layout.request.1 layout.request.2 r)
    (hgood : GoodSplit unit r (alignUp r.start layout.request.2) layout.request.1) :
    Tiling unit (s.step (.alloc layout)) slots
        (leftovers r (alignUp r.start layout.request.2) layout.request.1) ∧
      (s.step (.alloc layout)).live =
        ⟨alignUp r.start layout.request.2, layout, layout.request.1⟩ :: s.live := by
  have hguard : s.Guarded unit (.alloc layout) := by
    intro hserved q hq
    rw [h.firstFit_eq, firstFitting, List.find?_cons_of_pos (by simpa using hfits)] at hq
    obtain rfl := Option.some.inj hq
    exact hgood
  obtain ⟨slots', regions', htiling, heffect⟩ := h.effect hunit _ hguard
  obtain ⟨hslots, hregions, hlive⟩ := heffect.of_unserved rfl hunserved hfits
  have hslots : slots' = slots := hslots
  have hregions : regions' = _ := hregions
  rw [hslots, hregions] at htiling
  exact ⟨htiling, hlive⟩

/-- A request larger than every block is served by no bucket. -/
private theorem unserved_large (hlarge : bucketIndex layout.request.1 = none) :
    c.Unserved layout := by
  intro idx slot hidx
  rw [hlarge] at hidx
  cases hidx

/-- A request that a bucket with a free block serves. -/
private theorem Tiling.popOne (hunit : unit ∣ 8) (h : Tiling unit s slots regions) (layout : Layout)
    (hidx : bucketIndex layout.request.1 = some idx) (hslot : slots[idx]? = some slot)
    (haligned : layout.request.2 ≤ slot.bucket.blockSize) {ptr : Nat} {rest : List Nat}
    (hfree : slot.free = ptr :: rest) :
    Tiling unit (s.step (.alloc layout)) (slots.set idx slot.pop) regions ∧
      (s.step (.alloc layout)).live = ⟨ptr, layout, slot.bucket.blockSize⟩ :: s.live := by
  have hguard : s.Guarded unit (.alloc layout) := by
    intro hserved
    have htry : s.heap.tryBucket layout.request.1 layout.request.2 = none := by
      simpa [servedByBucket] using hserved
    rw [h.unserved htry idx slot hidx hslot haligned] at hfree
    cases hfree
  obtain ⟨slots', regions', htiling, heffect⟩ := h.effect hunit _ hguard
  obtain ⟨hslots, hregions, hlive⟩ := heffect.of_served hidx hslot haligned hfree
  have hslots : slots' = slots.set idx slot.pop := hslots
  have hregions : regions' = regions := hregions
  rw [hslots, hregions] at htiling
  exact ⟨htiling, hlive⟩

/-- Allocations of the bucket's size take its free blocks one by one. -/
private theorem Tiling.pops (hunit : unit ∣ 8) (h : Tiling unit s slots regions) (layout : Layout)
    (hidx : bucketIndex layout.request.1 = some idx) (hslot : slots[idx]? = some slot)
    (haligned : layout.request.2 ≤ slot.bucket.blockSize) (n : Nat) (hn : n ≤ slot.free.length) :
    ∃ slots' slot', Tiling unit ((List.replicate n (.alloc layout)).foldl HeapState.step s)
      slots' regions ∧ slots'[idx]? = some slot' ∧ slot'.free = slot.free.drop n ∧
      slot'.bucket.blockSize = slot.bucket.blockSize := by
  induction n generalizing s slots slot with
  | zero => exact ⟨slots, slot, h, hslot, rfl, rfl⟩
  | succ n ih =>
    obtain ⟨ptr, rest, hfree⟩ := List.exists_cons_of_length_pos (by omega : 0 < slot.free.length)
    have hpop : slot.pop.free = rest := by rw [Slot.pop, hfree]; rfl
    obtain ⟨htiling, -⟩ := h.popOne hunit layout hidx hslot haligned hfree
    have hnext : (slots.set idx slot.pop)[idx]? = some slot.pop :=
      List.getElem?_set_self (List.getElem?_eq_some_iff.mp hslot).1
    obtain ⟨slots', slot', hrun, hslot', hfree', hsize'⟩ := ih htiling hnext haligned (by
      rw [hpop]
      rw [hfree, List.length_cons] at hn
      omega)
    refine ⟨slots', slot', hrun, hslot', ?_, hsize'⟩
    rw [hfree', hpop, hfree]
    rfl

end Exhaustion

private def bytes2056 : Layout := layoutOf 2056 3 (by decide)
private def bytes2048 : Layout := layoutOf 2048 3 (by decide)
private def page2048 : Layout := layoutOf 2048 11 (by decide)

/-- 2056 and 2048 bytes from the large list, the release of the latter, and a request that its
    bucket serves. -/
private def reuse : List HeapEvent :=
  [.alloc bytes2056, .alloc bytes2048, .dealloc 0, .alloc page2048]

/-- With the bucket used up, the block released into it is not naturally aligned, and comes back. -/
private theorem reuse_misaligned {s : HeapState} {slots : List Slot} {full : Slot}
    (h : Tiling 1 s slots [⟨0x2FF800, 1050624⟩]) (hfull : slots[8]? = some full)
    (hfree : full.free = []) (hsize : full.bucket.blockSize = 2048) :
    ¬(reuse.foldl HeapState.step s).Aligned := by
  have hidx : bucketIndex bytes2048.request.1 = some 8 := by decide
  -- 2056 bytes, and 2048 behind them
  obtain ⟨hfirst, -⟩ := Tiling.carveOnly (one_dvd 8) h bytes2056
    (unserved_large (by decide)) (by decide) (by decide)
  have hleft : Tiling 1 (s.step (.alloc bytes2056)) slots [⟨0x300008, 1048568⟩] := hfirst
  obtain ⟨hsecond, hlive⟩ := Tiling.carveOnly (one_dvd 8) hleft bytes2048
    (fun idx' slot' hidx' hslot' _ => by
      obtain rfl := Option.some.inj (hidx.symm.trans hidx')
      obtain rfl := Option.some.inj (hfull.symm.trans hslot')
      exact hfree) (by decide) (by decide)
  -- the block of the large list joins the empty bucket
  obtain ⟨slots₃, regions₃, hthird, hreleased⟩ := hsecond.effect (one_dvd 8) (.dealloc 0) (by
    intro b hb n hn
    obtain rfl := Option.some.inj ((congrArg (·[0]?) hlive).symm.trans hb)
    rw [hsecond.routedBlock_eq hidx hfull, hsize] at hn
    obtain rfl := Option.some.inj hn
    decide)
  have hpushed : slots₃ = slots.set 8 (full.push 0x300008) :=
    hreleased.of_release (congrArg (·[0]?) hlive) hidx hfull
  have hslot₃ : slots₃[8]? = some (full.push 0x300008) := by
    rw [hpushed]
    exact List.getElem?_set_self (List.getElem?_eq_some_iff.mp hfull).1
  have hlast := (hthird.popOne (one_dvd 8) page2048 (by decide) hslot₃
    (by rw [Slot.push_blockSize, hsize]; decide)
    (show (full.push _).free = _ :: full.free from rfl)).2
  intro haligned
  have hdvd := haligned ⟨0x300008, page2048, _⟩ (by
    rw [reuse]
    simp only [List.foldl_cons, List.foldl_nil]
    rw [hlast]
    exact List.mem_cons_self)
  exact absurd hdvd (show ¬2048 ∣ 0x300008 by decide)

/-- All 256 blocks of 2048 bytes are taken first. -/
private theorem bucket_used_up : ∃ slots full,
    Tiling 1 ((List.replicate 256 (.alloc bytes2048)).foldl HeapState.step kernelHeap) slots
      [⟨0x2FF800, 1050624⟩] ∧
    slots[8]? = some full ∧ full.free = [] ∧ full.bucket.blockSize = 2048 := by
  obtain ⟨regions, -, hboot⟩ : ∃ regions, regions.length ≤ 1 ∧ Tiling 1 kernelHeap
      (layOut 0x200000 (2 * 1024 * 1024) BUCKET_SIZES) regions :=
    boot_tiling 1 _ _ _ (by decide) (by decide) (one_dvd 8) (one_dvd _)
  have hregion : kernelHeap.heap.largeRegions = [⟨0x2FF800, 1050624⟩] := by decide +kernel
  rw [hboot.largeRegions_eq] at hregion
  obtain ⟨slot, hslot, hblocks⟩ : ∃ slot,
      (layOut 0x200000 (2 * 1024 * 1024) BUCKET_SIZES)[8]? = some slot ∧
        (slot.free.length, slot.bucket.blockSize) = (256, 2048) :=
    Option.map_eq_some_iff.mp (by decide +kernel)
  obtain ⟨hlength, hsize⟩ := Prod.mk.inj hblocks
  obtain ⟨slots, full, htaken, hfull, hfree, hsame⟩ := hboot.pops (one_dvd 8) bytes2048
    (by decide) hslot (by rw [hsize]; decide) 256 hlength.ge
  rw [List.drop_eq_nil_iff.mpr hlength.le] at hfree
  subst hregion
  exact ⟨slots, full, htaken, hfull, hfree, hsame.trans hsize⟩

theorem exhausted_bucket_misaligned :
    ¬∀ t ∈ states HeapState.step kernelHeap (List.replicate 256 (.alloc bytes2048) ++ reuse),
      t.Aligned := by
  intro hall
  obtain ⟨slots, full, htiling, hfull, hfree, hsize⟩ := bucket_used_up
  apply reuse_misaligned htiling hfull hfree hsize
  rw [← List.foldl_append]
  exact hall _ (foldl_mem_states _ _ _)

end RustKernel.Memory
