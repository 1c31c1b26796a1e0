import RustKernel.Memory.HeapSafety

/-!
# RustKernel.Memory.Conservation

Whether the large list gets all its memory back. A split that leaves less than a header behind the
allocation takes the whole region out of the list, but a release gives back the size asked for.

## Main result

- `large_conserved_of_guarded`: along a run of large requests whose splits lose nothing
  (`LosslessSplit`), the large list is as `init` made it whenever nothing is live.

## Proof strategy

`Contents.Conserved lo hi` says that the regions are separated and that they and the live rooms are
as long as `[lo, hi)` together. A lossless split cuts a region into the room and what stays in the
list; a release gives the room back through `coalesce`. Without live allocations the regions are as
long as the range, so they are one (`Separated.eq_wholeRange`).
-/

namespace RustKernel.Memory

open Lib BucketAllocator

/-- The region is used up to its last byte, or the leftover can hold a header and so can the prefix,
    if there is one. -/
def LosslessSplit (r : Extent) (allocStart size : Nat) : Prop :=
  allocStart = r.start ∧ allocStart + size = r.stop ∨
  (allocStart = r.start ∨ r.start + LARGE_NODE_LEN ≤ allocStart) ∧
    allocStart + size + LARGE_NODE_LEN ≤ r.stop

/-- A request larger than every bucket. -/
def HeapEvent.Large : HeapEvent → Prop
  | .alloc layout => 2048 < layout.size
  | _ => True

/-- The splits of the step lose nothing. -/
def HeapState.Lossless (s : HeapState) : HeapEvent → Prop
  | .alloc layout => ∀ r ∈ s.heap.firstFit layout,
      LosslessSplit r (alignUp r.start layout.request.2) layout.request.1
  | _ => True

instance (r : Extent) (allocStart size : Nat) : Decidable (LosslessSplit r allocStart size) := by
  unfold LosslessSplit
  infer_instance

instance (e : HeapEvent) : Decidable e.Large :=
  match e with
  | .alloc layout => inferInstanceAs (Decidable (2048 < layout.size))
  | .dealloc _ => inferInstanceAs (Decidable True)
  | .store .. => inferInstanceAs (Decidable True)

instance (s : HeapState) (e : HeapEvent) : Decidable (s.Lossless e) :=
  match e with
  | .alloc layout => inferInstanceAs (Decidable (∀ r ∈ s.heap.firstFit layout,
      LosslessSplit r (alignUp r.start layout.request.2) layout.request.1))
  | .dealloc _ => inferInstanceAs (Decidable True)
  | .store .. => inferInstanceAs (Decidable True)

/-! ### Lossless splits -/

section Split

variable {r : Extent} {ptr size : Nat}

private theorem totalLen_leftovers (h : LosslessSplit r ptr size) (hlo : r.start ≤ ptr) :
    size + totalLen (leftovers r ptr size) = r.len := by
  have hnode : LARGE_NODE_LEN = 16 := rfl
  have hend : r.stop = r.start + r.len := rfl
  rw [leftovers]
  dsimp only
  rcases h with ⟨hfront, hstop⟩ | ⟨hpart, hleft⟩
  · rw [if_pos (by omega), totalLen_nil]
    omega
  · rw [if_neg (by omega)]
    split
    · simp only [totalLen_cons, totalLen_nil]
      omega
    · simp only [totalLen_cons, totalLen_nil]
      omega

theorem within_leftovers (hlo : r.start ≤ ptr) (hhi : ptr + size ≤ r.stop) :
    ∀ f ∈ leftovers r ptr size, f.Within r.start r.stop := by
  have hend : r.stop = r.start + r.len := rfl
  rw [leftovers]
  dsimp only
  split_ifs <;>
    simp only [List.forall_mem_cons, List.not_mem_nil, false_imp_iff, implies_true, and_true,
      Extent.Within, Extent.stop] <;>
    omega

private theorem separated_leftovers (hlo : r.start ≤ ptr) (hsize : 0 < size) :
    Separated (leftovers r ptr size) := by
  rw [leftovers]
  dsimp only
  split_ifs
  · exact .nil
  · exact List.pairwise_singleton _ _
  · refine separated_cons.mpr ⟨fun f hf => ?_, List.pairwise_singleton _ _⟩
    rw [List.mem_singleton.mp hf]
    simp only [Extent.stop]
    omega

end Split

/-! ### The invariant -/

/-- The live rooms and the regions fill `[lo, hi)`, and no two regions touch. -/
structure Contents.Conserved (lo hi : Nat) (c : Contents) : Prop where
  large : ∀ b ∈ c.live, bucketIndex b.layout.request.1 = none
  within : ∀ e ∈ c.live.map Block.room ++ c.regions, e.Within lo hi
  total : totalLen (c.live.map Block.room ++ c.regions) = hi - lo
  separated : Separated c.regions

section Invariant

variable {unit lo hi : Nat} {s : HeapState} {slots : List Slot} {regions : List Extent}
  {e : HeapEvent} {c' : Contents}

theorem bucketIndex_large {layout : Layout} (h : 2048 < layout.size) :
    bucketIndex layout.request.1 = none := by
  have hsize : 2048 < layout.request.1 := lt_max_of_lt_left h
  refine List.findIdx?_eq_none_iff.mpr fun n hn => ?_
  have hle : n ≤ 2048 := by
    revert n
    decide
  simp only [decide_eq_false_iff_not, not_le]
  omega

/-- The live rooms and the regions share no address. -/
private theorem Tiling.packed_large (h : Tiling unit s slots regions) :
    Packed s.heap.heapStart s.heap.heapEnd (s.live.map Block.room ++ regions) :=
  h.packed.sublist ((List.sublist_append_right _ _).append_left _)

/-- A region before a live allocation in the list lies before its room. -/
theorem Tiling.region_apart (h : Tiling unit s slots regions) {b : Block} (hb : b ∈ s.live)
    {r : Extent} (hr : r ∈ regions) : b.room.Apart r :=
  (Packed.append_iff.mp h.packed_large).2.2 b.room (List.mem_map_of_mem hb) r hr

/-- A lossless split leaves room for headers, and a large block is routed to no bucket. -/
private theorem Contents.Conserved.guarded (h : (s.contents slots regions).Conserved lo hi)
    (hlarge : e.Large) (hlossless : s.Lossless e) : s.Guarded 1 e := by
  cases e with
  | alloc layout =>
    intro hserved r hr
    have hsize : 2048 < layout.request.1 := lt_max_of_lt_left hlarge
    rcases hlossless r hr with ⟨-, hstop⟩ | ⟨hpart, hleft⟩
    · refine .inl ?_
      rw [hstop]
      exact Nat.lt_add_of_pos_right (by decide)
    · refine .inr ⟨?_, one_dvd _⟩
      simp only [LARGE_NODE_LEN] at hpart ⊢
      omega
  | dealloc k =>
    intro b hb n hn
    have hnone := h.large b (List.mem_of_getElem? hb)
    rw [routedBlock, hnone] at hn
    cases hn
  | store => trivial

/-- What the effects of large requests and lossless splits do to the regions. -/
theorem Contents.Conserved.effect (ht : Tiling unit s slots regions)
    (h : (s.contents slots regions).Conserved lo hi) (hlarge : e.Large) (hlossless : s.Lossless e)
    (heffect : Effect (s.contents slots regions) e c') : c'.Conserved lo hi := by
  cases heffect with
  | pop index =>
    rw [bucketIndex_large hlarge] at index
    cases index
  | @split layout mid post r ptr unserved regions_eq first ptr_eq ge_start aligned le_stop =>
    have hregions : regions = mid ++ r :: post := regions_eq
    subst hregions ptr_eq
    have hsize : 2048 < layout.request.1 := lt_max_of_lt_left hlarge
    have hgood : LosslessSplit r (alignUp r.start layout.request.2) layout.request.1 :=
      hlossless r (by rw [ht.firstFit_eq]; exact first)
    have hcut := totalLen_leftovers hgood ge_start
    have hpieces := within_leftovers ge_start le_stop
    obtain ⟨hlive, hmid, hr, hpost⟩ : (∀ e ∈ s.live.map Block.room, e.Within lo hi) ∧
        (∀ e ∈ mid, e.Within lo hi) ∧ r.Within lo hi ∧ ∀ e ∈ post, e.Within lo hi := by
      simpa [HeapState.contents, List.forall_mem_append, or_imp, forall_and] using h.within
    have htotal := h.total
    simp only [HeapState.contents, totalLen_append, totalLen_cons] at htotal
    refine ⟨List.forall_mem_cons.mpr ⟨bucketIndex_large hlarge, h.large⟩, ?_, ?_, ?_⟩
    · refine List.forall_mem_append.mpr ⟨List.forall_mem_cons.mpr ⟨?_, hlive⟩,
        List.forall_mem_append.mpr ⟨hmid, List.forall_mem_append.mpr ⟨fun f hf => ?_, hpost⟩⟩⟩
      · simp only [Extent.Within, Block.room, Extent.stop] at hr ge_start le_stop ⊢
        omega
      · have hf := hpieces f hf
        exact ⟨hr.1.trans hf.1, hf.2.trans hr.2⟩
    · simp only [HeapState.contents, List.map_cons, List.cons_append, totalLen_cons,
        totalLen_append, Block.room]
      omega
    · exact h.separated.split (separated_leftovers ge_start (by omega)) hpieces
  | refuse => exact h
  | @push k idx b slot live_eq index =>
    rw [h.large b (List.mem_of_getElem? live_eq)] at index
    cases index
  | @insert k b mid post live_eq index regions_eq before after =>
    have hregions : regions = mid ++ post := regions_eq
    subst hregions
    have hb : b ∈ s.live := List.mem_of_getElem? live_eq
    obtain ⟨hk, hget⟩ := List.getElem?_eq_some_iff.mp live_eq
    have hperm : (s.live.map Block.room).Perm (b.room :: (s.live.eraseIdx k).map Block.room) := by
      rw [← hget]
      exact (List.getElem_cons_eraseIdx_perm hk).symm.map Block.room
    obtain ⟨hlive, hmid, hpost⟩ : (∀ e ∈ s.live.map Block.room, e.Within lo hi) ∧
        (∀ e ∈ mid, e.Within lo hi) ∧ ∀ e ∈ post, e.Within lo hi := by
      simpa [HeapState.contents, List.forall_mem_append, or_imp, forall_and] using h.within
    have hroom := hlive b.room (List.mem_map_of_mem hb)
    have htotal := h.total
    simp only [HeapState.contents, totalLen_append, totalLen_perm hperm, totalLen_cons] at htotal
    refine ⟨fun c hc => h.large c (List.mem_of_mem_eraseIdx hc), ?_, ?_, ?_⟩
    · refine List.forall_mem_append.mpr ⟨fun e he => ?_, within_coalesce hmid hroom hpost⟩
      exact hlive e (hperm.mem_iff.mpr (List.mem_cons_of_mem _ he))
    · simp only [HeapState.contents, totalLen_append, totalLen_coalesce]
      omega
    · refine h.separated.coalesce (fun p hp => ?_) (fun f hf => ?_)
      · -- the regions passed in the walk lie before the room
        have hapart := ht.region_apart hb (List.mem_append_left post hp)
        have hlt := before p hp
        simp only [Extent.Apart, Extent.stop, Block.room] at hapart ⊢
        omega
      · have hapart := ht.region_apart hb (List.mem_append_right mid hf)
        have hlt : b.ptr < f.start := by
          cases post with
          | nil => cases hf
          | cons c post =>
            have hc := after c rfl
            rcases List.mem_cons.mp hf with rfl | hf
            · exact hc
            · have hsep := (separated_append.mp h.separated).2.1
              have hcf := (separated_cons.mp hsep).1 f hf
              simp only [Extent.stop] at hcf
              omega
        simp only [Extent.Apart, Extent.stop, Block.room] at hapart ⊢
        omega
  | @unbucketed k idx b live_eq index =>
    rw [h.large b (List.mem_of_getElem? live_eq)] at index
    cases index
  | miss => exact h
  | store => exact h

/-- With nothing live, the regions fill the range. -/
theorem Contents.Conserved.regions_eq (ht : Tiling unit s slots regions)
    (h : (s.contents slots regions).Conserved lo hi) (hempty : s.live = []) :
    regions = wholeRange lo hi := by
  have hwithin := h.within
  have htotal := h.total
  have hpacked := ht.packed_large
  simp only [HeapState.contents, hempty, List.map_nil, List.nil_append] at hwithin htotal hpacked
  exact Separated.eq_wholeRange h.separated ⟨hwithin, hpacked.pos, hpacked.apart⟩ htotal

theorem Contents.Conserved.boot (lo hi : Nat) (slots : List Slot) :
    Contents.Conserved lo hi ⟨[], slots, wholeRange lo hi, 0⟩ where
  large := by simp
  within := by
    rw [List.map_nil, List.nil_append]
    exact within_wholeRange
  total := by
    rw [List.map_nil, List.nil_append]
    exact totalLen_wholeRange
  separated := separated_wholeRange

end Invariant

/-! ### Runs -/

/-- **No permanent loss**: along a run of large requests whose splits lose nothing, the large list
    is as `init` left it whenever no allocation is live. -/
theorem large_conserved_of_guarded (mem : ByteStore) (heapStart heapSize : Nat)
    (hstart : 0 < heapStart) (hend : heapStart + heapSize ≤ 2 ^ 63) (events : List HeapEvent)
    (hlarge : ∀ e ∈ events, e.Large)
    (hguard : ∀ p ∈ steps HeapState.step (.boot mem heapStart heapSize) events,
      p.1.Lossless p.2) :
    ∀ t ∈ states HeapState.step (.boot mem heapStart heapSize) events, t.live = [] →
      t.heap.largeRegions = (HeapState.boot mem heapStart heapSize).heap.largeRegions := by
  intro t ht hempty
  obtain ⟨regions₀, hle, hboot⟩ := boot_tiling 1 mem heapStart heapSize hstart hend (one_dvd 8)
    (one_dvd _)
  obtain ⟨lo, hi, hrange⟩ := exists_wholeRange hle
    fun r hr => Nat.lt_of_lt_of_le (by decide) (hboot.regions r hr).1
  have hrun := run_contents hstart hend (one_dvd 8) (one_dvd _) (Contents.Conserved lo hi)
    (fun s e => e.Large ∧ s.Lossless e)
    (fun regions _ h => by
      rw [h.largeRegions_eq.symm.trans hboot.largeRegions_eq, hrange]
      exact .boot lo hi _)
    (fun _ _ _ _ _ h hG => h.guarded hG.1 hG.2)
    (fun _ _ _ _ _ ht h hG heffect => h.effect ht hG.1 hG.2 heffect) events
    fun p hp => ⟨hlarge p.2 (mem_of_mem_steps hp), hguard p hp⟩
  obtain ⟨slots, regions, htiling, hconserved⟩ := hrun t ht
  rw [htiling.largeRegions_eq, hconserved.regions_eq htiling hempty, hboot.largeRegions_eq, hrange]

/-! ### Runs on the kernel's heap -/

/-- The whole large region but its last 8 bytes. -/
private def allButEight : Layout := layoutOf 1050616 3 (by decide)

/-- The release of what was allocated leaves the large list 8 bytes short. -/
theorem slack_lost : ¬∀ t ∈ states HeapState.step kernelHeap [.alloc allButEight, .dealloc 0],
    t.live = [] → t.heap.largeRegions = kernelHeap.heap.largeRegions := by
  intro h
  have hlast := h _ (foldl_mem_states _ _ _)
  revert hlast
  decide +kernel

/-- Two pages, released in the order of their allocation. -/
private def pages : List HeapEvent :=
  [.alloc bytes4096, .alloc bytes4096, .dealloc 1, .dealloc 0]

theorem pages_conserved :
    (∀ e ∈ pages, e.Large) ∧
      (∀ p ∈ steps HeapState.step kernelHeap pages, p.1.Lossless p.2) ∧
      (pages.foldl HeapState.step kernelHeap).live = [] ∧
      (pages.foldl HeapState.step kernelHeap).heap.largeRegions =
        kernelHeap.heap.largeRegions := by
  have hlarge : ∀ e ∈ pages, e.Large := by decide +kernel
  have hguard : ∀ p ∈ steps HeapState.step kernelHeap pages, p.1.Lossless p.2 := by
    decide +kernel
  have hempty : (pages.foldl HeapState.step kernelHeap).live = [] := by decide +kernel
  exact ⟨hlarge, hguard, hempty, large_conserved_of_guarded _ _ _ (by decide) (by decide) pages
    hlarge hguard _ (foldl_mem_states _ _ _) hempty⟩

end RustKernel.Memory
