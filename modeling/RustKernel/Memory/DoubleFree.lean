import RustKernel.Memory.RegionList

/-!
# RustKernel.Memory.DoubleFree

The second release of a large block.

`dealloc_large` reduces `used` and stores the size into the block before it looks for the block in
the list, and the only block it then recognises is one that a free region starts at.

## Main result

* `second_free_harmless`: along a guarded run a second release changes nothing if nothing is in use
  and the block is a free region of its own; where it stores into no other header, it is harmless
  in no other case.

## Proof strategy

The regions stay in address order along a guarded run (`run_inOrder`), so the walk of the second
release ends at the region that starts with the block, or between two regions. In the first case
only the size of that region can change (`deallocLarge_hit`); in the second the list grows by the
size of the block.
-/

namespace RustKernel.Memory

open Lib BucketAllocator

/-! ### Address order along a run -/

section Order

variable {e c : Extent} {pre post : List Extent}

private theorem inOrder_append : InOrder (pre ++ post) ↔
    InOrder pre ∧ InOrder post ∧ ∀ p ∈ pre, ∀ f ∈ post, p.start < f.start ∧ p.Apart f :=
  List.pairwise_append

private theorem inOrder_cons : InOrder (e :: post) ↔
    (∀ f ∈ post, e.start < f.start ∧ e.Apart f) ∧ InOrder post :=
  List.pairwise_cons

/-- An extent goes in front of the extents behind it. -/
theorem InOrder.absorb (h : InOrder post) (hpos : ∀ f ∈ post, 0 < f.len)
    (hafter : ∀ f ∈ post, e.start < f.start ∧ e.stop ≤ f.start) : InOrder (absorb e post) := by
  cases post with
  | nil => exact List.pairwise_singleton _ _
  | cons c post =>
    obtain ⟨hhead, htail⟩ := inOrder_cons.mp h
    rw [Lib.absorb]
    split
    case isTrue htouch =>
      refine inOrder_cons.mpr ⟨fun f hf => ?_, htail⟩
      have hf' := hhead f hf
      have hc := hafter c List.mem_cons_self
      have hfpos := hpos f (List.mem_cons_of_mem c hf)
      simp only [Extent.Apart, Extent.stop] at htouch hf' hc ⊢
      omega
    case isFalse =>
      refine inOrder_cons.mpr ⟨fun f hf => ?_, h⟩
      have hf' := hafter f hf
      exact ⟨hf'.1, .inl hf'.2⟩

/-- An extent goes between the extents before it and those behind it. -/
theorem InOrder.coalesce (h : InOrder (pre ++ post)) (hpos : ∀ f ∈ pre ++ post, 0 < f.len)
    (hbefore : ∀ p ∈ pre, p.start < e.start ∧ p.stop ≤ e.start)
    (hafter : ∀ f ∈ post, e.start < f.start ∧ e.stop ≤ f.start) :
    InOrder (coalesce pre e post) := by
  obtain ⟨hpre, hpost, hcross⟩ := inOrder_append.mp h
  obtain ⟨hprePos, hpostPos⟩ := List.forall_mem_append.mp hpos
  -- what is put in front of the rest starts no earlier than `start`, and so does all of it
  have hstarts : ∀ (g : Extent), (∀ f ∈ post, g.start < f.start) →
      ∀ f ∈ Lib.absorb g post, g.start ≤ f.start :=
    fun g hg => start_absorb fun f hf => (hg f hf).le
  rcases List.eq_nil_or_concat' pre with rfl | ⟨front, p, rfl⟩
  · exact hpost.absorb hpostPos hafter
  obtain ⟨hfront, -, hlast⟩ := inOrder_append.mp hpre
  have hp := hbefore p (by simp)
  rw [Lib.coalesce, List.getLast?_concat]
  dsimp only
  split
  case isTrue htouch =>
    have hgrown : ∀ f ∈ post, p.start < f.start ∧
        (⟨p.start, p.len + e.len⟩ : Extent).stop ≤ f.start := by
      intro f hf
      have hf' := hafter f hf
      simp only [Extent.stop] at htouch hf' ⊢
      omega
    rw [List.dropLast_concat]
    refine inOrder_append.mpr ⟨hfront, hpost.absorb hpostPos hgrown, fun q hq f hf => ?_⟩
    have hq' := hlast q hq p (List.mem_singleton_self p)
    have hqpos := hprePos q (List.mem_append_left _ hq)
    have hppos := hprePos p (by simp)
    have hf' := hstarts ⟨p.start, p.len + e.len⟩ (fun g hg => (hgrown g hg).1) f hf
    simp only [Extent.Apart, Extent.stop] at hq' hf' ⊢
    omega
  case isFalse =>
    refine inOrder_append.mpr ⟨hpre, hpost.absorb hpostPos hafter, fun q hq f hf => ?_⟩
    have hq' := hbefore q hq
    have hf' := hstarts e (fun g hg => (hafter g hg).1) f hf
    simp only [Extent.Apart]
    omega

end Order

/-- Every effect of a step keeps the regions in order. -/
private theorem Tiling.effect_inOrder {unit : Nat} {s : HeapState} {slots : List Slot}
    {regions : List Extent} {e : HeapEvent} {c' : Contents} (htiling : Tiling unit s slots regions)
    (horder : InOrder regions) (heffect : Effect (s.contents slots regions) e c') :
    InOrder c'.regions := by
  have hpos : ∀ r ∈ regions, 0 < r.len := fun r hr => by
    have hlen := (htiling.regions r hr).1
    simp only [LARGE_NODE_LEN] at hlen
    omega
  cases heffect with
  | pop | refuse | push | unbucketed | miss | store => exact horder
  | @split layout mid post r ptr _ hsplit _ _ hge _ hle =>
    -- the pieces lie in the region, on both sides of the allocation
    have hsize : 0 < layout.request.1 := lt_max_of_lt_right (by decide)
    obtain ⟨hpieces, hsides⟩ := inOrder_leftovers (r := r) hge hsize
    have horder' : InOrder (mid ++ r :: post) := hsplit ▸ horder
    exact horder'.split hpieces (within_leftovers hge hle) fun f hf => (hsides f hf).1
  | @insert k b mid post hlive _ hsplit hbefore hafter =>
    -- the room of the block is apart from every region
    have hsplit : regions = mid ++ post := hsplit
    subst hsplit
    have hb := List.mem_of_getElem? hlive
    have hmin := (htiling.live b hb).min
    have hapart := fun r hr => htiling.region_apart hb (r := r) hr
    have horder : InOrder (mid ++ post) := horder
    obtain ⟨-, hpost, -⟩ := inOrder_append.mp horder
    refine horder.coalesce hpos (fun p hp => ?_) fun f hf => ?_
    · have hside := hapart p (List.mem_append_left post hp)
      have hlt := hbefore p hp
      simp only [Extent.Apart, Block.room, Extent.stop] at hside ⊢
      omega
    · have hside := hapart f (List.mem_append_right mid hf)
      have hfpos := hpos f (List.mem_append_right mid hf)
      have hlt : b.ptr < f.start := by
        cases post with
        | nil => cases hf
        | cons c post =>
          have hc := hafter c rfl
          rcases List.mem_cons.mp hf with rfl | hf
          · exact hc
          · exact hc.trans ((inOrder_cons.mp hpost).1 f hf).1
      simp only [Extent.Apart, Block.room, Extent.stop] at hside ⊢
      omega

/-- Along a guarded run the regions are in address order. -/
theorem run_inOrder (mem : ByteStore) (heapStart heapSize : Nat) (hstart : 0 < heapStart)
    (hend : heapStart + heapSize ≤ 2 ^ 63) (events : List HeapEvent)
    (hguard : ∀ p ∈ steps HeapState.step (.boot mem heapStart heapSize) events,
      p.1.Guarded 1 p.2) :
    ∀ t ∈ states HeapState.step (.boot mem heapStart heapSize) events,
      ∃ slots regions, Tiling 1 t slots regions ∧ InOrder regions := by
  -- the list of `init` has at most one region
  have hinit : ∀ regions : List Extent, regions.length ≤ 1 → InOrder regions := by
    intro regions hle
    match regions, hle with
    | [], _ => exact .nil
    | [r], _ => exact List.pairwise_singleton _ _
  exact run_contents hstart hend (one_dvd 8) (one_dvd _) (fun c => InOrder c.regions)
    (HeapState.Guarded 1) (fun regions hle _ => hinit regions hle)
    (fun s slots regions e _ _ hG => hG)
    (fun s slots regions e c' htiling horder _ heffect => htiling.effect_inOrder horder heffect)
    events hguard

/-! ### The second release -/

section Second

variable {h : BucketAllocator} {ptr size : Nat} {mid post regions : List Extent} {r : Extent}

private theorem length_coalesce_le (pre : List Extent) (e : Extent) (post : List Extent) :
    (coalesce pre e post).length ≤ pre.length + post.length + 1 := by
  have habsorb : ∀ g : Extent, (absorb g post).length ≤ post.length + 1 := by
    intro g
    cases post with
    | nil => simp [absorb]
    | cons c post =>
      rw [absorb]
      split <;> simp
  rcases List.eq_nil_or_concat' pre with rfl | ⟨front, p, rfl⟩
  · have hle := habsorb e
    simp only [coalesce, List.getLast?_nil, List.length_nil]
    omega
  · rw [coalesce, List.getLast?_concat]
    dsimp only
    split
    · have hle := habsorb ⟨p.start, p.len + e.len⟩
      simp only [List.dropLast_concat, List.length_append, List.length_cons, List.length_nil]
      omega
    · have hle := habsorb e
      simp only [List.length_append, List.length_cons, List.length_nil]
      omega

/-- A block that a region starts with is recognised, but only after its size has been stored. -/
theorem deallocLarge_hit (hlist : LargeList h.mem h.largeHead (mid ++ r :: post))
    (horder : InOrder (mid ++ r :: post)) (hheaders : HeadersApart (mid ++ r :: post))
    (hlen : (mid ++ r :: post).length < WALK_LIMIT) (hlo : h.heapStart ≤ r.start)
    (hhi : r.start + size ≤ h.heapEnd) (hend : h.heapEnd < 2 ^ 64 - 1) :
    h.deallocLarge r.start size = { h with used := h.used - size }.setSize r.start size ∧
      LargeList (h.deallocLarge r.start size).mem (h.deallocLarge r.start size).largeHead
        (mid ++ ⟨r.start, size⟩ :: post) := by
  have hsized : LargeList ({ h with used := h.used - size }.setSize r.start size).mem
      ({ h with used := h.used - size }.setSize r.start size).largeHead
      (mid ++ ⟨r.start, size⟩ :: post) := hlist.resize hheaders (by omega)
  have hkept : h.deallocLarge r.start size =
      { h with used := h.used - size }.setSize r.start size := by
    rw [BucketAllocator.deallocLarge, if_neg (by omega)]
    dsimp only
    generalize ({ h with used := h.used - size } : BucketAllocator).setSize r.start size = h₁ at *
    have hhead : h₁.largeHead = headOf ((mid ++ ⟨r.start, size⟩ :: post).map Extent.start) :=
      hsized.head_eq
    rcases deallocLargeFrom_cases h₁ r.start size [] (mid ++ ⟨r.start, size⟩ :: post) WALK_LIMIT
      hsized (by simpa using hlen) (by omega) with
      ⟨mid', post', hsplit, hmid', hpost', -⟩ | ⟨mid', q, post', -, -, -, heq⟩
    · -- the walk does not stop before it: the region would be on neither side
      have hmem : (⟨r.start, size⟩ : Extent) ∈ mid' ++ post' := hsplit ▸ by simp
      have hsorted : (mid' ++ post').Pairwise fun e f => e.start < f.start := by
        rw [← hsplit, List.pairwise_append, List.pairwise_cons]
        obtain ⟨hpre, hrest, hcross⟩ := inOrder_append.mp horder
        obtain ⟨hfirst, htail⟩ := inOrder_cons.mp hrest
        refine ⟨hpre.imp And.left, ⟨fun f hf => (hfirst f hf).1, htail.imp And.left⟩, ?_⟩
        intro p hp
        refine List.forall_mem_cons.mpr ⟨(hcross p hp r List.mem_cons_self).1, fun f hf => ?_⟩
        exact (hcross p hp f (List.mem_cons_of_mem r hf)).1
      rcases List.mem_append.mp hmem with hmem | hmem
      · exact absurd (hmid' _ hmem) (lt_irrefl _)
      · cases post' with
        | nil => cases hmem
        | cons c post' =>
          have hc := hpost' c rfl
          rcases List.mem_cons.mp hmem with heq | hmem
          · rw [← heq] at hc
            exact absurd hc (lt_irrefl _)
          · have hlt := (List.pairwise_cons.mp (List.pairwise_append.mp hsorted).2.1).1 _ hmem
            exact absurd (hc.trans hlt) (lt_irrefl _)
    · rw [← hhead] at heq
      exact heq
  rw [hkept]
  exact ⟨rfl, hsized⟩

/-- The byte counter and the list of the large regions are as before. -/
def BucketAllocator.SameFree (h h' : BucketAllocator) : Prop :=
  h'.used = h.used ∧ h'.largeRegions = h.largeRegions

/-- A second release of a block that is a region of its own, with nothing in use. -/
private theorem Tiling.second_free_same {unit : Nat} {s : HeapState} {slots : List Slot}
    {layout : Layout}
    (htiling : Tiling unit s slots regions) (horder : InOrder regions)
    (hbig : 2048 < layout.size) (hlo : s.heap.heapStart ≤ ptr)
    (hhi : ptr + layout.size ≤ s.heap.heapEnd) (hused : s.heap.used = 0)
    (hmem : ⟨ptr, layout.size⟩ ∈ regions) : s.heap.dealloc ptr layout = s.heap := by
  have hrequest : layout.request.1 = layout.size := max_eq_left (by omega)
  have hstop := htiling.stop
  obtain ⟨mid, post, rfl⟩ := List.append_of_mem hmem
  have hheaders := headersApart_of_packed (packed_regions htiling.packed)
    fun r hr => (htiling.regions r hr).1
  obtain ⟨hkept, -⟩ := deallocLarge_hit htiling.large horder hheaders htiling.length_lt hlo hhi
    (by omega)
  rw [dealloc_eq, bucketIndex_large hbig]
  dsimp only at hkept ⊢
  rw [hrequest, hkept]
  -- neither the counter nor the size changes
  have hsize : read64 s.heap.mem ptr = layout.size := htiling.large.sizes ⟨ptr, layout.size⟩ hmem
  have hsame : write64 s.heap.mem ptr layout.size = s.heap.mem := by
    rw [← hsize]
    exact write64_read64 _ _
  have hzero : s.heap.used - layout.size = s.heap.used := by omega
  rw [setSize]
  dsimp only
  rw [hsame, hzero]

/-- Where it stores into no header but its own, it is harmless in no other case. -/
private theorem Tiling.of_second_free_same {unit : Nat} {s : HeapState} {slots : List Slot}
    {layout : Layout} (htiling : Tiling unit s slots regions) (horder : InOrder regions)
    (hbig : 2048 < layout.size) (hlo : s.heap.heapStart ≤ ptr)
    (hhi : ptr + layout.size ≤ s.heap.heapEnd)
    (hclear : ∀ r ∈ regions, r.start ≠ ptr → (header r).Apart ⟨ptr, LARGE_NODE_LEN⟩)
    (hsame : s.heap.SameFree (s.heap.dealloc ptr layout)) :
    s.heap.used = 0 ∧ ⟨ptr, layout.size⟩ ∈ regions := by
  have hrequest : layout.request.1 = layout.size := max_eq_left (by omega)
  have hstop := htiling.stop
  have hpos := htiling.start
  have hlen := htiling.length_lt
  have hregions : regions.length < 2 ^ 64 - 1 := by
    have hle := (packed_regions htiling.packed).length_le
    omega
  have hheaders := headersApart_of_packed (packed_regions htiling.packed)
    fun r hr => (htiling.regions r hr).1
  rw [dealloc_eq, bucketIndex_large hbig] at hsame
  dsimp only at hsame
  rw [hrequest] at hsame
  obtain ⟨husedSame, hlistSame⟩ := hsame
  rw [htiling.largeRegions_eq] at hlistSame
  by_cases hstart : ∃ r ∈ regions, r.start = ptr
  · -- the size of the region that starts there is the size of the block
    obtain ⟨r, hr, rfl⟩ := hstart
    obtain ⟨mid, post, rfl⟩ := List.append_of_mem hr
    obtain ⟨hkept, hlist⟩ := deallocLarge_hit htiling.large horder hheaders hlen hlo hhi (by omega)
    have hread : (s.heap.deallocLarge r.start layout.size).largeRegions =
        mid ++ ⟨r.start, layout.size⟩ :: post := walk_eq hlist _ (by simpa using hlen)
    rw [hkept, setSize_used] at husedSame
    dsimp only at husedSame
    refine ⟨by omega, ?_⟩
    rw [← hlistSame, hread]
    simp
  · -- the block is put into the list once more
    push Not at hstart
    obtain ⟨mid, post, rfl, hmid, hpost⟩ := exists_split_start ptr (horder.imp And.left) hstart
    have hwithin := (packed_regions htiling.packed).within
    have hmemory : RegionList.InMemory
        ⟨mid ++ post, s.heap.used, s.heap.heapStart, s.heap.heapEnd⟩ s.heap :=
      ⟨htiling.large, fun r hr => by
        have hr' := (hwithin r hr).2
        omega, rfl, rfl, rfl⟩
    have hinserted := hmemory.deallocLarge rfl hmid hpost
      (by omega) hhi (by dsimp only; omega) (by omega)
      (hheaders.insert fun q hq => hclear q hq (hstart q hq)) hlen
    have hview : (RegionList.deallocLarge ⟨mid ++ post, s.heap.used, s.heap.heapStart,
        s.heap.heapEnd⟩ ptr layout.size).regions = coalesce mid ⟨ptr, layout.size⟩ post := by
      rw [RegionList.deallocLarge, if_neg (by dsimp only; omega)]
      exact insertFrom_eq (by omega) hmid fun r hr => hpost r (List.mem_of_mem_head? hr)
    have hlarge := hinserted.large
    rw [hview] at hlarge
    have hread := walk_eq hlarge WALK_LIMIT (by
      have hle := length_coalesce_le mid ⟨ptr, layout.size⟩ post
      simp only [List.length_append] at hregions
      simp only [WALK_LIMIT]
      omega)
    rw [BucketAllocator.largeRegions, hread] at hlistSame
    have htotal := congrArg totalLen hlistSame
    rw [totalLen_coalesce, totalLen_append] at htotal
    dsimp only at htotal
    omega

end Second

/-- **A second release**: along a guarded run, of a block of more than 2048 bytes in the heap. With
    nothing in use and the block a free region of its own, the heap stays as it is. Where no other
    node lies in the first bytes of the block or reaches into them, the counter and the list stay as
    they are in no other case. -/
theorem second_free_harmless (mem : ByteStore) (heapStart heapSize : Nat) (hstart : 0 < heapStart)
    (hend : heapStart + heapSize ≤ 2 ^ 63) (events : List HeapEvent)
    (hguard : ∀ p ∈ steps HeapState.step (.boot mem heapStart heapSize) events,
      p.1.Guarded 1 p.2) (ptr : Nat) (layout : Layout) (hbig : 2048 < layout.size)
    (hlo : heapStart ≤ ptr) (hhi : ptr + layout.size ≤ heapStart + heapSize) :
    ∀ t ∈ states HeapState.step (.boot mem heapStart heapSize) events,
      (t.heap.used = 0 ∧ ⟨ptr, layout.size⟩ ∈ t.heap.largeRegions →
        t.heap.dealloc ptr layout = t.heap) ∧
      ((∀ r ∈ t.heap.largeRegions, r.start ≠ ptr → (header r).Apart ⟨ptr, LARGE_NODE_LEN⟩) →
        t.heap.SameFree (t.heap.dealloc ptr layout) →
        t.heap.used = 0 ∧ ⟨ptr, layout.size⟩ ∈ t.heap.largeRegions) := by
  intro t ht
  obtain ⟨-, hbounds⟩ := run_sound 1 mem heapStart heapSize hstart hend (one_dvd 8) (one_dvd _)
    events hguard t ht
  obtain ⟨slots, regions, htiling, horder⟩ := run_inOrder mem heapStart heapSize hstart hend events
    hguard t ht
  obtain ⟨hheapStart, hheapEnd⟩ := Prod.mk.inj hbounds
  rw [← hheapStart] at hlo
  rw [← hheapEnd] at hhi
  rw [htiling.largeRegions_eq]
  exact ⟨fun ⟨hused, hmem⟩ => htiling.second_free_same horder hbig hlo hhi hused hmem,
    htiling.of_second_free_same horder hbig hlo hhi⟩

/-! ### A second release on the kernel's heap -/

/-- A block of the kernel's heap is released, and the region it came from is whole again: a second
    release puts it into the list once more. -/
theorem second_free_inserts : ¬∀ (events later : List HeapEvent) (k : Nat) (b : Block),
    (events.foldl HeapState.step kernelHeap).live[k]? = some b → 2048 < b.layout.size →
    (∀ t ∈ states HeapState.step ((events ++ [HeapEvent.dealloc k]).foldl HeapState.step kernelHeap) later,
      ∀ c ∈ t.live, c.extent.Apart b.extent) →
    ∀ t, t = (events ++ HeapEvent.dealloc k :: later).foldl HeapState.step kernelHeap →
      t.heap.SameFree (t.heap.dealloc b.ptr b.layout) := by
  intro hclaim
  have hlive : ([HeapEvent.alloc bytes4096].foldl HeapState.step kernelHeap).live[0]? =
      some ⟨0x300000, bytes4096, 4096⟩ := by
    have hptr : (kernelHeap.heap.alloc bytes4096).1 = some 0x300000 := by decide +kernel
    have hreserved : kernelHeap.heap.reserved bytes4096 = 4096 := by decide +kernel
    rw [List.foldl_cons, List.foldl_nil, HeapState.step]
    generalize kernelHeap.heap.alloc bytes4096 = answer at hptr
    obtain ⟨ptr?, heap⟩ := answer
    obtain rfl := hptr
    dsimp only
    rw [hreserved]
    rfl
  have hwhole : ([HeapEvent.alloc bytes4096, .dealloc 0].foldl HeapState.step
      kernelHeap).heap.largeRegions = [⟨0x2FF800, 1050624⟩] := by decide +kernel
  have hafter : (([HeapEvent.alloc bytes4096, .dealloc 0].foldl HeapState.step
      kernelHeap).heap.dealloc 0x300000 bytes4096).largeRegions ≠ [⟨0x2FF800, 1050624⟩] := by
    decide +kernel
  have hsame := hclaim [.alloc bytes4096] [] 0 ⟨0x300000, bytes4096, 4096⟩ hlive (by decide)
    (by decide +kernel) _ rfl
  exact hafter (hsame.2.trans hwhole)

/-- A heap with 4096 bytes past the buckets. -/
private def smallHeap : HeapState := .boot (fun _ => 0) 0x200000 1050624

/-- All of its large region is allocated and released. -/
private def wholeRegion : List HeapEvent := [.alloc (layoutOf 4096 3 (by decide)), .dealloc 0]

theorem whole_region_freed_twice :
    (wholeRegion.foldl HeapState.step smallHeap).heap.dealloc 0x2FF800
      (layoutOf 4096 3 (by decide)) = (wholeRegion.foldl HeapState.step smallHeap).heap := by
  have hguard : ∀ p ∈ steps HeapState.step smallHeap wholeRegion, p.1.Guarded 1 p.2 := by
    decide +kernel
  have hused : (wholeRegion.foldl HeapState.step smallHeap).heap.used = 0 := by decide +kernel
  have hmem : (⟨0x2FF800, 4096⟩ : Extent) ∈
      (wholeRegion.foldl HeapState.step smallHeap).heap.largeRegions := by decide +kernel
  have h := second_free_harmless (fun _ => 0) 0x200000 1050624 (by decide) (by decide) wholeRegion
    hguard 0x2FF800 (layoutOf 4096 3 (by decide)) (by decide) (by decide) (by decide) _
    (foldl_mem_states HeapState.step smallHeap wholeRegion)
  exact h.1 ⟨hused, hmem⟩

end RustKernel.Memory
