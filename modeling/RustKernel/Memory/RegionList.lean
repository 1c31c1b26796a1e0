import RustKernel.Memory.Conservation

/-!
# RustKernel.Memory.RegionList

The large free list seen as pairs of a start and a size, and the list in memory behind it.

`RegionList` is the view: `allocLarge` and `deallocLarge` are the source's walks with the nodes
replaced by pairs. `RegionList.InMemory` relates it to the allocator whose nodes lie in the heap.

## Main results

* `RegionList.allocLarge_firstFit`: first fit. The request is served from the first region that
  holds an aligned block, and what is left is in order and apart from it.
* `RegionList.deallocLarge_coalesced`: a freed block goes back into a coalesced list, which stays
  coalesced and covers the block as well.

## Proof strategy

A walk over the pairs and a walk over the nodes stop at the same place (`allocLargeFrom_refines`,
`deallocLargeFrom_refines`), by induction over the rest of the list. There both make the same edit,
which `LargeList.carve` and `LargeList.insertAt` follow through the memory.
-/

namespace RustKernel.Memory

open Lib BucketAllocator

/-! ### The view -/

/-- The part of the allocator that the large list concerns, with pairs in place of nodes. -/
structure RegionList where
  regions : List Extent
  used : Nat
  heapStart : Nat
  heapEnd : Nat
  deriving DecidableEq, Repr

/-- The loop of `alloc_large`, behind the regions `pre`. -/
def splitFrom (size align : Nat) : List Extent → List Extent → Option (Nat × List Extent)
  | _, [] => none
  | pre, r :: post =>
    let allocStart := alignUp r.start align
    -- `checked_add`
    if allocStart + size ≥ 2 ^ 64 then none
    else if allocStart + size ≤ r.stop then
      some (allocStart, pre ++ (leftovers r allocStart size ++ post))
    else splitFrom size align (pre ++ [r]) post

/-- The loop of `dealloc_large`, behind the regions `pre`. -/
def insertFrom (ptr size : Nat) : List Extent → List Extent → List Extent
  | pre, [] => if ptr < 2 ^ 64 - 1 then coalesce pre ⟨ptr, size⟩ [] else pre
  | pre, c :: post =>
    if ptr < c.start then coalesce pre ⟨ptr, size⟩ (c :: post)
    -- a double free, after the size has been stored into the node
    else if ptr = c.start then pre ++ ⟨c.start, size⟩ :: post
    else insertFrom ptr size (pre ++ [c]) post

namespace RegionList

def allocLarge (free : RegionList) (size align : Nat) : Option Nat × RegionList :=
  match splitFrom size align [] free.regions with
  | some (allocStart, regions) =>
    (nonNull allocStart, { free with regions, used := (free.used + size) % 2 ^ 64 })
  | none => (none, free)

def deallocLarge (free : RegionList) (ptr size : Nat) : RegionList :=
  if ptr < free.heapStart ∨ ptr + size > free.heapEnd then free
  else
    { free with
      regions := insertFrom ptr size [] free.regions
      used := free.used - size }

/-- The pairs are what the nodes of the allocator say. -/
structure InMemory (free : RegionList) (h : BucketAllocator) : Prop where
  large : LargeList h.mem h.largeHead free.regions
  stops : ∀ r ∈ free.regions, r.stop < 2 ^ 64
  used : h.used = free.used
  heapStart : h.heapStart = free.heapStart
  heapEnd : h.heapEnd = free.heapEnd

end RegionList

/-! ### Freeing a block -/

section Dealloc

variable {h : BucketAllocator} {ptr size : Nat} {pre mid post rest : List Extent}

/-- The block goes between the regions in front of it and the others. -/
theorem insertFrom_eq (hptr : ptr < 2 ^ 64 - 1) (hmid : ∀ r ∈ mid, r.start < ptr)
    (hpost : ∀ r ∈ post.head?, ptr < r.start) :
    insertFrom ptr size pre (mid ++ post) = coalesce (pre ++ mid) ⟨ptr, size⟩ post := by
  induction mid generalizing pre with
  | nil =>
    rw [List.append_nil, List.nil_append]
    cases post with
    | nil => rw [insertFrom, if_pos hptr]
    | cons c post => rw [insertFrom, if_pos (hpost c rfl)]
  | cons r mid ih =>
    obtain ⟨hr, hmid⟩ := List.forall_mem_cons.mp hmid
    rw [List.cons_append, insertFrom, if_neg (by omega), if_neg (by omega), ih hmid,
      List.append_assoc]
    rfl

/-- In an ordered list the regions in front of an address come first. -/
theorem exists_split_start (ptr : Nat) (horder : rest.Pairwise fun e f => e.start < f.start)
    (hfresh : ∀ r ∈ rest, r.start ≠ ptr) :
    ∃ mid post, rest = mid ++ post ∧ (∀ r ∈ mid, r.start < ptr) ∧ ∀ r ∈ post, ptr < r.start := by
  induction rest with
  | nil => exact ⟨[], [], rfl, by simp, by simp⟩
  | cons r rest ih =>
    obtain ⟨hhead, htail⟩ := List.pairwise_cons.mp horder
    obtain ⟨hr, hfresh⟩ := List.forall_mem_cons.mp hfresh
    by_cases hlt : r.start < ptr
    · obtain ⟨mid, post, rfl, hmid, hpost⟩ := ih htail hfresh
      exact ⟨r :: mid, post, rfl, List.forall_mem_cons.mpr ⟨hlt, hmid⟩, hpost⟩
    · -- everything behind the first region at or behind the address is behind it too
      refine ⟨[], r :: rest, rfl, by simp, List.forall_mem_cons.mpr ⟨by omega, fun q hq => ?_⟩⟩
      have hq' := hhead q hq
      omega

/-- In memory the block becomes a node, or part of one, at the same place. -/
theorem deallocLargeFrom_refines (hlist : LargeList h.mem h.largeHead (mid ++ post))
    (hlen : (mid ++ post).length < WALK_LIMIT) (hptr : ptr < 2 ^ 64 - 1)
    (hmid : ∀ r ∈ mid, r.start < ptr) (hpost : ∀ r ∈ post, ptr < r.start) :
    h.deallocLargeFrom ptr size WALK_LIMIT none h.largeHead =
      h.insertAt ptr size (cursorAfter mid) (headOf (post.map Extent.start)) := by
  have hfresh : ∀ r ∈ mid ++ post, r.start ≠ ptr := by
    intro r hr
    rcases List.mem_append.mp hr with hr | hr
    · exact (hmid r hr).ne
    · exact (hpost r hr).ne'
  obtain ⟨mid', post', hsplit, hmid', hpost', heq⟩ := deallocLargeFrom_spec h ptr size []
    (mid ++ post) WALK_LIMIT hlist hlen hptr hfresh
  -- both splits of the list are at the same place
  have hsame : mid = mid' ∧ post = post' := by
    rcases List.append_eq_append_iff.mp hsplit with ⟨common, rfl, rfl⟩ | ⟨common, rfl, rfl⟩
    · cases common with
      | nil => simp
      | cons c common =>
        have hlt := hmid' c (by simp)
        have hgt := hpost c (by simp)
        omega
    · cases common with
      | nil => simp
      | cons c common =>
        have hlt := hmid c (by simp)
        have hgt := hpost' c rfl
        omega
  obtain ⟨rfl, rfl⟩ := hsame
  have hhead : h.largeHead = headOf ((mid ++ post).map Extent.start) := hlist.head_eq
  rw [← hhead] at heq
  exact heq

/-- Addressable regions that share no address are fewer than a walk can pass. -/
private theorem length_lt_walk {regions : List Extent} (hapart : regions.Pairwise Extent.Apart)
    (hpos : ∀ r ∈ regions, 0 < r.len) (hstops : ∀ r ∈ regions, r.stop < 2 ^ 64) :
    regions.length < WALK_LIMIT := by
  have hpacked : Packed 0 (2 ^ 64 - 1) regions :=
    ⟨fun r hr => ⟨Nat.zero_le _, Nat.le_pred_of_lt (hstops r hr)⟩, hpos, hapart⟩
  have hle := hpacked.length_le
  simp only [WALK_LIMIT]
  omega

variable {free : RegionList}

/-- Freeing a block in memory is freeing it in the view, if its header touches no other. -/
theorem RegionList.InMemory.deallocLarge (hmem : free.InMemory h)
    (hsplit : free.regions = mid ++ post) (hmid : ∀ r ∈ mid, r.start < ptr)
    (hpost : ∀ r ∈ post, ptr < r.start) (hptr : 0 < ptr) (hhi : ptr + size ≤ free.heapEnd)
    (hend : free.heapEnd < 2 ^ 64) (hsize : 0 < size)
    (hapart : HeadersApart (mid ++ ⟨ptr, size⟩ :: post)) (hlen : free.regions.length < WALK_LIMIT) :
    (free.deallocLarge ptr size).InMemory (h.deallocLarge ptr size) := by
  have hlarge := hmem.large
  have hstops := hmem.stops
  rw [hsplit] at hlarge hstops hlen
  have hrange : (ptr < h.heapStart ∨ ptr + size > h.heapEnd) ↔
      (ptr < free.heapStart ∨ ptr + size > free.heapEnd) := by
    rw [hmem.heapStart, hmem.heapEnd]
  rw [RegionList.deallocLarge, BucketAllocator.deallocLarge]
  by_cases hout : ptr < free.heapStart ∨ ptr + size > free.heapEnd
  · rw [if_pos hout, if_pos (hrange.mpr hout)]
    exact hmem
  · rw [if_neg hout, if_neg (hrange.not.mpr hout)]
    dsimp only
    -- the size is stored into the block before the walk
    generalize hstored : ({ h with used := h.used - size } : BucketAllocator).setSize ptr size = h₁
    have hlist₁ : LargeList h₁.mem h₁.largeHead (mid ++ post) := by
      rw [← hstored]
      exact hlarge.frame_header (q := ⟨ptr, size⟩) hapart.middle le_rfl (by simp)
    have hsize₁ : read64 h₁.mem ptr = size := by
      rw [← hstored]
      exact read64_write64 _ _ _ (by omega)
    have hptr₁ : ptr < 2 ^ 64 - 1 := by omega
    have hinserted := hlist₁.insertAt (e := ⟨ptr, size⟩) hsize₁ (by dsimp only; omega)
      (by simp only [Extent.stop]; omega) hapart hstops
    rw [deallocLargeFrom_refines hlist₁ hlen hptr₁ hmid hpost]
    have hview : insertFrom ptr size [] free.regions = coalesce mid ⟨ptr, size⟩ post := by
      rw [hsplit]
      exact insertFrom_eq hptr₁ hmid fun r hr => hpost r (List.mem_of_mem_head? hr)
    obtain ⟨-, hstart, hstop⟩ := insertAt_frame (h := h₁) ptr size (cursorAfter mid)
      (headOf (post.map Extent.start))
    exact {
      large := by
        dsimp only
        rw [hview]
        exact hinserted
      stops := by
        dsimp only
        rw [hview]
        have hlt : ∀ r ∈ mid ++ post, r.Within 0 (2 ^ 64 - 1) :=
          fun r hr => ⟨Nat.zero_le _, Nat.le_pred_of_lt (hstops r hr)⟩
        obtain ⟨hmidLt, hpostLt⟩ := List.forall_mem_append.mp hlt
        have hblock : (⟨ptr, size⟩ : Extent).Within 0 (2 ^ 64 - 1) := by
          simp only [Extent.Within, Extent.stop]
          omega
        intro r hr
        have hr' := (within_coalesce hmidLt hblock hpostLt r hr).2
        omega
      used := by
        rw [insertAt_used, ← hstored, setSize_used, hmem.used]
      heapStart := by
        rw [hstart, ← hstored]
        exact hmem.heapStart
      heapEnd := by
        rw [hstop, ← hstored]
        exact hmem.heapEnd }

/-- **Coalescing free**: the block goes back into the list, which stays coalesced and covers what
    it covered before and the block. The list in memory follows the view if every region can hold
    its header. -/
theorem RegionList.deallocLarge_coalesced (free : RegionList) (ptr size : Nat)
    (hfree : Coalesced free.regions) (hpos : ∀ r ∈ free.regions, 0 < r.len) (hsize : 2048 < size)
    (hlo : free.heapStart ≤ ptr) (hhi : ptr + size ≤ free.heapEnd) (hend : free.heapEnd < 2 ^ 64)
    (hapart : ∀ r ∈ free.regions, r.Apart ⟨ptr, size⟩) :
    Coalesced (free.deallocLarge ptr size).regions ∧
    cover (free.deallocLarge ptr size).regions =
      cover free.regions ∪ Finset.Ico ptr (ptr + size) ∧
    ∀ h : BucketAllocator, free.InMemory h → 0 < ptr →
      (∀ r ∈ free.regions, LARGE_NODE_LEN ≤ r.len) →
      (free.deallocLarge ptr size).InMemory (h.deallocLarge ptr size) := by
  have hfresh : ∀ r ∈ free.regions, r.start ≠ ptr := by
    intro r hr
    have hside := hapart r hr
    have hrpos := hpos r hr
    simp only [Extent.Apart, Extent.stop] at hside
    omega
  obtain ⟨mid, post, hsplit, hmid, hpost⟩ := exists_split_start ptr hfree.ordered hfresh
  have hview : (free.deallocLarge ptr size).regions = coalesce mid ⟨ptr, size⟩ post := by
    rw [RegionList.deallocLarge, if_neg (by omega), hsplit]
    exact insertFrom_eq (by omega) hmid fun r hr => hpost r (List.mem_of_mem_head? hr)
  have hsep := coalesced_iff.mp hfree
  rw [hsplit] at hsep hapart hpos
  refine ⟨?_, ?_, fun h hmem hptr hlens => ?_⟩
  · rw [hview]
    refine coalesced_iff.mpr (hsep.coalesce (fun p hp => ?_) fun f hf => ?_)
    · have hside := hapart p (List.mem_append_left post hp)
      have hlt := hmid p hp
      simp only [Extent.Apart, Extent.stop] at hside ⊢
      omega
    · have hside := hapart f (List.mem_append_right mid hf)
      have hlt := hpost f hf
      have hfpos := hpos f (List.mem_append_right mid hf)
      simp only [Extent.Apart, Extent.stop] at hside ⊢
      omega
  · rw [hview, cover_coalesce, hsplit]
    rfl
  · -- the header of the block lies in the block, which is apart from every region
    have hlen := length_lt_walk hfree.apart (fun r hr => hpos r (hsplit ▸ hr)) hmem.stops
    refine hmem.deallocLarge hsplit hmid hpost hptr hhi hend (by omega) ?_ hlen
    have hold := hfree.apart
    rw [hsplit] at hold hlens
    refine HeadersApart.insert (hold.imp_of_mem ?_) fun q hq => ?_
    · intro p q hp hq hside
      have hp' := hlens p hp
      have hq' := hlens q hq
      simp only [Extent.Apart, header, Extent.stop] at hside ⊢
      omega
    · have hside := hapart q hq
      have hq' := hlens q hq
      simp only [Extent.Apart, header, Extent.stop, LARGE_NODE_LEN] at hside hq' ⊢
      omega

/-- Two regions with a gap of 4096 bytes between them. -/
private def twoRegions : RegionList := ⟨[⟨4096, 64⟩, ⟨8256, 64⟩], 4096, 4096, 65536⟩

theorem gap_coalesced : Coalesced (twoRegions.deallocLarge 4160 4096).regions ∧
    cover (twoRegions.deallocLarge 4160 4096).regions =
      cover twoRegions.regions ∪ Finset.Ico 4160 (4160 + 4096) := by
  have h := RegionList.deallocLarge_coalesced twoRegions 4160 4096
    (coalesced_iff.mpr (by unfold Separated; decide)) (by decide) (by decide) (by decide)
    (by decide)
    (by decide) (by decide)
  exact ⟨h.1, h.2.1⟩

example : (twoRegions.deallocLarge 4160 4096).regions = [⟨4096, 4224⟩] := by decide

end Dealloc

/-! ### First fit -/

section Alloc

variable {h : BucketAllocator} {size align k : Nat} {r : Extent} {pre mid post rest : List Extent}
  {free : RegionList}

/-- The walk over the pairs goes past what it does not serve the request from. -/
private theorem splitFrom_passed (hmid : ∀ q ∈ mid, Passed size align q) :
    splitFrom size align pre (mid ++ rest) = splitFrom size align (pre ++ mid) rest := by
  induction mid generalizing pre with
  | nil => rw [List.nil_append, List.append_nil]
  | cons q mid ih =>
    obtain ⟨⟨hlt, hnofit⟩, hmid⟩ := List.forall_mem_cons.mp hmid
    rw [List.cons_append, splitFrom]
    rw [if_neg (by omega), if_neg (show ¬_ ≤ _ from hnofit), ih hmid, List.append_assoc]
    rfl

private theorem splitFrom_all (hall : ∀ q ∈ rest, Passed size align q) :
    splitFrom size align pre rest = none := by
  have hpassed : splitFrom size align pre (rest ++ []) = splitFrom size align (pre ++ rest) [] :=
    splitFrom_passed hall
  rw [List.append_nil] at hpassed
  rw [hpassed, splitFrom]

private theorem splitFrom_overflow (hmid : ∀ q ∈ mid, Passed size align q)
    (hover : 2 ^ 64 ≤ alignUp r.start align + size) :
    splitFrom size align pre (mid ++ r :: post) = none := by
  rw [splitFrom_passed hmid, splitFrom]
  exact if_pos hover

private theorem splitFrom_fits (hmid : ∀ q ∈ mid, Passed size align q) (hlt : r.stop < 2 ^ 64)
    (hfits : Fits size align r) :
    splitFrom size align pre (mid ++ r :: post) = some (alignUp r.start align,
      pre ++ mid ++ (leftovers r (alignUp r.start align) size ++ post)) := by
  have hend : alignUp r.start align + size ≤ r.stop := hfits
  rw [splitFrom_passed hmid, splitFrom]
  rw [if_neg (by omega), if_pos hend]

/-- In memory the walk over the nodes comes to the same end. -/
theorem allocLargeFrom_refines (size align : Nat) (hlist : LargeList h.mem h.largeHead rest)
    (hlen : rest.length < WALK_LIMIT) (hstops : ∀ r ∈ rest, r.stop < 2 ^ 64) :
    (splitFrom size align [] rest = none ∧ h.allocLarge size align = (none, h)) ∨
    ∃ mid r post, rest = mid ++ r :: post ∧ (∀ q ∈ mid, Passed size align q) ∧
      Fits size align r ∧
      splitFrom size align [] rest = some (alignUp r.start align,
        mid ++ (leftovers r (alignUp r.start align) size ++ post)) ∧
      h.allocLarge size align = (nonNull (alignUp r.start align),
        h.carve (cursorAfter mid) r.start (alignUp r.start align) size) := by
  rcases allocLargeFrom_cases h size align [] rest WALK_LIMIT hlist hlen hstops with
    ⟨hall, heq⟩ | ⟨mid, r, post, rfl, hmid, hover, heq⟩ | ⟨mid, r, post, rfl, hmid, hfits, heq⟩
  · exact .inl ⟨splitFrom_all hall, heq⟩
  · exact .inl ⟨splitFrom_overflow hmid hover, heq⟩
  · right
    exact ⟨mid, r, post, rfl, hmid, hfits, splitFrom_fits hmid (hstops r (by simp)) hfits, heq⟩

/-- The region contains an aligned block of the size. -/
def HoldsAligned (size align : Nat) (r : Extent) : Prop :=
  ∃ a, align ∣ a ∧ (⟨a, size⟩ : Extent).Within r.start r.stop

/-- The rounded start is the least multiple from the start on. -/
private theorem alignUp_le {addr a : Nat} (hk : k ≤ 63) (haddr : addr ≤ 2 ^ 63) (ha : 2 ^ k ∣ a)
    (hle : addr ≤ a) : alignUp addr (2 ^ k) ≤ a := by
  obtain ⟨-, hlt, n, hn⟩ := alignUp_spec addr k hk haddr
  obtain ⟨m, rfl⟩ := ha
  rw [hn] at hlt ⊢
  have hmn : n < m + 1 := by
    by_contra hcon
    have hstep : 2 ^ k * (m + 1) ≤ 2 ^ k * n := Nat.mul_le_mul_left _ (by omega)
    rw [Nat.mul_add] at hstep
    omega
  exact Nat.mul_le_mul_left _ (by omega)

/-- Below `2 ^ 63` that is what the source tests. -/
private theorem fits_iff_holdsAligned (hk : k ≤ 63) (hstart : r.start ≤ 2 ^ 63) :
    Fits size (2 ^ k) r ↔ HoldsAligned size (2 ^ k) r := by
  obtain ⟨hge, -, hdvd⟩ := alignUp_spec r.start k hk hstart
  constructor
  · intro hfits
    exact ⟨alignUp r.start (2 ^ k), hdvd, hge, hfits⟩
  · rintro ⟨a, ha, hlo, hhi⟩
    have hle := alignUp_le hk hstart ha hlo
    simp only [Extent.stop, Fits] at hhi ⊢
    omega

/-- Some region fits the request, the first one after regions that do not, or none does. -/
private theorem first_fit_cases (size align : Nat) (rest : List Extent) :
    (∀ q ∈ rest, ¬Fits size align q) ∨
      ∃ mid r post, rest = mid ++ r :: post ∧ (∀ q ∈ mid, ¬Fits size align q) ∧
        Fits size align r := by
  cases hfind : rest.find? fun q => Fits size align q with
  | none => exact .inl (by simpa using hfind)
  | some r =>
    obtain ⟨hfits, mid, post, hsplit, hmid⟩ := List.find?_eq_some_iff_append.mp hfind
    exact .inr ⟨mid, r, post, hsplit, by simpa using hmid, by simpa using hfits⟩

/-- Strictly ordered by start, and pairwise disjoint. -/
def InOrder (es : List Extent) : Prop := es.Pairwise fun e f => e.start < f.start ∧ e.Apart f

private theorem inOrder_iff {es : List Extent} :
    InOrder es ↔ es.Pairwise fun e f => e.start < f.start ∧ e.stop ≤ f.start := by
  refine List.Pairwise.iff fun e f => ?_
  simp only [Extent.Apart, Extent.stop]
  omega

theorem InOrder.split {pieces : List Extent} (horder : InOrder (pre ++ r :: post))
    (hpieces : InOrder pieces) (hwithin : ∀ f ∈ pieces, f.Within r.start r.stop)
    (hpos : ∀ f ∈ pieces, 0 < f.len) : InOrder (pre ++ (pieces ++ post)) := by
  rw [inOrder_iff] at *
  obtain ⟨hpre, hrest, hcross⟩ := List.pairwise_append.mp horder
  obtain ⟨hhead, hpost⟩ := List.pairwise_cons.mp hrest
  refine List.pairwise_append.mpr ⟨hpre, List.pairwise_append.mpr ⟨hpieces, hpost, ?_⟩, ?_⟩
  · intro f hf g hg
    have hin := hwithin f hf
    have hfpos := hpos f hf
    have hlt := hhead g hg
    simp only [Extent.Within, Extent.stop] at hin hlt ⊢
    omega
  · intro p hp f hf
    rcases List.mem_append.mp hf with hf | hf
    · have hin := hwithin f hf
      have hlt := hcross p hp r List.mem_cons_self
      simp only [Extent.Within] at hin
      omega
    · exact hcross p hp f (List.mem_cons_of_mem r hf)

theorem inOrder_leftovers {p : Nat} (hlo : r.start ≤ p) (hsize : 0 < size) :
    InOrder (leftovers r p size) ∧ ∀ f ∈ leftovers r p size, 0 < f.len ∧
      f.Apart ⟨p, size⟩ := by
  rw [inOrder_iff, leftovers]
  dsimp only
  split_ifs with hexcess <;> simp only [LARGE_NODE_LEN, Extent.stop] at hexcess
  · exact ⟨.nil, by simp⟩
  · refine ⟨List.pairwise_singleton _ _, ?_⟩
    simp only [List.forall_mem_singleton, Extent.Apart, Extent.stop]
    omega
  · refine ⟨List.pairwise_cons.mpr ⟨?_, List.pairwise_singleton _ _⟩, ?_⟩
    · simp only [List.forall_mem_singleton, Extent.stop]
      omega
    · simp only [List.forall_mem_cons, List.not_mem_nil, false_imp_iff, implies_true, and_true,
        Extent.Apart, Extent.stop]
      omega

theorem InOrder.length_lt (horder : InOrder rest) (hstops : ∀ r ∈ rest, r.stop < 2 ^ 63) :
    rest.length < WALK_LIMIT := by
  have hnodup : (rest.map Extent.start).Nodup :=
    List.pairwise_map.mpr (horder.imp fun hlt => hlt.1.ne)
  have hle : rest.length ≤ 2 ^ 63 := length_le_of_starts hnodup fun r hr => by
    have hstop := hstops r hr
    simp only [Extent.stop] at hstop
    omega
  simp only [WALK_LIMIT]
  omega

/-- Disjoint regions that can hold a header have disjoint headers. -/
theorem headersApart_of_len (hapart : rest.Pairwise Extent.Apart)
    (hlens : ∀ q ∈ rest, LARGE_NODE_LEN ≤ q.len) : HeadersApart rest :=
  hapart.imp_of_mem (by
    intro p q hp hq hside
    have hp' := hlens p hp
    have hq' := hlens q hq
    simp only [Extent.Apart, header, Extent.stop, LARGE_NODE_LEN] at hside hp' hq' ⊢
    omega)

/-- A leftover behind the header of its region overwrites no header. -/
theorem header_apart_leftover {p : Nat} (hapart : (mid ++ r :: post).Pairwise Extent.Apart)
    (hlens : ∀ q ∈ mid ++ r :: post, LARGE_NODE_LEN ≤ q.len)
    (hclear : r.start + LARGE_NODE_LEN ≤ p + size) (hexcess : p + size + LARGE_NODE_LEN ≤ r.stop) :
    ∀ q ∈ mid ++ r :: post, (header q).Apart ⟨p + size, LARGE_NODE_LEN⟩ := by
  obtain ⟨-, hrest, hcross⟩ := List.pairwise_append.mp hapart
  obtain ⟨hhead, -⟩ := List.pairwise_cons.mp hrest
  intro q hq
  have hq' := hlens q hq
  have hside : q.Apart r ∨ q = r := by
    rcases List.mem_append.mp hq with hq | hq
    · exact .inl (hcross q hq r List.mem_cons_self)
    · rcases List.mem_cons.mp hq with rfl | hq
      · exact .inr rfl
      · exact .inl (hhead q hq).symm
  rcases hside with hside | rfl
  · simp only [Extent.Apart, header, Extent.stop, LARGE_NODE_LEN] at *
    omega
  · exact .inl hclear

/-- Serving a request in memory is serving it in the view, if the leftover's header lies behind
    the header of the region. -/
theorem RegionList.InMemory.allocLarge (hmem : free.InMemory h) (horder : InOrder free.regions)
    (hlens : ∀ r ∈ free.regions, LARGE_NODE_LEN ≤ r.len) (hsize : LARGE_NODE_LEN ≤ size)
    (hlen : free.regions.length < WALK_LIMIT)
    (hup : ∀ r ∈ free.regions, r.start ≤ alignUp r.start align) :
    (free.allocLarge size align).2.InMemory (h.allocLarge size align).2 := by
  have hlarge := hmem.large
  have hstops := hmem.stops
  rw [RegionList.allocLarge]
  rcases allocLargeFrom_refines size align hlarge hlen hstops with
    ⟨hview, heq⟩ | ⟨mid, r, post, hsplit, -, hfits, hview, heq⟩
  · rw [hview, heq]
    exact hmem
  rw [hview, heq]
  dsimp only
  rw [hsplit] at hlarge horder hlens hstops hup
  have hlo := hup r (by simp)
  have hhi : alignUp r.start align + size ≤ r.stop := hfits
  have hrstop := hstops r (by simp)
  -- the regions keep their order, the two pieces stand where `r` stood
  have hapart : (mid ++ r :: post).Pairwise Extent.Apart := horder.imp And.right
  obtain ⟨-, hstart, hstop⟩ := carve_frame (h := h) (cursorAfter mid) r.start
    (alignUp r.start align) size
  exact {
    large := hlarge.carve (headersApart_of_len hapart hlens) hrstop hlo hhi
      (header_apart_leftover hapart hlens (by omega))
    stops := by
      intro q hq
      rcases List.mem_append.mp hq with hq | hq
      · exact hstops q (List.mem_append_left _ hq)
      · rcases List.mem_append.mp hq with hq | hq
        · have hin := (within_leftovers hlo hhi q hq).2
          omega
        · exact hstops q (List.mem_append_right _ (List.mem_cons_of_mem r hq))
    used := by rw [carve_used, hmem.used]
    heapStart := hstart.trans hmem.heapStart
    heapEnd := hstop.trans hmem.heapEnd }

/-- Below `2 ^ 63` the start is rounded up within the address space. -/
private theorem rounded_start (hk : k ≤ 63) (hstart : r.start ≤ 2 ^ 63) :
    r.start ≤ alignUp r.start (2 ^ k) ∧ alignUp r.start (2 ^ k) ≤ 2 ^ 63 ∧
      2 ^ k ∣ alignUp r.start (2 ^ k) := by
  obtain ⟨hge, -, hdvd⟩ := alignUp_spec r.start k hk hstart
  exact ⟨hge, alignUp_le hk hstart (Nat.pow_dvd_pow 2 hk) hstart, hdvd⟩

/-- The pieces of a region cover no more than the region. -/
private theorem cover_split {pieces : List Extent}
    (hwithin : ∀ f ∈ pieces, f.Within r.start r.stop) :
    cover (mid ++ (pieces ++ post)) ⊆ cover (mid ++ r :: post) := by
  intro a ha
  obtain ⟨f, hf, hfa⟩ := mem_cover.mp ha
  apply mem_cover.mpr
  rcases List.mem_append.mp hf with hf | hf
  · exact ⟨f, List.mem_append_left _ hf, hfa⟩
  · rcases List.mem_append.mp hf with hf | hf
    · have hin := hwithin f hf
      simp only [Extent.Within] at hin
      exact ⟨r, by simp, by omega⟩
    · exact ⟨f, by simp [hf], hfa⟩

/-- A block of a region is apart from the other regions, and from pieces that are apart from it. -/
private theorem apart_split {pieces : List Extent} {b : Extent}
    (hapart : (mid ++ r :: post).Pairwise Extent.Apart) (hb : b.Within r.start r.stop)
    (hpieces : ∀ f ∈ pieces, f.Apart b) : ∀ q ∈ mid ++ (pieces ++ post), q.Apart b := by
  obtain ⟨-, hrest, hcross⟩ := List.pairwise_append.mp hapart
  obtain ⟨hhead, -⟩ := List.pairwise_cons.mp hrest
  intro q hq
  rcases List.mem_append.mp hq with hq | hq
  · exact (hcross q hq r List.mem_cons_self).mono ⟨le_rfl, le_rfl⟩ hb
  · rcases List.mem_append.mp hq with hq | hq
    · exact hpieces q hq
    · exact (hhead q hq).symm.mono ⟨le_rfl, le_rfl⟩ hb

section Below

/-! Regions that end below `2 ^ 63`, none of them at address 0 -/

variable (hk : k ≤ 62) (horder : InOrder free.regions) (hstarts : ∀ r ∈ free.regions, 0 < r.start)
  (hstops : ∀ r ∈ free.regions, r.stop < 2 ^ 63)

include hstops in
private theorem RegionList.start_lt (hr : r ∈ free.regions) : r.start < 2 ^ 63 := by
  have hstop := hstops r hr
  simp only [Extent.stop] at hstop
  omega

include hk hstarts hstops in
private theorem RegionList.nonNull_alignUp (hr : r ∈ free.regions) :
    nonNull (alignUp r.start (2 ^ k)) = some (alignUp r.start (2 ^ k)) := by
  have hpos := hstarts r hr
  have hge := (rounded_start (k := k) (by omega) (RegionList.start_lt hstops hr).le).1
  exact if_neg (by omega)

include hk hstarts hstops in
/-- A request is refused if no region fits it, and else served from the first one that does: the end
    of the request does not overflow. -/
private theorem RegionList.allocLarge_cases (hsizeLt : size < 2 ^ 63) :
    ((∀ q ∈ free.regions, ¬Fits size (2 ^ k) q) ∧ free.allocLarge size (2 ^ k) = (none, free)) ∨
    ∃ mid r post, free.regions = mid ++ r :: post ∧ (∀ q ∈ mid, ¬Fits size (2 ^ k) q) ∧
      Fits size (2 ^ k) r ∧ free.allocLarge size (2 ^ k) = (some (alignUp r.start (2 ^ k)),
        { free with
          regions := mid ++ (leftovers r (alignUp r.start (2 ^ k)) size ++ post)
          used := (free.used + size) % 2 ^ 64 }) := by
  have hpassed : ∀ r ∈ free.regions, ¬Fits size (2 ^ k) r → Passed size (2 ^ k) r := by
    intro r hr hnofit
    have hle := (rounded_start (k := k) (by omega) (RegionList.start_lt hstops hr).le).2.1
    exact ⟨by omega, hnofit⟩
  rw [RegionList.allocLarge]
  rcases first_fit_cases size (2 ^ k) free.regions with hnone | ⟨mid, r, post, hsplit, hmid, hr⟩
  · rw [splitFrom_all fun q hq => hpassed q hq (hnone q hq)]
    exact .inl ⟨hnone, rfl⟩
  · have hrMem : r ∈ free.regions := hsplit ▸ List.mem_append_right _ List.mem_cons_self
    have hmidMem : ∀ q ∈ mid, q ∈ free.regions := fun q hq => hsplit ▸ List.mem_append_left _ hq
    have hrstop := hstops r hrMem
    have hview : splitFrom size (2 ^ k) [] free.regions = some (alignUp r.start (2 ^ k),
        mid ++ (leftovers r (alignUp r.start (2 ^ k)) size ++ post)) := by
      rw [hsplit]
      exact splitFrom_fits (fun q hq => hpassed q (hmidMem q hq) (hmid q hq)) (by omega) hr
    refine .inr ⟨mid, r, post, hsplit, hmid, hr, ?_⟩
    rw [hview]
    dsimp only
    rw [RegionList.nonNull_alignUp hk hstarts hstops hrMem]

include hk horder hstarts hstops in
/-- In memory the answer is the same, and a refused request changes nothing. -/
private theorem RegionList.InMemory.allocLarge_answer (hmem : free.InMemory h) (size : Nat) :
    (h.allocLarge size (2 ^ k)).1 = (free.allocLarge size (2 ^ k)).1 ∧
      ((free.allocLarge size (2 ^ k)).1 = none → (h.allocLarge size (2 ^ k)).2 = h) := by
  rw [RegionList.allocLarge]
  rcases allocLargeFrom_refines size (2 ^ k) hmem.large (horder.length_lt hstops) hmem.stops with
    ⟨hview, heq⟩ | ⟨mid, r, post, hsplit, -, -, hview, heq⟩
  · rw [hview, heq]
    exact ⟨rfl, fun _ => rfl⟩
  · rw [hview, heq]
    refine ⟨rfl, fun hnone => ?_⟩
    dsimp only at hnone
    rw [RegionList.nonNull_alignUp hk hstarts hstops
      (hsplit ▸ List.mem_append_right _ List.mem_cons_self)] at hnone
    exact absurd hnone (Option.some_ne_none _)

end Below

/-- **First fit**: the request is served exactly if some region holds an aligned block of its size,
    then from the first such region and from its first aligned address on. What is left is in order,
    lies in what was free before, and is apart from the allocation. The list in memory gives the same
    answer, and follows the view if every region and the allocation can hold a header. -/
theorem RegionList.allocLarge_firstFit (free : RegionList) (size k : Nat) (hsize : 8 ≤ size)
    (hsizeLt : size < 2 ^ 63) (hk3 : 3 ≤ k) (hk : k ≤ 62) (horder : InOrder free.regions)
    (hstarts : ∀ r ∈ free.regions, 0 < r.start) (hstops : ∀ r ∈ free.regions, r.stop < 2 ^ 63) :
    ((free.allocLarge size (2 ^ k)).1.isSome ↔
      ∃ r ∈ free.regions, HoldsAligned size (2 ^ k) r) ∧
    (∀ p, (free.allocLarge size (2 ^ k)).1 = some p →
      (∃ mid r post, free.regions = mid ++ r :: post ∧
        (∀ q ∈ mid, ¬HoldsAligned size (2 ^ k) q) ∧ HoldsAligned size (2 ^ k) r ∧
        p = alignUp r.start (2 ^ k) ∧ 2 ^ k ∣ p ∧ (⟨p, size⟩ : Extent).Within r.start r.stop) ∧
      InOrder (free.allocLarge size (2 ^ k)).2.regions ∧
      cover (free.allocLarge size (2 ^ k)).2.regions ⊆ cover free.regions ∧
      ∀ q ∈ (free.allocLarge size (2 ^ k)).2.regions, q.Apart ⟨p, size⟩) ∧
    ((free.allocLarge size (2 ^ k)).1 = none → (free.allocLarge size (2 ^ k)).2 = free) ∧
    ∀ h : BucketAllocator, free.InMemory h →
      (h.allocLarge size (2 ^ k)).1 = (free.allocLarge size (2 ^ k)).1 ∧
      ((free.allocLarge size (2 ^ k)).1 = none → (h.allocLarge size (2 ^ k)).2 = h) ∧
      (LARGE_NODE_LEN ≤ size → (∀ r ∈ free.regions, LARGE_NODE_LEN ≤ r.len) →
        (free.allocLarge size (2 ^ k)).2.InMemory (h.allocLarge size (2 ^ k)).2) := by
  have hfits : ∀ r ∈ free.regions, Fits size (2 ^ k) r ↔ HoldsAligned size (2 ^ k) r :=
    fun r hr => fits_iff_holdsAligned (by omega) (RegionList.start_lt hstops hr).le
  have hspec := fun r (hr : r ∈ free.regions) =>
    rounded_start (k := k) (by omega) (RegionList.start_lt hstops hr).le
  -- first the list alone, then the list in memory
  refine and_assoc.mp (and_assoc.mp ⟨?_, fun h hmem => ?_⟩)
  · rcases RegionList.allocLarge_cases hk hstarts hstops hsizeLt with
      ⟨hnone, heq⟩ | ⟨mid, r, post, hsplit, hmid, hr, heq⟩
    · rw [heq]
      refine ⟨⟨⟨fun h => absurd h (by simp), ?_⟩, by simp⟩, fun _ => rfl⟩
      rintro ⟨r, hr, hholds⟩
      exact absurd ((hfits r hr).mpr hholds) (hnone r hr)
    · have hrMem : r ∈ free.regions := hsplit ▸ List.mem_append_right _ List.mem_cons_self
      have hmidMem : ∀ q ∈ mid, q ∈ free.regions := fun q hq => hsplit ▸ List.mem_append_left _ hq
      obtain ⟨hge, -, hdvd⟩ := hspec r hrMem
      have hend : alignUp r.start (2 ^ k) + size ≤ r.stop := hr
      have hwithin := within_leftovers hge hend
      obtain ⟨hpieces, hsides⟩ := inOrder_leftovers (r := r) hge (by omega : 0 < size)
      rw [heq]
      -- `r` is the first region that holds the block, and leaves a front and a rest
      refine ⟨⟨⟨fun _ => ⟨r, hrMem, (hfits r hrMem).mp hr⟩, fun _ => rfl⟩, ?_⟩, by simp⟩
      rintro p hp
      obtain rfl := Option.some.inj hp
      rw [hsplit] at horder
      refine ⟨⟨mid, r, post, hsplit, fun q hq => ?_, (hfits r hrMem).mp hr, rfl, hdvd, hge, hend⟩,
        horder.split hpieces hwithin fun f hf => (hsides f hf).1, ?_,
        apart_split (horder.imp And.right) ⟨hge, hend⟩ fun f hf => (hsides f hf).2⟩
      · exact fun hholds => hmid q hq ((hfits q (hmidMem q hq)).mpr hholds)
      · rw [hsplit]
        exact cover_split hwithin
  · obtain ⟨hanswer, hrefused⟩ := hmem.allocLarge_answer hk horder hstarts hstops size
    exact ⟨hanswer, hrefused, fun hlen hlens => hmem.allocLarge horder hlens hlen
      (horder.length_lt hstops) fun r hr => (hspec r hr).1⟩

/-- The first region is too short once the start is aligned, and the second one serves the
    request. -/
private def shortAndLong : RegionList := ⟨[⟨4104, 64⟩, ⟨8200, 256⟩], 0, 4096, 65536⟩

theorem second_region_serves : (shortAndLong.allocLarge 48 (2 ^ 5)).1 = some 8224 ∧
    InOrder (shortAndLong.allocLarge 48 (2 ^ 5)).2.regions := by
  have h := RegionList.allocLarge_firstFit shortAndLong 48 5 (by decide) (by decide) (by decide)
    (by decide) (by unfold InOrder; decide) (by decide) (by decide)
  have hsome : (shortAndLong.allocLarge 48 (2 ^ 5)).1 = some 8224 := by decide
  exact ⟨hsome, (h.2.1 8224 hsome).2.1⟩

end Alloc

end RustKernel.Memory
