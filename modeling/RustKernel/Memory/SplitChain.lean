import RustKernel.Memory.RegionList

/-!
# RustKernel.Memory.SplitChain

The list that `alloc_large` leaves in memory after a split.

The header of what is left behind an allocation is stored before the link of the region is read, and
a region that is used up leaves the list together with what is in front of the allocation. A split
is clean (`CleanSplit`) if neither matters.

## Main result

* `allocLarge_chain_iff`: the list read back from the head is the one with the chosen region split
  exactly if the split is clean.
-/

namespace RustKernel.Memory

open Lib BucketAllocator

/-! ### The split as it should be -/

/-- What a split should leave: what is in front of the allocation, and what is behind it if it can
    hold a header. -/
def splitPieces (r : Extent) (p size : Nat) : List Extent :=
  (if r.start < p then [⟨r.start, p - r.start⟩] else []) ++
    if LARGE_NODE_LEN ≤ r.stop - (p + size) then [⟨p + size, r.stop - (p + size)⟩] else []

/-- The first region that fits is split, the others are kept. -/
def splitFirst (size align : Nat) : List Extent → List Extent
  | [] => []
  | r :: rest =>
    if Fits size align r then splitPieces r (alignUp r.start align) size ++ rest
    else r :: splitFirst size align rest

/-- A region that is used up has nothing in front of the allocation, and a leftover directly behind
    the start of the region leaves room for the header that the source reads after storing it. -/
def CleanSplit (r : Extent) (p size : Nat) : Prop :=
  (r.stop < p + size + LARGE_NODE_LEN → p = r.start) ∧
    (p + size + LARGE_NODE_LEN ≤ r.stop → p = r.start → LARGE_NODE_LEN ≤ size)

section Chain

variable {h h' : BucketAllocator} {mem : ByteStore} {size align k p : Nat} {r : Extent}
  {mid post regions : List Extent}

private theorem splitFirst_eq (hmid : ∀ q ∈ mid, ¬Fits size align q) (hfits : Fits size align r) :
    splitFirst size align (mid ++ r :: post) =
      mid ++ (splitPieces r (alignUp r.start align) size ++ post) := by
  induction mid with
  | nil => rw [List.nil_append, splitFirst, if_pos hfits, List.nil_append]
  | cons q mid ih =>
    obtain ⟨hq, hmid⟩ := List.forall_mem_cons.mp hmid
    rw [List.cons_append, splitFirst, if_neg hq, ih hmid, List.cons_append]

private theorem find?_eq (hmid : ∀ q ∈ mid, ¬Fits size align q) (hfits : Fits size align r) :
    (mid ++ r :: post).find? (fun q => Fits size align q) = some r := by
  rw [List.find?_append, List.find?_eq_none.mpr (by simpa using hmid), Option.none_or,
    List.find?_cons_of_pos (by simpa using hfits)]

/-- A clean split leaves what it should. -/
private theorem leftovers_eq_of_clean (hlo : r.start ≤ p) (hhi : p + size ≤ r.stop)
    (hclean : CleanSplit r p size) : leftovers r p size = splitPieces r p size := by
  rw [leftovers, splitPieces]
  dsimp only
  by_cases hexcess : r.stop - (p + size) < LARGE_NODE_LEN
  · have hfront := hclean.1 (by omega)
    rw [if_pos hexcess, if_neg (by omega), if_neg (by omega), List.nil_append]
  · have hleft : LARGE_NODE_LEN ≤ r.stop - (p + size) := by omega
    rw [if_neg hexcess, if_pos hleft]
    by_cases hfront : p = r.start
    · rw [if_pos hfront, if_neg (by omega), List.nil_append]
    · rw [if_neg hfront, if_pos (by omega)]
      rfl

/-- The nodes that a walk lists have the sizes that are stored in them. -/
private theorem walk_sizes (fuel node : Nat) :
    ∀ r ∈ walk mem fuel node, read64 mem r.start = r.len := by
  induction fuel generalizing node with
  | zero => simp [walk]
  | succ fuel ih =>
    rw [walk]
    split
    · simp
    · exact List.forall_mem_cons.mpr ⟨rfl, ih _⟩

/-- A link stored behind a prefix of the list is seen in the header of its last node only. -/
private theorem read64_writeCursor {addr v : Nat}
    (hmid : ∀ q ∈ mid, addr + 8 ≤ q.start ∨ (header q).stop ≤ addr) :
    read64 (h.writeCursor (cursorAfter mid) v).mem addr = read64 h.mem addr := by
  rcases List.eq_nil_or_concat' mid with rfl | ⟨front, last, rfl⟩
  · rfl
  · have hlast := hmid last (by simp)
    simp only [header, Extent.stop, LARGE_NODE_LEN] at hlast
    rw [cursorAfter_concat]
    exact read64_write64_ne _ _ _ _ (by omega)

/-- A leftover right behind the first eight bytes of a region: its size is stored over the link that
    is then taken, and taking the link stores `0` over the size. -/
private theorem carve_clobbers (hend : h.endAddr r.start = r.stop)
    (hexcess : r.start + 8 + LARGE_NODE_LEN ≤ r.stop) (hpre : ∀ q ∈ mid, q.Apart r)
    (hlens : ∀ q ∈ mid, LARGE_NODE_LEN ≤ q.len) :
    read64 (h.carve (cursorAfter mid) r.start r.start 8).mem (r.start + 8) = 0 := by
  rw [BucketAllocator.carve, hend]
  dsimp only
  rw [if_pos (by omega), if_pos rfl]
  simp only [takeNext_frame]
  -- the link of the node in front is the last store, and lies outside of the region
  rw [read64_writeCursor fun q hq => ?_]
  · simp only [setNext]
    rw [read64_write64_ne _ _ _ _ (by omega), read64_write64 _ _ _ (Nat.two_pow_pos 64)]
  · have hside := hpre q hq
    have hlen := hlens q hq
    simp only [Extent.Apart, Extent.stop, header, LARGE_NODE_LEN] at hside hlen hexcess ⊢
    omega

/-- Nodes of sixteen bytes are fewer than a walk can pass, also after a split. -/
private theorem length_lt_walkLimit (hapart : regions.Pairwise Extent.Apart)
    (hlens : ∀ r ∈ regions, LARGE_NODE_LEN ≤ r.len) (hstops : ∀ r ∈ regions, r.stop < 2 ^ 64) :
    regions.length + 1 < WALK_LIMIT := by
  simp only [LARGE_NODE_LEN] at hlens
  have hpacked : Packed 0 (2 ^ 64) regions :=
    ⟨fun r hr => ⟨Nat.zero_le _, (hstops r hr).le⟩, fun r hr => by
      have hpos := hlens r hr
      omega, hapart⟩
  have htotal := hpacked.totalLen_le
  have hmany := length_mul_le_totalLen hlens
  simp only [WALK_LIMIT]
  omega

/-- A region that rounds up past the end of the address space gives the null address. -/
private theorem alignUp_of_ne_zero (hk : k ≤ 63) (hstart : r.start < 2 ^ 64)
    (hne : alignUp r.start (2 ^ k) ≠ 0) :
    r.start ≤ alignUp r.start (2 ^ k) ∧ 2 ^ k ∣ alignUp r.start (2 ^ k) := by
  by_cases hlt : r.start + 2 ^ k - 1 < 2 ^ 64
  · obtain ⟨hge, -, hmul⟩ := alignUp_of_lt r.start k hk hlt
    exact ⟨hge, hmul⟩
  · exact absurd (alignUp_overflow r.start k hk (by omega) (by omega)) hne

/-- If the leftover's header is clear of the region's, the list is the one with the leftovers. -/
private theorem largeRegions_carve
    (hlist : LargeList h.mem h.largeHead (mid ++ r :: post))
    (hapart : (mid ++ r :: post).Pairwise Extent.Apart)
    (hlens : ∀ q ∈ mid ++ r :: post, LARGE_NODE_LEN ≤ q.len)
    (hstops : ∀ q ∈ mid ++ r :: post, q.stop < 2 ^ 64)
    (hlo : r.start ≤ p) (hhi : p + size ≤ r.stop)
    (hclear : p + size + LARGE_NODE_LEN ≤ r.stop → r.start + LARGE_NODE_LEN ≤ p + size) :
    (h.carve (cursorAfter mid) r.start p size).largeRegions =
      mid ++ (leftovers r p size ++ post) := by
  have hlen := length_lt_walkLimit hapart hlens hstops
  have hstored := hlist.carve (headersApart_of_len hapart hlens) (hstops r (by simp)) hlo hhi
    fun hexcess => header_apart_leftover hapart hlens (hclear hexcess) hexcess
  refine walk_eq hstored _ ?_
  have hfew : (leftovers r p size).length ≤ 2 := by
    rw [leftovers]
    dsimp only
    split_ifs <;> simp
  simp only [List.length_append, List.length_cons] at hlen ⊢
  omega

/-- A region that is used up is taken out as a whole, also what is in front of the allocation. -/
private theorem start_of_used_up (hlo : r.start ≤ p) (hused : r.stop < p + size + LARGE_NODE_LEN)
    (hsame : mid ++ (leftovers r p size ++ post) = mid ++ (splitPieces r p size ++ post)) :
    p = r.start := by
  have hgone : leftovers r p size = [] := by
    rw [leftovers]
    exact if_pos (by simp only [LARGE_NODE_LEN] at hused ⊢; omega)
  rw [hgone, List.nil_append] at hsame
  have hlengths := congrArg List.length hsame
  by_contra hfront
  rw [splitPieces, if_pos (by omega)] at hlengths
  simp only [List.length_append, List.length_cons, List.length_nil] at hlengths
  omega

/-- The size that a leftover right behind the first eight bytes should have is not the one stored. -/
private theorem not_same_of_eight (hsize : read64 h.mem r.start = r.len) (hrstop : r.stop < 2 ^ 64)
    (hmid : ∀ q ∈ mid, q.Apart r) (hlens : ∀ q ∈ mid, LARGE_NODE_LEN ≤ q.len)
    (hexcess : r.start + 8 + LARGE_NODE_LEN ≤ r.stop) :
    (h.carve (cursorAfter mid) r.start r.start 8).largeRegions ≠
      mid ++ (splitPieces r r.start 8 ++ post) := by
  intro hsame
  have hzero := carve_clobbers (endAddr_eq hsize hrstop) hexcess hmid hlens
  have hleft : (⟨r.start + 8, r.stop - (r.start + 8)⟩ : Extent) ∈
      (h.carve (cursorAfter mid) r.start r.start 8).largeRegions := by
    rw [hsame, splitPieces, if_neg (by omega), if_pos (by omega)]
    simp
  have hstored := walk_sizes _ _ _ hleft
  simp only [LARGE_NODE_LEN] at hexcess
  dsimp only at hstored
  omega

/-- **The list in memory**: after a successful request the list read back from the head is the old
    one with the first fitting region split, exactly if that split is clean. -/
theorem allocLarge_chain_iff (h h' : BucketAllocator) (regions : List Extent) (size k p : Nat)
    (hlist : LargeList h.mem h.largeHead regions) (hapart : regions.Pairwise Extent.Apart)
    (hnodes : ∀ r ∈ regions, 8 ∣ r.start ∧ LARGE_NODE_LEN ≤ r.len ∧ r.stop < 2 ^ 64)
    (hdvd : 8 ∣ size) (hsize : 8 ≤ size) (hk3 : 3 ≤ k) (hk : k ≤ 63)
    (hsome : h.allocLarge size (2 ^ k) = (some p, h')) :
    h'.largeRegions = splitFirst size (2 ^ k) regions ↔
      ∀ r ∈ regions.find? fun q => Fits size (2 ^ k) q,
        CleanSplit r (alignUp r.start (2 ^ k)) size := by
  have hlens : ∀ r ∈ regions, LARGE_NODE_LEN ≤ r.len := fun r hr => (hnodes r hr).2.1
  have hstops : ∀ r ∈ regions, r.stop < 2 ^ 64 := fun r hr => (hnodes r hr).2.2
  have hlen := length_lt_walkLimit hapart hlens hstops
  rcases allocLargeFrom_refines size (2 ^ k) hlist (by omega) hstops with
    ⟨-, heq⟩ | ⟨mid, r, post, rfl, hmid, hfits, -, heq⟩
  · rw [heq] at hsome
    cases hsome
  rw [heq] at hsome
  obtain ⟨hptr, rfl⟩ := Prod.mk.inj hsome
  have hne : alignUp r.start (2 ^ k) ≠ 0 := by
    intro hnull
    rw [hnull, nonNull, if_pos rfl] at hptr
    cases hptr
  obtain ⟨hr8, hrlen, hrstop⟩ := hnodes r (by simp)
  have hrstop' : r.stop = r.start + r.len := rfl
  obtain ⟨hlo, hmul⟩ := alignUp_of_ne_zero hk (by omega) hne
  have hp8 : 8 ∣ alignUp r.start (2 ^ k) := (Nat.pow_dvd_pow 2 hk3).trans hmul
  have hhi : alignUp r.start (2 ^ k) + size ≤ r.stop := hfits
  have hnofit : ∀ q ∈ mid, ¬Fits size (2 ^ k) q := fun q hq => (hmid q hq).2
  rw [find?_eq hnofit hfits, splitFirst_eq hnofit hfits]
  simp only [Option.mem_def, Option.some.injEq, forall_eq']
  -- what a walk over the new chain reads
  have hread := largeRegions_carve hlist hapart hlens hstops hlo hhi
  constructor
  · intro hsame
    refine ⟨fun hused => ?_, fun hexcess hfront => ?_⟩
    · have hlist' := hread fun hexcess => by omega
      exact start_of_used_up hlo hused (hlist'.symm.trans hsame)
    -- a block of 8 bytes at the front: the headers of the region and of the excess overlap
    · by_contra hsmall
      simp only [LARGE_NODE_LEN] at hsmall
      obtain rfl : size = 8 := by omega
      rw [hfront] at hsame hexcess
      obtain ⟨-, -, hcross⟩ := List.pairwise_append.mp hapart
      exact not_same_of_eight (hlist.sizes r (by simp)) hrstop
        (fun q hq => hcross q hq r List.mem_cons_self)
        (fun q hq => hlens q (List.mem_append_left _ hq)) hexcess hsame
  · intro hclean
    rw [← leftovers_eq_of_clean hlo hhi hclean]
    refine hread fun hexcess => ?_
    have hbig := hclean.2 hexcess
    simp only [LARGE_NODE_LEN] at hbig ⊢
    omega

/-- The list of the kernel's heap after `init`: one region. -/
private theorem kernelHeap_list : LargeList kernelHeap.heap.mem kernelHeap.heap.largeHead
    [⟨0x2FF800, 1050624⟩] := by
  obtain ⟨regions, -, htiling⟩ := boot_tiling 8 (fun _ => 0) 0x200000 (2 * 1024 * 1024) (by decide)
    (by decide) (by decide) (by decide)
  have hregions : kernelHeap.heap.largeRegions = [⟨0x2FF800, 1050624⟩] := by decide +kernel
  have hlarge := htiling.large
  rw [← htiling.largeRegions_eq] at hlarge
  exact hregions ▸ hlarge

/-- The size of the leftover is stored over the link of the region, and the link that is then taken
    is that size. -/
theorem eight_bytes_break_list : ¬∀ (h h' : BucketAllocator) (regions : List Extent)
    (size k p : Nat), LargeList h.mem h.largeHead regions → regions.Pairwise Extent.Apart →
    (∀ r ∈ regions, 8 ∣ r.start ∧ LARGE_NODE_LEN ≤ r.len ∧ r.stop < 2 ^ 64) → 8 ∣ size → 8 ≤ size →
    3 ≤ k → k ≤ 63 → h.allocLarge size (2 ^ k) = (some p, h') →
    h'.largeRegions = splitFirst size (2 ^ k) regions := by
  intro hclaim
  have hptr : (kernelHeap.heap.allocLarge 8 (2 ^ 4)).1 = some 0x2FF800 := by decide +kernel
  have hlist := hclaim kernelHeap.heap (kernelHeap.heap.allocLarge 8 (2 ^ 4)).2
    [⟨0x2FF800, 1050624⟩] 8 4 0x2FF800 kernelHeap_list (List.pairwise_singleton _ _)
    (by decide +kernel) (by decide) (by decide) (by decide) (by decide) (Prod.ext hptr rfl)
  revert hlist
  decide +kernel

theorem page_split_read_back : (kernelHeap.heap.allocLarge 4096 (2 ^ 12)).2.largeRegions =
    splitFirst 4096 (2 ^ 12) [⟨0x2FF800, 1050624⟩] := by
  have hptr : (kernelHeap.heap.allocLarge 4096 (2 ^ 12)).1 = some 0x300000 := by decide +kernel
  have hserved : kernelHeap.heap.allocLarge 4096 (2 ^ 12) =
      (some 0x300000, (kernelHeap.heap.allocLarge 4096 (2 ^ 12)).2) := by
    rw [← hptr]
  refine (allocLarge_chain_iff _ _ [⟨0x2FF800, 1050624⟩] 4096 12 0x300000 kernelHeap_list
    (List.pairwise_singleton _ _) (by decide +kernel) (by decide) (by decide) (by decide)
    (by decide) hserved).mpr ?_
  intro r hr
  have hfind : [(⟨0x2FF800, 1050624⟩ : Extent)].find? (fun q => Fits 4096 (2 ^ 12) q) =
      some ⟨0x2FF800, 1050624⟩ := by decide +kernel
  obtain rfl := Option.some.inj (hfind.symm.trans hr)
  exact ⟨by decide, by decide⟩

end Chain

end RustKernel.Memory
