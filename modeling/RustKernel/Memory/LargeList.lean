import RustKernel.Lib.Regions
import RustKernel.Memory.FreeList

/-!
# RustKernel.Memory.LargeList

The large free list in memory under a split of one of its regions and under an insertion.

Every store of the two operations goes into a header: of a region of the list, of the leftover, or
of the freed block. Nothing is asked of the other bytes of the regions, so the results
(`LargeList.carve`, `LargeList.insertAt`) need no more than that these headers share no address.

## Proof strategy

Each operation is a sequence of four edits, with a lemma for each: a store into a header that is
not in the list (`LargeList.frame_header`), a change of size (`LargeList.resize`), the end of the
list put behind a node, which is what `next.take()` does (`LargeList.truncate`), and the link of a
prefix to a new rest (`LargeList.splice`).
-/

namespace RustKernel.Memory

open Lib BucketAllocator

/-! ### Frames -/

section Frames

variable (h : BucketAllocator) (node v : Nat) (cursor : Cursor)

/-- Storing into a node touches nothing but the memory. -/
@[simp] theorem setSize_frame : (h.setSize node v).buckets = h.buckets ∧
    (h.setSize node v).heapStart = h.heapStart ∧ (h.setSize node v).heapEnd = h.heapEnd ∧
    (h.setSize node v).largeHead = h.largeHead ∧
    (h.setSize node v).mem = write64 h.mem node v := ⟨rfl, rfl, rfl, rfl, rfl⟩

@[simp] theorem setNext_frame : (h.setNext node v).buckets = h.buckets ∧
    (h.setNext node v).heapStart = h.heapStart ∧ (h.setNext node v).heapEnd = h.heapEnd ∧
    (h.setNext node v).largeHead = h.largeHead ∧
    (h.setNext node v).mem = write64 h.mem (node + 8) v := ⟨rfl, rfl, rfl, rfl, rfl⟩

@[simp] theorem takeNext_frame : (h.takeNext node).1 = read64 h.mem (node + 8) ∧
    (h.takeNext node).2 = h.setNext node 0 := ⟨rfl, rfl⟩

@[simp] theorem writeCursor_frame : (h.writeCursor cursor v).buckets = h.buckets ∧
    (h.writeCursor cursor v).heapStart = h.heapStart ∧
    (h.writeCursor cursor v).heapEnd = h.heapEnd := by
  cases cursor <;> exact ⟨rfl, rfl, rfl⟩

end Frames

/-! ### Headers -/

section Headers

variable {r q : Extent} {regions regions' pre post : List Extent}

/-- Only the addresses of the nodes matter. -/
theorem HeadersApart.congr (h : HeadersApart regions)
    (hstarts : regions'.map Extent.start = regions.map Extent.start) : HeadersApart regions' := by
  have hmap : ∀ es : List Extent, HeadersApart es ↔ (es.map Extent.start).Pairwise
      fun a b => Extent.Apart ⟨a, LARGE_NODE_LEN⟩ ⟨b, LARGE_NODE_LEN⟩ := by
    intro es
    rw [List.pairwise_map]
    rfl
  rw [hmap, hstarts, ← hmap]
  exact h

theorem HeadersApart.sublist (h : HeadersApart regions) (hsub : regions'.Sublist regions) :
    HeadersApart regions' :=
  List.Pairwise.sublist hsub h

/-- The header of one region is apart from those before it and those behind it. -/
theorem HeadersApart.middle (h : HeadersApart (pre ++ r :: post)) :
    ∀ q ∈ pre ++ post, (header q).Apart (header r) := by
  obtain ⟨-, hrest, hcross⟩ := List.pairwise_append.mp h
  obtain ⟨hhead, -⟩ := List.pairwise_cons.mp hrest
  intro q hq
  rcases List.mem_append.mp hq with hq | hq
  · exact hcross q hq r List.mem_cons_self
  · exact (hhead q hq).symm

/-- A node goes between two parts of a list with whose headers its own shares nothing. -/
theorem HeadersApart.insert (h : HeadersApart (pre ++ post))
    (hr : ∀ q ∈ pre ++ post, (header q).Apart (header r)) : HeadersApart (pre ++ r :: post) := by
  obtain ⟨hpre, hpost, hcross⟩ := List.pairwise_append.mp h
  refine List.pairwise_append.mpr ⟨hpre, List.pairwise_cons.mpr ⟨?_, hpost⟩, ?_⟩
  · exact fun q hq => (hr q (List.mem_append_right pre hq)).symm
  · intro p hp
    exact List.forall_mem_cons.mpr ⟨hr p (List.mem_append_left post hp), hcross p hp⟩

end Headers

/-! ### Edits -/

namespace LargeList

variable {h : BucketAllocator} {mem : ByteStore} {head addr v ptr : Nat} {r q e p c : Extent}
  {pre post regions old new : List Extent}

/-- A store into the header of another node keeps a list. -/
theorem frame_header (hlist : LargeList mem head regions)
    (hapart : ∀ r ∈ regions, (header r).Apart (header q)) (hlo : q.start ≤ addr)
    (hhi : addr ≤ q.start + 8) : LargeList (write64 mem addr v) head regions := by
  refine hlist.frame (write64_agree mem addr v) fun r hr => ?_
  have hside := hapart r hr
  simp only [Extent.Apart, header, Extent.stop, LARGE_NODE_LEN] at hside ⊢
  omega

theorem rest (hlist : LargeList mem head (pre ++ r :: post)) :
    LargeList mem (read64 mem (r.start + 8)) post := by
  obtain ⟨-, -, -, hrest⟩ := cons_iff.mp hlist.suffix
  exact hrest

/-- A node gets another size. -/
theorem resize (hlist : LargeList mem head (pre ++ r :: post))
    (hapart : HeadersApart (pre ++ r :: post)) (hv : v < 2 ^ 64) :
    LargeList (write64 mem r.start v) head (pre ++ ⟨r.start, v⟩ :: post) := by
  obtain ⟨-, hne, -, hrest⟩ := cons_iff.mp hlist.suffix
  have hother := hapart.middle
  refine hlist.replace (write64_agree mem r.start v) (fun q hq => ?_) (cons_iff.mpr ⟨rfl, hne, ?_, ?_⟩)
  · have hside := hother q (List.mem_append_left post hq)
    simp only [Extent.Apart, header, Extent.stop, LARGE_NODE_LEN] at hside ⊢
    omega
  · exact read64_write64 _ _ _ hv
  · dsimp only
    rw [read64_write64_ne _ _ _ _ (by omega)]
    exact hrest.frame_header (q := r) (fun q hq => hother q (List.mem_append_right pre hq)) le_rfl
      (by omega)

/-- `next.take()` of a node ends the list behind it. -/
theorem truncate (hlist : LargeList h.mem h.largeHead (pre ++ r :: post))
    (hapart : HeadersApart (pre ++ r :: post)) :
    LargeList (h.setNext r.start 0).mem (h.setNext r.start 0).largeHead (pre ++ [r]) := by
  have hlist' : LargeList h.mem h.largeHead ((pre ++ [r]) ++ post) := by
    rwa [List.append_assoc]
  have hsub : ((pre ++ [r]) ++ []).Sublist (pre ++ r :: post) := by
    rw [List.append_nil]
    exact (List.Sublist.refl pre).append (List.singleton_sublist.mpr List.mem_cons_self)
  have hcut := hlist'.splice (.nil h.mem) (hapart.sublist hsub) (Nat.two_pow_pos 64)
  rw [cursorAfter_concat, List.append_nil] at hcut
  exact hcut

/-! ### The split -/

/-- What is left behind an allocation becomes the node that the prefix links to. -/
private theorem linkLeft (hlist : LargeList h.mem h.largeHead (pre ++ old))
    (hsize : read64 h.mem e.start = e.len) (hne : e.start ≠ 0) (hrest : LargeList h.mem ptr post)
    (hptr : ptr < 2 ^ 64) (hstart : e.start < 2 ^ 64) (hapart : HeadersApart (pre ++ e :: post))
    (hold : ∀ q ∈ pre ++ old, (header q).Apart (header e)) :
    LargeList ((h.setNext e.start ptr).writeCursor (cursorAfter pre) e.start).mem
      ((h.setNext e.start ptr).writeCursor (cursorAfter pre) e.start).largeHead
      (pre ++ e :: post) := by
  have hother := hapart.middle
  have hnew : LargeList (h.setNext e.start ptr).mem e.start (e :: post) := by
    refine cons_iff.mpr ⟨rfl, hne, ?_, ?_⟩
    · rw [setNext, read64_write64_ne _ _ _ _ (by omega), hsize]
    · rw [setNext, read64_write64 _ _ _ hptr]
      exact hrest.frame_header (q := e) (fun q hq => hother q (List.mem_append_right pre hq))
        (by omega) le_rfl
  have hkept : LargeList (h.setNext e.start ptr).mem (h.setNext e.start ptr).largeHead
      (pre ++ old) := hlist.frame_header (q := e) hold (by omega) le_rfl
  exact hkept.splice hnew hapart hstart

end LargeList

/-- What a split leaves in the list: nothing, the leftover, or a prefix and the leftover. -/
def leftovers (r : Extent) (allocStart size : Nat) : List Extent :=
  let left : Extent := ⟨allocStart + size, r.stop - (allocStart + size)⟩
  if left.len < LARGE_NODE_LEN then []
  else if allocStart = r.start then [left]
  else [⟨r.start, allocStart - r.start⟩, left]

namespace LargeList

variable {h : BucketAllocator} {p size : Nat} {r : Extent} {pre post : List Extent}

/-- A split replaces the region by its leftovers, if the header of what is left behind the
    allocation shares no address with the headers that are there. -/
theorem carve (hlist : LargeList h.mem h.largeHead (pre ++ r :: post))
    (hapart : HeadersApart (pre ++ r :: post)) (hstop : r.stop < 2 ^ 64)
    (hlo : r.start ≤ p) (hhi : p + size ≤ r.stop) (hleft : p + size + LARGE_NODE_LEN ≤ r.stop →
      ∀ q ∈ pre ++ r :: post, (header q).Apart ⟨p + size, LARGE_NODE_LEN⟩) :
    LargeList (h.carve (cursorAfter pre) r.start p size).mem
      (h.carve (cursorAfter pre) r.start p size).largeHead
      (pre ++ (leftovers r p size ++ post)) := by
  obtain ⟨-, hne, hsize, -⟩ := cons_iff.mp hlist.suffix
  rw [BucketAllocator.carve, endAddr_eq hsize hstop, leftovers]
  dsimp only
  -- the byte counter plays no part in the list
  generalize hused : ({ h with used := (h.used + size) % 2 ^ 64 } : BucketAllocator) = g
  have hlist : LargeList g.mem g.largeHead (pre ++ r :: post) := hused ▸ hlist
  have hrest := hlist.rest
  have hnext := read64_lt g.mem (r.start + 8)
  have hother := hapart.middle
  by_cases hexcess : r.stop - (p + size) < LARGE_NODE_LEN
  · -- too little is left for a header: the region goes as a whole
    rw [if_neg (by omega), if_pos hexcess]
    simp only [takeNext_frame]
    have hrest' : LargeList (g.setNext r.start 0).mem (read64 g.mem (r.start + 8)) post :=
      hrest.frame_header (q := r) (fun q hq => hother q (List.mem_append_right pre hq)) (by omega)
        le_rfl
    exact (hlist.truncate hapart).splice hrest'
      (hapart.sublist (List.Sublist.append_left (List.sublist_cons_self r post) pre)) hnext
  rw [if_pos (by omega), if_neg hexcess]
  have hroom : p + size + LARGE_NODE_LEN ≤ r.stop := by omega
  generalize hleftEq : (⟨p + size, r.stop - (p + size)⟩ : Extent) = left
  have hstart : left.start = p + size := by rw [← hleftEq]
  have hlen : left.len = r.stop - left.start := by rw [← hleftEq]
  rw [← hstart] at hleft ⊢
  rw [← hlen]
  have hfree : ∀ q ∈ pre ++ r :: post, (header q).Apart (header left) := hleft (by omega)
  obtain ⟨hpreFree, hrestFree⟩ := List.forall_mem_append.mp hfree
  obtain ⟨hrFree, hpostFree⟩ := List.forall_mem_cons.mp hrestFree
  have hlt : left.start < 2 ^ 64 := by omega
  have hsizeLt : left.len < 2 ^ 64 := by omega
  -- the size of what is left is stored first, into a header that is in no list
  have hsized := hlist.frame_header (v := left.len) hfree (le_refl left.start) (by omega)
  have hleftSize := read64_write64 g.mem left.start left.len hsizeLt
  have hrestSized : LargeList (write64 g.mem left.start left.len) (read64 (write64 g.mem left.start
      left.len) (r.start + 8)) post := hsized.rest
  by_cases hfront : p = r.start
  · -- the leftover takes the place of the region
    rw [if_pos hfront, if_pos hfront]
    simp only [takeNext_frame]
    generalize hg : g.setSize left.start left.len = g₁
    have hmem : g₁.mem = write64 g.mem left.start left.len := by rw [← hg]; rfl
    rw [← hmem] at hrestSized hleftSize
    have hlist₁ : LargeList g₁.mem g₁.largeHead (pre ++ r :: post) := by
      rw [← hg]
      exact hsized
    have hapartNew : HeadersApart (pre ++ left :: post) := by
      refine (hapart.sublist (List.Sublist.append_left (List.sublist_cons_self r post) pre)).insert ?_
      exact List.forall_mem_append.mpr ⟨hpreFree, hpostFree⟩
    refine (hlist₁.truncate hapart).linkLeft ?_ (by omega) ?_ (read64_lt _ _) hlt hapartNew ?_
    · rw [setNext, read64_write64_ne _ _ _ _ (by
        simp only [Extent.Apart, header, Extent.stop, LARGE_NODE_LEN] at hrFree
        omega), hleftSize]
    · exact hrestSized.frame_header (q := r) (fun q hq => hother q (List.mem_append_right pre hq))
        (by omega) le_rfl
    · exact List.forall_mem_append.mpr ⟨hpreFree, by simpa using hrFree⟩
  · -- the region shrinks to what is in front of the allocation, and the leftover follows it
    rw [if_neg hfront, if_neg hfront]
    simp only [takeNext_frame]
    generalize hg : (g.setSize left.start left.len).setSize r.start (p - r.start) = g₁
    have hmem : g₁.mem = write64 (write64 g.mem left.start left.len) r.start (p - r.start) := by
      rw [← hg]
      rfl
    have hlist₁ : LargeList g₁.mem g₁.largeHead (pre ++ ⟨r.start, p - r.start⟩ :: post) := by
      rw [← hg]
      exact hsized.resize hapart (by omega)
    have hapart₁ : HeadersApart (pre ++ ⟨r.start, p - r.start⟩ :: post) := hapart.congr (by simp)
    have hapartNew : HeadersApart ((pre ++ [⟨r.start, p - r.start⟩]) ++ left :: post) := by
      refine HeadersApart.insert (hapart.congr (by simp)) ?_
      simp only [List.forall_mem_append, List.forall_mem_singleton]
      exact ⟨⟨hpreFree, hrFree⟩, hpostFree⟩
    have hcut : LargeList (g₁.setNext r.start 0).mem (g₁.setNext r.start 0).largeHead
        ((pre ++ [⟨r.start, p - r.start⟩]) ++ []) := by
      rw [List.append_nil]
      exact hlist₁.truncate hapart₁
    have hrest₁ : LargeList (write64 g₁.mem (r.start + 8) 0) (read64 g₁.mem (r.start + 8)) post :=
      hlist₁.rest.frame_header (q := r) (fun q hq => hother q (List.mem_append_right pre hq))
        (Nat.le_add_right _ _) le_rfl
    have hlinked := hcut.linkLeft (e := left) ?_ (by omega) hrest₁ (read64_lt _ _) hlt hapartNew ?_
    · rw [cursorAfter_concat, List.append_assoc] at hlinked
      exact hlinked
    · rw [setNext, read64_write64_ne, hmem, read64_write64_ne, hleftSize] <;>
      · simp only [Extent.Apart, header, Extent.stop, LARGE_NODE_LEN] at hrFree ⊢
        omega
    · simp only [List.append_nil, List.forall_mem_append, List.forall_mem_singleton]
      exact ⟨hpreFree, hrFree⟩

/-! ### The insertion -/

section Insert

variable {e c : Extent}

/-- The pointer to the first node of a list of addressable regions is a word. -/
private theorem headOf_lt_word (hstops : ∀ q ∈ post, q.stop < 2 ^ 64) :
    headOf (post.map Extent.start) < 2 ^ 64 := by
  cases post with
  | nil => exact Nat.two_pow_pos 64
  | cons c post =>
    have hc := hstops c List.mem_cons_self
    simp only [Extent.stop, List.map_cons, headOf] at hc ⊢
    omega

/-- A block whose size has been stored becomes a node of its own. -/
private theorem insertAlone (hlist : LargeList h.mem h.largeHead (pre ++ post))
    (hsize : read64 h.mem e.start = e.len) (hne : e.start ≠ 0) (hstop : e.stop < 2 ^ 64)
    (hapart : HeadersApart (pre ++ e :: post)) (hstops : ∀ q ∈ post, q.stop < 2 ^ 64) :
    LargeList ((h.setNext e.start (headOf (post.map Extent.start))).writeCursor
        (cursorAfter pre) e.start).mem
      ((h.setNext e.start (headOf (post.map Extent.start))).writeCursor
        (cursorAfter pre) e.start).largeHead (pre ++ e :: post) :=
  hlist.linkLeft hsize hne hlist.suffix (headOf_lt_word hstops)
    (by simp only [Extent.stop] at hstop; omega) hapart hapart.middle

/-- Or it takes over the node behind it. -/
private theorem insertMerged (hlist : LargeList h.mem h.largeHead (pre ++ c :: post))
    (hne : e.start ≠ 0)
    (hadj : e.stop = c.start) (hstop : c.stop < 2 ^ 64)
    (hapart : HeadersApart (pre ++ e :: c :: post)) :
    let taken := h.takeNext c.start
    let merged := ((taken.2.setSize e.start (e.len + read64 taken.2.mem c.start)).setNext e.start
      taken.1).writeCursor (cursorAfter pre) e.start
    LargeList merged.mem merged.largeHead (pre ++ ⟨e.start, e.len + c.len⟩ :: post) := by
  intro taken merged
  have hapartC : HeadersApart (pre ++ c :: post) :=
    hapart.sublist (List.Sublist.append_left (List.sublist_cons_self e _) pre)
  have hapartE : HeadersApart (pre ++ e :: post) :=
    hapart.sublist (List.Sublist.append_left ((List.sublist_cons_self c post).cons_cons e) pre)
  have hcsize := hlist.sizes c (by simp)
  have hother := hapart.middle
  obtain ⟨hpreE, hrestE⟩ := List.forall_mem_append.mp hother
  obtain ⟨hcE, hpostE⟩ := List.forall_mem_cons.mp hrestE
  -- the list ends behind the node that is taken over
  have hcut := hlist.truncate hapartC
  have hcsize' : read64 (h.setNext c.start 0).mem c.start = c.len := by
    rw [setNext, read64_write64_ne _ _ _ _ (by omega), hcsize]
  have hsized := hcut.frame_header (q := e) (v := e.len + c.len)
    (List.forall_mem_append.mpr ⟨hpreE, by simpa using hcE⟩) (le_refl e.start) (by omega)
  have hrest := hlist.rest.frame_header (q := c) (v := 0)
    (fun q hq => hapartC.middle q (List.mem_append_right pre hq))
    (Nat.le_add_right c.start 8) le_rfl
  have hmerged : merged = (((h.setNext c.start 0).setSize e.start (e.len + c.len)).setNext e.start
      (read64 h.mem (c.start + 8))).writeCursor (cursorAfter pre) e.start := by
    simp only [merged, taken, takeNext_frame, hcsize']
  simp only [Extent.stop] at hadj hstop
  rw [hmerged]
  refine hsized.linkLeft (e := ⟨e.start, e.len + c.len⟩) ?_ hne ?_ (read64_lt _ _)
    (by dsimp only; omega) (hapartE.congr (by simp)) ?_
  · exact read64_write64 _ _ _ (by omega)
  · exact hrest.frame_header (q := e) hpostE le_rfl (by omega)
  · exact List.forall_mem_append.mpr ⟨hpreE, List.forall_mem_singleton.mpr hcE⟩

theorem insertBefore (hlist : LargeList h.mem h.largeHead (pre ++ post))
    (hsize : read64 h.mem e.start = e.len) (hne : e.start ≠ 0) (hstop : e.stop < 2 ^ 64)
    (hapart : HeadersApart (pre ++ e :: post)) (hstops : ∀ q ∈ post, q.stop < 2 ^ 64) :
    LargeList (h.insertBefore e.start e.len (cursorAfter pre) (headOf (post.map Extent.start))).mem
      (h.insertBefore e.start e.len (cursorAfter pre) (headOf (post.map Extent.start))).largeHead
      (pre ++ absorb e post) := by
  cases post with
  | nil =>
    rw [BucketAllocator.insertBefore, if_neg (fun htouch => htouch.1 rfl)]
    exact hlist.insertAlone hsize hne hstop hapart hstops
  | cons c post =>
    obtain ⟨-, hcne, -⟩ := LargeList.cons_iff.mp hlist.suffix
    rw [BucketAllocator.insertBefore, absorb]
    by_cases hadj : e.stop = c.start
    · rw [if_pos hadj, if_pos ⟨hcne, hadj⟩]
      exact hlist.insertMerged hne hadj (hstops c List.mem_cons_self) hapart
    · rw [if_neg hadj, if_neg fun htouch => hadj htouch.2]
      exact hlist.insertAlone hsize hne hstop hapart hstops

/-- The node before the block grows over it, and over the node behind it if they touch now. -/
theorem mergePrev {p : Extent} {size : Nat}
    (hlist : LargeList h.mem h.largeHead (pre ++ p :: post))
    (hapart : HeadersApart (pre ++ p :: post)) (hgrown : p.stop + size < 2 ^ 64)
    (hstops : ∀ q ∈ post, q.stop < 2 ^ 64) :
    LargeList (h.mergePrev p.start size (headOf (post.map Extent.start))).mem
      (h.mergePrev p.start size (headOf (post.map Extent.start))).largeHead
      (pre ++ absorb ⟨p.start, p.len + size⟩ post) := by
  have hpsize := hlist.sizes p (by simp)
  simp only [Extent.stop] at hgrown
  generalize hg : (⟨p.start, p.len + size⟩ : Extent) = g
  have hstart : g.start = p.start := by rw [← hg]
  have hlen : g.len = p.len + size := by rw [← hg]
  have hsized : LargeList (h.setSize p.start g.len).mem (h.setSize p.start g.len).largeHead
      (pre ++ g :: post) := by
    rw [← hg]
    exact hlist.resize hapart (by dsimp only; omega)
  have hapartG : HeadersApart (pre ++ g :: post) := hapart.congr (by simp [hstart])
  have hend : (h.setSize p.start g.len).endAddr g.start = g.stop := by
    refine endAddr_eq (hsized.sizes g (by simp)) ?_
    simp only [Extent.stop]
    omega
  rw [BucketAllocator.mergePrev, hpsize, ← hlen, ← hstart]
  rw [← hstart] at hsized hend
  dsimp only
  rw [hend]
  cases post with
  | nil =>
    rw [if_neg (fun htouch => htouch.1 rfl)]
    exact hsized
  | cons c post =>
    obtain ⟨-, hcne, -⟩ := cons_iff.mp hlist.rest
    rw [absorb]
    by_cases htouch : g.stop = c.start
    · rw [if_pos ⟨hcne, htouch⟩, if_pos htouch]
      have hcstop := hstops c List.mem_cons_self
      simp only [Extent.stop] at htouch hcstop
      have hboth : read64 (h.setSize g.start g.len).mem g.start +
          read64 (h.setSize g.start g.len).mem c.start = g.len + c.len := by
        rw [hsized.sizes g (by simp), hsized.sizes c (by simp)]
      simp only [List.map_cons, headOf]
      rw [hboth]
      simp only [takeNext_frame]
      -- the second change of size, then the link around the node behind
      have hwide := hsized.resize hapartG (v := g.len + c.len) (by omega)
      have hapartW : HeadersApart ((pre ++ [⟨g.start, g.len + c.len⟩]) ++ c :: post) :=
        hapartG.congr (by simp)
      have hwide' : LargeList ((h.setSize g.start g.len).setSize g.start (g.len + c.len)).mem
          ((h.setSize g.start g.len).setSize g.start (g.len + c.len)).largeHead
          ((pre ++ [⟨g.start, g.len + c.len⟩]) ++ c :: post) := by
        rw [List.append_assoc]
        exact hwide
      have hrest := hwide'.rest.frame_header (q := c) (v := 0)
        (fun q hq => hapartW.middle q (List.mem_append_right _ hq)) (Nat.le_add_right c.start 8)
        le_rfl
      have hlinked := (hwide'.truncate hapartW).splice hrest
        (hapartW.sublist (List.Sublist.append_left (List.sublist_cons_self c post) _))
        (read64_lt _ _)
      rw [cursorAfter_concat, List.append_assoc] at hlinked
      exact hlinked
    · rw [if_neg fun hmerge => htouch hmerge.2, if_neg htouch]
      exact hsized

/-- Between the two nodes that enclose it, a freed block finds its place. -/
theorem insertAt (hlist : LargeList h.mem h.largeHead (pre ++ post))
    (hsize : read64 h.mem e.start = e.len) (hne : e.start ≠ 0) (hstop : e.stop < 2 ^ 64)
    (hapart : HeadersApart (pre ++ e :: post)) (hstops : ∀ q ∈ pre ++ post, q.stop < 2 ^ 64) :
    LargeList (h.insertAt e.start e.len (cursorAfter pre) (headOf (post.map Extent.start))).mem
      (h.insertAt e.start e.len (cursorAfter pre) (headOf (post.map Extent.start))).largeHead
      (coalesce pre e post) := by
  obtain ⟨hpreStops, hpostStops⟩ := List.forall_mem_append.mp hstops
  have hbefore := hlist.insertBefore hsize hne hstop hapart hpostStops
  rcases List.eq_nil_or_concat' pre with rfl | ⟨front, p, rfl⟩
  · exact hbefore
  · have hlist' : LargeList h.mem h.largeHead (front ++ p :: post) := by
      rwa [List.append_assoc] at hlist
    have hpsize := hlist'.sizes p (by simp)
    have hpstop := hpreStops p (by simp)
    have hapartP : HeadersApart (front ++ p :: post) := by
      refine hapart.sublist ?_
      rw [List.append_assoc]
      exact List.Sublist.append_left ((List.sublist_cons_self e post).cons_cons p) front
    rw [cursorAfter_concat] at hbefore ⊢
    rw [BucketAllocator.insertAt, coalesce, List.getLast?_concat, endAddr_eq hpsize hpstop]
    dsimp only
    by_cases hadj : p.stop = e.start
    · rw [if_pos hadj, if_pos hadj, List.dropLast_concat]
      exact hlist'.mergePrev hapartP (by simp only [Extent.stop] at hadj hstop ⊢; omega) hpostStops
    · rw [if_neg hadj, if_neg hadj]
      exact hbefore

end Insert

end LargeList

/-! ### Where the stores go -/

/-- Every byte that differs lies in one of the extents. -/
def StoresIn (es : List Extent) (mem mem' : ByteStore) : Prop :=
  ∀ b, (∀ e ∈ es, b < e.start ∨ e.stop ≤ b) → mem' b = mem b

section Stores

variable {es : List Extent} {mem mem' : ByteStore} {h : BucketAllocator} {g : BucketAllocator}
  {e r p : Extent} {pre post : List Extent} {node v size : Nat}

theorem StoresIn.refl (es : List Extent) (mem : ByteStore) : StoresIn es mem mem := fun _ _ => rfl

theorem StoresIn.write64 (hs : StoresIn es mem mem') (he : e ∈ es) {addr : Nat}
    (hlo : e.start ≤ addr) (hhi : addr + 8 ≤ e.stop) :
    StoresIn es mem (write64 mem' addr v) := by
  intro b hb
  have hside := hb e he
  rw [Lib.write64, if_neg (by omega)]
  exact hs b hb

theorem StoresIn.setSize (hs : StoresIn es mem g.mem) (he : e ∈ es)
    (hlen : LARGE_NODE_LEN ≤ e.len) : StoresIn es mem (g.setSize e.start v).mem :=
  StoresIn.write64 hs he le_rfl (by simp only [LARGE_NODE_LEN, Extent.stop] at hlen ⊢; omega)

theorem StoresIn.setNext (hs : StoresIn es mem g.mem) (he : e ∈ es)
    (hlen : LARGE_NODE_LEN ≤ e.len) : StoresIn es mem (g.setNext e.start v).mem :=
  StoresIn.write64 hs he (Nat.le_add_right _ _)
    (by simp only [LARGE_NODE_LEN, Extent.stop] at hlen ⊢; omega)

theorem StoresIn.writeCursor (hs : StoresIn es mem g.mem) (hpre : ∀ p ∈ pre, p ∈ es)
    (hlen : ∀ p ∈ pre, LARGE_NODE_LEN ≤ p.len) :
    StoresIn es mem (g.writeCursor (cursorAfter pre) v).mem := by
  rcases List.eq_nil_or_concat' pre with rfl | ⟨front, last, rfl⟩
  · exact hs
  · rw [cursorAfter_concat]
    exact hs.setNext (hpre last (by simp)) (hlen last (by simp))

/-- What does not overlap the extents is read as before. -/
theorem StoresIn.read64 (hs : StoresIn es mem mem') {addr : Nat}
    (hapart : ∀ e ∈ es, addr + 8 ≤ e.start ∨ e.stop ≤ addr) :
    read64 mem' addr = read64 mem addr := by
  rw [Lib.read64, Lib.read64]
  congr 1
  apply List.map_congr_left
  intro i hi
  have hlt := List.mem_range.mp hi
  refine hs _ fun e he => ?_
  have hside := hapart e he
  omega

/-- Stores outside of its blocks keep the free list of a bucket. -/
theorem StoresIn.linked (hs : StoresIn es mem mem') {slot : Slot} (hlinked : slot.Linked mem)
    (hapart : ∀ f ∈ slot.extents, ∀ e ∈ es, f.Apart e) : slot.Linked mem' := by
  refine Chain.congr hlinked fun a ha => hs.read64 fun e he => ?_
  have hside := hapart ⟨a, max slot.bucket.blockSize 8⟩ (List.mem_map_of_mem ha) e he
  simp only [Extent.Apart, Extent.stop] at hside ⊢
  omega

/-- A split stores into the region and into the node before it. -/
theorem carve_storesIn (hr : LARGE_NODE_LEN ≤ r.len) (hpre : ∀ p ∈ pre, LARGE_NODE_LEN ≤ p.len)
    (hend : h.endAddr r.start = r.stop) {ptr : Nat} (hlo : r.start ≤ ptr) :
    StoresIn (r :: pre) h.mem (h.carve (cursorAfter pre) r.start ptr size).mem := by
  have hmem : ∀ p ∈ pre, p ∈ r :: pre := fun p hp => List.mem_cons_of_mem r hp
  have hself : r ∈ r :: pre := List.mem_cons_self
  rw [BucketAllocator.carve, hend]
  dsimp only
  by_cases hexcess : r.stop - (ptr + size) ≥ LARGE_NODE_LEN
  · -- the header of what is left lies in the region
    rw [if_pos hexcess]
    simp only [LARGE_NODE_LEN] at hexcess
    have hsize : StoresIn (r :: pre) h.mem
        (write64 h.mem (ptr + size) (r.stop - (ptr + size))) :=
      (StoresIn.refl _ _).write64 hself (by omega) (by omega)
    split
    · refine StoresIn.writeCursor ?_ hmem hpre
      exact StoresIn.write64 (StoresIn.setNext hsize hself hr) hself (by omega) (by omega)
    · refine StoresIn.setNext ?_ hself hr
      exact StoresIn.write64 (StoresIn.setNext (StoresIn.setSize hsize hself hr) hself hr) hself
        (by omega) (by omega)
  · rw [if_neg hexcess]
    exact StoresIn.writeCursor (StoresIn.setNext (StoresIn.refl _ _) hself hr) hmem hpre

private theorem insertBefore_storesIn (he : LARGE_NODE_LEN ≤ e.len)
    (hlen : ∀ q ∈ pre ++ post, LARGE_NODE_LEN ≤ q.len) :
    StoresIn (e :: (pre ++ post)) h.mem
      (h.insertBefore e.start size (cursorAfter pre) (headOf (post.map Extent.start))).mem := by
  have hself : e ∈ e :: (pre ++ post) := List.mem_cons_self
  have hmem : ∀ q ∈ pre ++ post, q ∈ e :: (pre ++ post) := fun q hq => List.mem_cons_of_mem e hq
  obtain ⟨hpreMem, hpostMem⟩ := List.forall_mem_append.mp hmem
  obtain ⟨hpre, hpost⟩ := List.forall_mem_append.mp hlen
  rw [BucketAllocator.insertBefore]
  split
  case isTrue htouch =>
    cases post with
    | nil => exact absurd rfl htouch.1
    | cons c post =>
      have hc := hpost c List.mem_cons_self
      have hcMem := hpostMem c List.mem_cons_self
      have hcut := (StoresIn.refl _ h.mem).setNext (v := 0) hcMem hc
      exact ((hcut.setSize hself he).setNext hself he).writeCursor hpreMem hpre
  case isFalse => exact ((StoresIn.refl _ _).setNext hself he).writeCursor hpreMem hpre

/-- An insertion stores into the block and into the nodes around it. -/
theorem insertAt_storesIn (he : LARGE_NODE_LEN ≤ e.len)
    (hlen : ∀ q ∈ pre ++ post, LARGE_NODE_LEN ≤ q.len) :
    StoresIn (e :: (pre ++ post)) h.mem
      (h.insertAt e.start size (cursorAfter pre) (headOf (post.map Extent.start))).mem := by
  have hbefore : StoresIn (e :: (pre ++ post)) h.mem
      (h.insertBefore e.start size (cursorAfter pre) (headOf (post.map Extent.start))).mem :=
    insertBefore_storesIn he hlen
  rcases List.eq_nil_or_concat' pre with rfl | ⟨front, p, rfl⟩
  · exact hbefore
  rw [cursorAfter_concat] at hbefore ⊢
  rw [BucketAllocator.insertAt]
  split
  case isFalse => exact hbefore
  case isTrue =>
    have hp := hlen p (by simp)
    have hpMem : p ∈ e :: (front ++ [p] ++ post) := by simp
    rw [BucketAllocator.mergePrev]
    dsimp only
    split
    case isFalse => exact (StoresIn.refl _ _).setSize hpMem hp
    case isTrue htouch =>
      cases post with
      | nil => exact absurd rfl htouch.1
      | cons c post =>
        have hc : c ∈ e :: (front ++ [p] ++ c :: post) := by simp
        have hcLen := hlen c (by simp)
        refine StoresIn.setNext (StoresIn.setNext ?_ hc hcLen) hpMem hp
        exact StoresIn.setSize (StoresIn.setSize (StoresIn.refl _ _) hpMem hp) hpMem hp

end Stores

end RustKernel.Memory
