import RustKernel.Lib.Chain
import RustKernel.Lib.Extent
import RustKernel.Memory.BucketAllocator

/-!
# RustKernel.Memory.FreeList

The two kinds of free lists in memory, and what the walks over the large list find.

`LargeList mem head regions` says that the list from `head` consists of the regions
given, headers included. Changing it through its cursor is `LargeList.splice`; the
loops of `alloc_large` and `dealloc_large` stop where `allocLargeFrom_spec` and
`deallocLargeFrom_spec` say.
-/

namespace RustKernel.Memory

open Lib BucketAllocator

/-! ### Alignment -/

private theorem and_two_pow_sub (x k : Nat) (hx : x < 2 ^ 64) (hk : k ≤ 64) :
    x &&& (2 ^ 64 - 2 ^ k) = x / 2 ^ k * 2 ^ k := by
  have hpos : 0 < 2 ^ k := Nat.two_pow_pos k
  have hle : 2 ^ k ≤ 2 ^ 64 := Nat.pow_le_pow_right (by decide) hk
  apply Nat.eq_of_testBit_eq
  intro i
  have hmask : (2 ^ 64 - 2 ^ k).testBit i = (decide (i < 64) && decide (k ≤ i)) := by
    have hsub := Nat.testBit_two_pow_sub_succ (x := 2 ^ k - 1) (n := 64) (by omega) i
    rw [show 2 ^ k - 1 + 1 = 2 ^ k by omega, Nat.testBit_two_pow_sub_one] at hsub
    rw [hsub]
    by_cases h : i < k
    · simp [h]
    · simp [h, Nat.le_of_not_lt h]
  rw [Nat.testBit_and, hmask, Nat.testBit_mul_two_pow, Nat.testBit_div_two_pow]
  by_cases hi : k ≤ i
  · by_cases hlt : i < 64
    · simp [hi, hlt]
    · have hbig : x.testBit i = false :=
        Nat.testBit_lt_two_pow (hx.trans_le (Nat.pow_le_pow_right (by decide) (by omega)))
      simp [hi, hlt, hbig]
  · simp [hi]

/-- `align_up` rounds up to the next multiple, if nothing overflows. -/
theorem alignUp_of_lt (addr k : Nat) (hk : k ≤ 63) (hlt : addr + 2 ^ k - 1 < 2 ^ 64) :
    addr ≤ alignUp addr (2 ^ k) ∧ alignUp addr (2 ^ k) < addr + 2 ^ k ∧
    2 ^ k ∣ alignUp addr (2 ^ k) := by
  have hpos : 0 < 2 ^ k := Nat.two_pow_pos k
  rw [alignUp, Nat.mod_eq_of_lt hlt, and_two_pow_sub _ _ hlt (by omega)]
  have hdiv := Nat.div_add_mod (addr + 2 ^ k - 1) (2 ^ k)
  have hmod := Nat.mod_lt (addr + 2 ^ k - 1) hpos
  rw [Nat.mul_comm] at hdiv
  exact ⟨by omega, by omega, Nat.dvd_mul_left _ _⟩

theorem alignUp_spec (addr k : Nat) (hk : k ≤ 63) (haddr : addr ≤ 2 ^ 63) :
    addr ≤ alignUp addr (2 ^ k) ∧ alignUp addr (2 ^ k) < addr + 2 ^ k ∧
    2 ^ k ∣ alignUp addr (2 ^ k) := by
  have hpos : 0 < 2 ^ k := Nat.two_pow_pos k
  have hle : 2 ^ k ≤ 2 ^ 63 := Nat.pow_le_pow_right (by decide) hk
  exact alignUp_of_lt addr k hk (by omega)

/-- Where it overflows it gives the null address. -/
theorem alignUp_overflow (addr k : Nat) (hk : k ≤ 63) (haddr : addr < 2 ^ 64)
    (hover : 2 ^ 64 ≤ addr + 2 ^ k - 1) : alignUp addr (2 ^ k) = 0 := by
  have hle : 2 ^ k ≤ 2 ^ 63 := Nat.pow_le_pow_right (by decide) hk
  have hmod : (addr + 2 ^ k - 1) % 2 ^ 64 = addr + 2 ^ k - 1 - 2 ^ 64 := by
    rw [Nat.mod_eq_sub_mod hover, Nat.mod_eq_of_lt (by omega)]
  rw [alignUp, hmod, and_two_pow_sub _ _ (by omega) (by omega), Nat.div_eq_of_lt (by omega),
    Nat.zero_mul]

/-! ### Lists of free blocks and regions -/

/-- A bucket with the addresses of its free blocks. -/
structure Slot where
  bucket : Bucket
  free : List Nat

/-- The addresses a free block takes up: its size, and at least its list node. -/
def Slot.extents (slot : Slot) : List Extent :=
  slot.free.map fun a => ⟨a, max slot.bucket.blockSize 8⟩

/-- The free list of the bucket is in memory. -/
def Slot.Linked (mem : ByteStore) (slot : Slot) : Prop :=
  Chain (read64 mem) slot.bucket.freeList slot.free

/-- A write outside of its blocks keeps a free list. -/
theorem Slot.Linked.frame {slot : Slot} {mem mem' : ByteStore} {lo hi : Nat}
    (h : slot.Linked mem) (hagree : AgreeOutside lo hi mem mem')
    (hapart : ∀ f ∈ slot.extents, f.stop ≤ lo ∨ hi ≤ f.start) : slot.Linked mem' := by
  apply Chain.congr h
  intro a ha
  have hf := hapart ⟨a, max slot.bucket.blockSize 8⟩ (List.mem_map_of_mem ha)
  simp only [Extent.stop] at hf
  exact hagree.read64 a (by omega)

/-- The large free list from `head` consists of `regions`. -/
structure LargeList (mem : ByteStore) (head : Nat) (regions : List Extent) : Prop where
  links : Chain (fun a => read64 mem (a + 8)) head (regions.map Extent.start)
  sizes : ∀ r ∈ regions, read64 mem r.start = r.len

/-- The header of a region: its size and its successor. -/
def header (r : Extent) : Extent := ⟨r.start, LARGE_NODE_LEN⟩

namespace LargeList

variable {mem mem' : ByteStore} {head ptr lo hi : Nat} {r : Extent} {pre post regions : List Extent}

theorem nil (mem : ByteStore) : LargeList mem 0 [] := ⟨rfl, by simp⟩

/-- A write outside of the headers keeps a list. -/
theorem frame (h : LargeList mem head regions) (hagree : AgreeOutside lo hi mem mem')
    (hapart : ∀ r ∈ regions, (header r).stop ≤ lo ∨ hi ≤ r.start) :
    LargeList mem' head regions := by
  have hword : ∀ r ∈ regions, read64 mem' r.start = read64 mem r.start ∧
      read64 mem' (r.start + 8) = read64 mem (r.start + 8) := by
    intro r hr
    have hside := hapart r hr
    simp only [header, Extent.stop, LARGE_NODE_LEN] at hside
    exact ⟨hagree.read64 _ (by omega), hagree.read64 _ (by omega)⟩
  refine ⟨h.links.congr ?_, fun r hr => ?_⟩
  · intro a ha
    obtain ⟨r, hr, rfl⟩ := List.mem_map.mp ha
    exact (hword r hr).2
  · rw [(hword r hr).1]
    exact h.sizes r hr

theorem head_eq (h : LargeList mem head regions) : head = headOf (regions.map Extent.start) :=
  h.links.head_eq

theorem cons_iff : LargeList mem head (r :: regions) ↔
    head = r.start ∧ r.start ≠ 0 ∧ read64 mem r.start = r.len ∧
    LargeList mem (read64 mem (r.start + 8)) regions := by
  constructor
  · rintro ⟨hlinks, hsizes⟩
    obtain ⟨hhead, hne, hrest⟩ := hlinks
    exact ⟨hhead, hne, hsizes r List.mem_cons_self, hrest,
      fun q hq => hsizes q (List.mem_cons_of_mem r hq)⟩
  · rintro ⟨hhead, hne, hsize, hrest⟩
    exact ⟨⟨hhead, hne, hrest.links⟩, List.forall_mem_cons.mpr ⟨hsize, hrest.sizes⟩⟩

theorem suffix (h : LargeList mem head (pre ++ regions)) :
    LargeList mem (headOf (regions.map Extent.start)) regions := by
  obtain ⟨hlinks, hsizes⟩ := h
  rw [List.map_append] at hlinks
  exact ⟨hlinks.suffix, fun r hr => hsizes r (List.mem_append_right pre hr)⟩

end LargeList

/-- The place that holds the pointer to what follows a prefix of the list. -/
def cursorAfter (pre : List Extent) : Cursor := pre.getLast?.map Extent.start

/-- Reading the cursor behind a prefix gives the head of the rest. -/
private theorem readCursor_cursorAfter {h : BucketAllocator} {pre rest : List Extent}
    (hlist : LargeList h.mem h.largeHead (pre ++ rest)) :
    h.readCursor (cursorAfter pre) = headOf (rest.map Extent.start) := by
  rcases List.eq_nil_or_concat' pre with rfl | ⟨front, last, rfl⟩
  · exact hlist.head_eq
  · rw [List.append_assoc] at hlist
    obtain ⟨-, -, -, hrest⟩ := LargeList.cons_iff.mp hlist.suffix
    simp only [cursorAfter, List.getLast?_append, List.getLast?_singleton, Option.some_or,
      Option.map_some, readCursor]
    exact hrest.head_eq

/-! ### Changing the large list -/

/-- Regions whose headers share no address. -/
def HeadersApart (regions : List Extent) : Prop :=
  regions.Pairwise fun r q => (header r).Apart (header q)

section Change

variable {h : BucketAllocator} {mem : ByteStore} {lo hi ptr : Nat} {pre old new : List Extent}

/-- Replace what follows a prefix by a list from the same pointer. -/
theorem LargeList.replace {mem' : ByteStore} {head : Nat} (hlist : LargeList mem head (pre ++ old))
    (hagree : AgreeOutside lo hi mem mem')
    (hpre : ∀ r ∈ pre, (header r).stop ≤ lo ∨ hi ≤ r.start)
    (hnew : LargeList mem' (headOf (old.map Extent.start)) new) :
    LargeList mem' head (pre ++ new) := by
  have hword : ∀ r ∈ pre, read64 mem' r.start = read64 mem r.start ∧
      read64 mem' (r.start + 8) = read64 mem (r.start + 8) := by
    intro r hr
    have hside := hpre r hr
    simp only [header, Extent.stop, LARGE_NODE_LEN] at hside
    exact ⟨hagree.read64 _ (by omega), hagree.read64 _ (by omega)⟩
  constructor
  · have hlinks := hlist.links
    rw [List.map_append] at hlinks ⊢
    apply hlinks.replace hnew.links
    intro a ha
    obtain ⟨r, hr, rfl⟩ := List.mem_map.mp ha
    exact (hword r hr).2
  · refine List.forall_mem_append.mpr ⟨fun r hr => ?_, hnew.sizes⟩
    rw [(hword r hr).1]
    exact hlist.sizes r (List.mem_append_left old hr)

/-- Replace what follows a prefix by a list from another pointer, through the cursor. -/
theorem LargeList.splice (hlist : LargeList h.mem h.largeHead (pre ++ old))
    (hnew : LargeList h.mem ptr new) (hapart : HeadersApart (pre ++ new)) (hptr : ptr < 2 ^ 64) :
    LargeList (h.writeCursor (cursorAfter pre) ptr).mem
      (h.writeCursor (cursorAfter pre) ptr).largeHead (pre ++ new) := by
  rcases List.eq_nil_or_concat' pre with rfl | ⟨front, last, rfl⟩
  · exact hnew
  have hcursor : cursorAfter (front ++ [last]) = some last.start := by simp [cursorAfter]
  rw [hcursor]
  simp only [writeCursor, setNext]
  -- the successor field of the last node of the prefix is the only word that changes
  have hwrite := write64_agree h.mem (last.start + 8) ptr
  obtain ⟨hpairs, -, hcross⟩ := List.pairwise_append.mp hapart
  obtain ⟨-, -, hfront⟩ := List.pairwise_append.mp hpairs
  have hside : ∀ r ∈ front ++ new, (header r).stop ≤ last.start + 8 ∨
      last.start + 8 + 8 ≤ r.start := by
    intro r hr
    have happart : (header r).Apart (header last) := by
      rcases List.mem_append.mp hr with hr | hr
      · exact hfront r hr last (List.mem_singleton_self last)
      · exact (hcross last (by simp) r hr).symm
    simp only [Extent.Apart, header, Extent.stop, LARGE_NODE_LEN] at happart ⊢
    omega
  have hnew' := hnew.frame hwrite fun r hr => hside r (List.mem_append_right front hr)
  constructor
  · have hlinks := hlist.links
    rw [List.map_append] at hlinks ⊢
    have hmap : (front ++ [last]).map Extent.start = front.map Extent.start ++ [last.start] := by
      simp
    have hsplice := hlinks.splice hnew'.links
      (by
        rw [hmap, List.dropLast_concat]
        intro a ha
        obtain ⟨r, hr, rfl⟩ := List.mem_map.mp ha
        have hr' := hside r (List.mem_append_left new hr)
        simp only [header, Extent.stop, LARGE_NODE_LEN] at hr'
        exact hwrite.read64 _ (by omega))
      (by
        rw [hmap, List.getLast?_concat]
        intro a ha
        obtain rfl := Option.some.inj ha
        exact read64_write64 _ _ _ hptr)
    have hkeep : spliceHead h.largeHead ptr ((front ++ [last]).map Extent.start) = h.largeHead := by
      rw [hmap]
      cases front <;> rfl
    rwa [hkeep] at hsplice
  · refine List.forall_mem_append.mpr ⟨fun r hr => ?_, hnew'.sizes⟩
    rw [hwrite.read64]
    · exact hlist.sizes r (List.mem_append_left old hr)
    · rcases List.mem_append.mp hr with hr | hr
      · have hr' := hside r (List.mem_append_left new hr)
        simp only [header, Extent.stop, LARGE_NODE_LEN] at hr'
        omega
      · rw [List.mem_singleton.mp hr]
        omega

end Change

/-! ### The walks -/

/-- The request fits in the region, from its first aligned address on. -/
def Fits (size align : Nat) (r : Extent) : Prop := alignUp r.start align + size ≤ r.stop

instance (size align : Nat) (r : Extent) : Decidable (Fits size align r) := by
  unfold Fits
  infer_instance

theorem endAddr_eq {h : BucketAllocator} {r : Extent} (hsize : read64 h.mem r.start = r.len)
    (hstop : r.stop < 2 ^ 64) : h.endAddr r.start = r.stop := by
  rw [endAddr, hsize]
  exact Nat.mod_eq_of_lt (by simp only [Extent.stop] at hstop; omega)

theorem cursorAfter_concat (pre : List Extent) (r : Extent) :
    cursorAfter (pre ++ [r]) = some r.start := by
  simp [cursorAfter]

/-- The walk goes past the region: the end of the request does not overflow, and lies behind it. -/
def Passed (size align : Nat) (r : Extent) : Prop :=
  alignUp r.start align + size < 2 ^ 64 ∧ ¬Fits size align r

/-- `alloc_large` passes all regions, gives up where the end of the request overflows, or takes the
    first region that fits. -/
theorem allocLargeFrom_cases (h : BucketAllocator) (size align : Nat) (pre rest : List Extent)
    (fuel : Nat) (hlist : LargeList h.mem h.largeHead (pre ++ rest)) (hfuel : rest.length < fuel)
    (hstops : ∀ r ∈ rest, r.stop < 2 ^ 64) :
    ((∀ r ∈ rest, Passed size align r) ∧
      h.allocLargeFrom size align fuel (cursorAfter pre) = (none, h)) ∨
    (∃ mid r post, rest = mid ++ r :: post ∧ (∀ q ∈ mid, Passed size align q) ∧
      2 ^ 64 ≤ alignUp r.start align + size ∧
      h.allocLargeFrom size align fuel (cursorAfter pre) = (none, h)) ∨
    ∃ mid r post, rest = mid ++ r :: post ∧ (∀ q ∈ mid, Passed size align q) ∧
      Fits size align r ∧
      h.allocLargeFrom size align fuel (cursorAfter pre) =
        (nonNull (alignUp r.start align),
          h.carve (cursorAfter (pre ++ mid)) r.start (alignUp r.start align) size) := by
  induction rest generalizing pre fuel with
  | nil =>
    obtain ⟨fuel, rfl⟩ := Nat.exists_eq_succ_of_ne_zero (by omega : fuel ≠ 0)
    left
    refine ⟨by simp, ?_⟩
    rw [allocLargeFrom, readCursor_cursorAfter hlist]
    rfl
  | cons r rest ih =>
    obtain ⟨fuel, rfl⟩ := Nat.exists_eq_succ_of_ne_zero (by omega : fuel ≠ 0)
    obtain ⟨-, hne, hlen, -⟩ := LargeList.cons_iff.mp hlist.suffix
    obtain ⟨hstop, hstops⟩ := List.forall_mem_cons.mp hstops
    rw [allocLargeFrom, readCursor_cursorAfter hlist]
    simp only [List.map_cons, headOf, if_neg hne, endAddr_eq hlen hstop]
    by_cases hover : alignUp r.start align + size ≥ 2 ^ 64
    · -- `checked_add` fails
      right; left
      exact ⟨[], r, rest, rfl, by simp, hover, if_pos hover⟩
    rw [if_neg hover]
    by_cases hfits : Fits size align r
    · right; right
      refine ⟨[], r, rest, rfl, by simp, hfits, ?_⟩
      rw [if_pos (show _ ≤ _ from hfits), List.append_nil]
    · -- the walk goes on behind this region
      have hpassed : Passed size align r := ⟨by omega, hfits⟩
      rw [if_neg (show ¬_ ≤ _ from hfits), ← cursorAfter_concat pre r]
      have happend : pre ++ r :: rest = (pre ++ [r]) ++ rest := by simp
      rw [happend] at hlist
      rw [List.length_cons] at hfuel
      rcases ih (pre ++ [r]) fuel hlist (by omega) hstops with
        ⟨hall, heq⟩ | ⟨mid, q, post, rfl, hmid, hq, heq⟩ | ⟨mid, q, post, rfl, hmid, hq, heq⟩
      · exact .inl ⟨List.forall_mem_cons.mpr ⟨hpassed, hall⟩, heq⟩
      · right; left
        exact ⟨r :: mid, q, post, rfl, List.forall_mem_cons.mpr ⟨hpassed, hmid⟩, hq, heq⟩
      · right; right
        refine ⟨r :: mid, q, post, rfl, List.forall_mem_cons.mpr ⟨hpassed, hmid⟩, hq, ?_⟩
        rw [heq, List.append_assoc]
        rfl

/-- Where nothing overflows, `alloc_large` takes the first region that fits, or finds none. -/
theorem allocLargeFrom_spec (h : BucketAllocator) (size k : Nat) (hk : k ≤ 63)
    (hsize : size + 2 ^ k ≤ 2 ^ 63 + 8) (pre rest : List Extent) (fuel : Nat)
    (hlist : LargeList h.mem h.largeHead (pre ++ rest)) (hfuel : rest.length < fuel)
    (hbounds : ∀ r ∈ rest, r.start + LARGE_NODE_LEN ≤ r.stop ∧ r.stop ≤ 2 ^ 63) :
    (∀ r ∈ rest, ¬Fits size (2 ^ k) r) ∧
      h.allocLargeFrom size (2 ^ k) fuel (cursorAfter pre) = (none, h) ∨
    ∃ mid r post, rest = mid ++ r :: post ∧ (∀ q ∈ mid, ¬Fits size (2 ^ k) q) ∧
      Fits size (2 ^ k) r ∧
      h.allocLargeFrom size (2 ^ k) fuel (cursorAfter pre) =
        (some (alignUp r.start (2 ^ k)),
          h.carve (cursorAfter (pre ++ mid)) r.start (alignUp r.start (2 ^ k)) size) := by
  have hstops : ∀ r ∈ rest, r.stop < 2 ^ 64 := fun r hr => by
    have hstop := (hbounds r hr).2
    omega
  simp only [LARGE_NODE_LEN] at hbounds
  rcases allocLargeFrom_cases h size (2 ^ k) pre rest fuel hlist hfuel hstops with
    ⟨hall, heq⟩ | ⟨mid, r, post, rfl, -, hover, -⟩ | ⟨mid, r, post, rfl, hmid, hfits, heq⟩
  · exact .inl ⟨fun r hr => (hall r hr).2, heq⟩
  · -- the end of the request does not overflow
    obtain ⟨hroom, hstop⟩ := hbounds r (by simp)
    obtain ⟨-, hlt, -⟩ := alignUp_spec r.start k hk (by omega)
    omega
  · right
    obtain ⟨-, hne, -⟩ := LargeList.cons_iff.mp ((List.append_assoc pre mid _ ▸ hlist).suffix)
    obtain ⟨hroom, hstop⟩ := hbounds r (by simp)
    obtain ⟨hge, -, -⟩ := alignUp_spec r.start k hk (by omega)
    refine ⟨mid, r, post, rfl, fun q hq => (hmid q hq).2, hfits, ?_⟩
    rw [heq, nonNull, if_neg (by omega)]

/-- `dealloc_large` stops at the first region behind the freed block, or at a region that starts
    where the block does. -/
theorem deallocLargeFrom_cases (h : BucketAllocator) (ptr size : Nat) (pre rest : List Extent)
    (fuel : Nat) (hlist : LargeList h.mem h.largeHead (pre ++ rest)) (hfuel : rest.length < fuel)
    (hptr : ptr < 2 ^ 64 - 1) :
    (∃ mid post, rest = mid ++ post ∧ (∀ r ∈ mid, r.start < ptr) ∧
      (∀ r ∈ post.head?, ptr < r.start) ∧
      h.deallocLargeFrom ptr size fuel (cursorAfter pre) (headOf (rest.map Extent.start)) =
        h.insertAt ptr size (cursorAfter (pre ++ mid)) (headOf (post.map Extent.start))) ∨
    ∃ mid r post, rest = mid ++ r :: post ∧ (∀ q ∈ mid, q.start < ptr) ∧ r.start = ptr ∧
      h.deallocLargeFrom ptr size fuel (cursorAfter pre) (headOf (rest.map Extent.start)) = h := by
  induction rest generalizing pre fuel with
  | nil =>
    obtain ⟨fuel, rfl⟩ := Nat.exists_eq_succ_of_ne_zero (by omega : fuel ≠ 0)
    left
    refine ⟨[], [], rfl, by simp, by simp, ?_⟩
    rw [deallocLargeFrom, List.append_nil]
    simp only [List.map_nil, headOf, if_true]
    rw [if_pos (by omega)]
  | cons r rest ih =>
    obtain ⟨fuel, rfl⟩ := Nat.exists_eq_succ_of_ne_zero (by omega : fuel ≠ 0)
    obtain ⟨-, hne, -, hrest⟩ := LargeList.cons_iff.mp hlist.suffix
    rw [deallocLargeFrom]
    simp only [List.map_cons, headOf, if_neg hne]
    by_cases hlt : ptr < r.start
    · -- the walk stops in front of the first region behind `ptr`
      left
      refine ⟨[], r :: rest, rfl, by simp, by simpa using hlt, ?_⟩
      rw [if_pos hlt, List.append_nil]
      rfl
    rw [if_neg hlt]
    by_cases hsame : ptr = r.start
    · -- or at the region that starts there
      right
      exact ⟨[], r, rest, rfl, by simp, hsame.symm, if_pos hsame⟩
    · -- and goes on past the others
      rw [if_neg hsame, nonNull, if_neg hne, hrest.head_eq, ← cursorAfter_concat pre r]
      have happend : pre ++ r :: rest = (pre ++ [r]) ++ rest := by simp
      rw [happend] at hlist
      rw [List.length_cons] at hfuel
      rcases ih (pre ++ [r]) fuel hlist (by omega) with
        ⟨mid, post, rfl, hmid, hpost, heq⟩ | ⟨mid, q, post, rfl, hmid, hq, heq⟩
      · left
        refine ⟨r :: mid, post, rfl, List.forall_mem_cons.mpr ⟨by omega, hmid⟩, hpost, ?_⟩
        rw [heq, List.append_assoc]
        rfl
      · right
        exact ⟨r :: mid, q, post, rfl, List.forall_mem_cons.mpr ⟨by omega, hmid⟩, hq, heq⟩

/-- A block that no region starts at goes in front of the first region behind it. -/
theorem deallocLargeFrom_spec (h : BucketAllocator) (ptr size : Nat) (pre rest : List Extent)
    (fuel : Nat) (hlist : LargeList h.mem h.largeHead (pre ++ rest)) (hfuel : rest.length < fuel)
    (hptr : ptr < 2 ^ 64 - 1) (hfresh : ∀ r ∈ rest, r.start ≠ ptr) :
    ∃ mid post, rest = mid ++ post ∧ (∀ r ∈ mid, r.start < ptr) ∧
      (∀ r ∈ post.head?, ptr < r.start) ∧
      h.deallocLargeFrom ptr size fuel (cursorAfter pre) (headOf (rest.map Extent.start)) =
        h.insertAt ptr size (cursorAfter (pre ++ mid)) (headOf (post.map Extent.start)) := by
  rcases deallocLargeFrom_cases h ptr size pre rest fuel hlist hfuel hptr with
    hbetween | ⟨mid, r, post, rfl, -, hsame, -⟩
  · exact hbetween
  · exact absurd hsame (hfresh r (by simp))

end RustKernel.Memory
