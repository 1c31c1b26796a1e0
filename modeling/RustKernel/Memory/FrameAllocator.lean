import Mathlib.Data.List.Nodup
import Mathlib.Data.Nat.Bitwise
import Mathlib.Logic.Function.Basic
import RustKernel.Lib.Run

/-!
# RustKernel.Memory.FrameAllocator

The physical frame allocator: a bitmap of atomic words with a set bit for each free frame.

## Main result

`frame_exclusive`: whatever calls of `alloc_frame` and `free_frame` are interleaved at their atomic
operations on the bitmap, a frame that is returned twice was freed in between, no frame is held
twice, and every frame returned is a page of the managed range. `free_frame` releases its argument
and nothing else.

## Proof strategy

`alloc_frame` clears every bit that it passes, so the one fact needed of a step is which bits it
changes: `testBit_fetchAnd` and `testBit_setBit`. A frame that is held, or on its way to being
freed, has a clear bit, and only its own `free_frame` sets that bit again.
-/

namespace RustKernel.Memory.FrameAllocator

open Lib

def PHYS_BASE : Nat := 0x00400000
def PHYS_END : Nat := 0x40000000
def PAGE_SIZE : Nat := 4096
def FRAME_COUNT : Nat := (PHYS_END - PHYS_BASE) / PAGE_SIZE
def BITMAP_WORDS : Nat := (FRAME_COUNT + 63) / 64

/-- `BITMAP` -/
abbrev Words : Type := Vector UInt64 BITMAP_WORDS

/-- A load of a word. -/
def load (words : Words) (word : Nat) : UInt64 := (words[word]?).getD 0

def store (words : Words) (word : Nat) (val : UInt64) : Words := words.setIfInBounds word val

def pageIndex (phys : Nat) : Option Nat :=
  if phys < PHYS_BASE ∨ PHYS_END ≤ phys then none else some ((phys - PHYS_BASE) / PAGE_SIZE)

/-- `1 << bit` -/
def mask (bit : Nat) : UInt64 := 1 <<< UInt64.ofNat bit

/-- `fetch_and(!mask)`: the word before, and the bitmap after. -/
def fetchAnd (words : Words) (word bit : Nat) : UInt64 × Words :=
  (load words word, store words word (load words word &&& ~~~mask bit))

/-- `fetch_or(mask)` -/
def fetchOr (words : Words) (word bit : Nat) : Words :=
  store words word (load words word ||| mask bit)

def setBit (words : Words) (idx : Nat) (free : Bool) : Words :=
  if FRAME_COUNT ≤ idx then words
  else if BITMAP_WORDS ≤ idx / 64 then words
  else if free then fetchOr words (idx / 64) (idx % 64)
  else (fetchAnd words (idx / 64) (idx % 64)).2

def testBit (words : Words) (idx : Nat) : Bool :=
  if FRAME_COUNT ≤ idx then false
  else if BITMAP_WORDS ≤ idx / 64 then false
  else (load words (idx / 64) >>> UInt64.ofNat (idx % 64)) &&& 1 ≠ 0

def markUsed (words : Words) (phys : Nat) : Words :=
  match pageIndex phys with
  | some idx => setBit words idx false
  | none => words

/-- The loop of `init` over the pages of the kernel. -/
def markKernel (words : Words) (addr : Nat) : Words :=
  if addr < PHYS_BASE then markKernel (markUsed words addr) (addr + PAGE_SIZE) else words
termination_by PHYS_BASE - addr
decreasing_by
  rw [PAGE_SIZE]
  omega

def init : Words :=
  let words := Vector.replicate BITMAP_WORDS 0xFFFFFFFFFFFFFFFF
  let remainder := FRAME_COUNT % 64
  let words :=
    if 0 < remainder then
      store words (BITMAP_WORDS - 1) (load words (BITMAP_WORDS - 1) &&& (mask remainder - 1))
    else words
  markKernel words 0x00100000

def freeFrame (words : Words) (phys : Nat) : Words :=
  if phys % PAGE_SIZE ≠ 0 then words
  else
    match pageIndex phys with
    | some idx => setBit words idx true
    | none => words

/-- The address of a frame. -/
def frameAt (i : Nat) : Nat := PHYS_BASE + i * PAGE_SIZE

/-! ### Interleaved calls -/

/-- Where a caller is between two atomic operations. -/
inductive Caller where
  | idle
  /-- `alloc_frame`, about to clear bit `i`. -/
  | scanning (i : Nat)
  /-- `free_frame`, about to set the bit of its argument. -/
  | freeing (phys : Nat)

inductive Op where
  /-- An `alloc_frame` returned. -/
  | returned (phys : Nat)
  /-- A `free_frame` has set the bit of its argument. -/
  | freed (phys : Nat)

/-- Any number of callers, after `init`. -/
structure Machine (κ : Type) where
  bitmap : Words
  caller : κ → Caller
  /-- The frames that were returned to some caller, who has not called `free_frame` since. -/
  held : List Nat
  log : List Op

def Machine.start (κ : Type) : Machine κ := ⟨init, fun _ => .idle, [], []⟩

inductive Event (κ : Type) where
  | alloc (c : κ)
  /-- A call of `free_frame`, if some caller holds the frame. -/
  | free (c : κ) (phys : Nat)
  /-- The caller does the next atomic operation of its call. -/
  | advance (c : κ)

section Calls

variable {κ : Type} [DecidableEq κ]

/-- The caller goes on to another place. -/
def Machine.goto (m : Machine κ) (c : κ) (place : Caller) : Machine κ :=
  { m with caller := Function.update m.caller c place }

/-- One round of the loop of `alloc_frame`, or its end. -/
def Machine.scan (m : Machine κ) (c : κ) (i : Nat) : Machine κ :=
  if i < FRAME_COUNT then
    let (prev, bitmap) := fetchAnd m.bitmap (i / 64) (i % 64)
    if prev &&& mask (i % 64) ≠ 0 then
      { m.goto c .idle with
        bitmap := bitmap
        held := frameAt i :: m.held
        log := m.log ++ [.returned (frameAt i)] }
    else { m.goto c (.scanning (i + 1)) with bitmap := bitmap }
  else { m.goto c .idle with log := m.log ++ [.returned 0] }

def Machine.release (m : Machine κ) (c : κ) (phys : Nat) : Machine κ :=
  { m.goto c .idle with
    bitmap := freeFrame m.bitmap phys
    log := m.log ++ [.freed phys] }

def Machine.step (m : Machine κ) : Event κ → Machine κ
  | .alloc c =>
    match m.caller c with
    | .idle => m.goto c (.scanning 0)
    | _ => m
  | .free c phys =>
    match m.caller c with
    | .idle =>
      if phys ∈ m.held then { m.goto c (.freeing phys) with held := m.held.erase phys } else m
    | _ => m
  | .advance c =>
    match m.caller c with
    | .idle => m
    | .scanning i => m.scan c i
    | .freeing phys => m.release c phys

end Calls

/-! ### One word -/

section Word

variable (word : UInt64) {j k : Nat}

/-- Bit `k` of a word. -/
def bitOf (word : UInt64) (k : Nat) : Bool := word.toNat.testBit k

theorem toNat_mask (hk : k < 64) : (mask k).toNat = 2 ^ k := by
  rw [mask, UInt64.toNat_shiftLeft, UInt64.toNat_ofNat', Nat.mod_mod_of_dvd _ (by decide),
    Nat.mod_eq_of_lt hk, show (1 : UInt64).toNat = 1 from rfl, Nat.one_shiftLeft]
  exact Nat.mod_eq_of_lt (Nat.pow_lt_pow_right (by decide) hk)

private theorem and_mask_ne_zero_iff (hk : k < 64) : word &&& mask k ≠ 0 ↔ bitOf word k = true := by
  rw [ne_eq, ← UInt64.toNat_inj, UInt64.toNat_and, toNat_mask hk]
  rw [show (0 : UInt64).toNat = 0 from rfl, Nat.and_two_pow, bitOf]
  cases word.toNat.testBit k <;> simp

private theorem shift_and_one_ne_zero_iff (hk : k < 64) :
    (word >>> UInt64.ofNat k) &&& 1 ≠ 0 ↔ bitOf word k = true := by
  rw [ne_eq, ← UInt64.toNat_inj, UInt64.toNat_and, UInt64.toNat_shiftRight, UInt64.toNat_ofNat',
    Nat.mod_mod_of_dvd _ (by decide), Nat.mod_eq_of_lt hk, bitOf, Nat.testBit, Nat.and_comm]
  exact bne_iff_ne.symm

private theorem bitOf_or_mask (hk : k < 64) :
    bitOf (word ||| mask k) j = (bitOf word j || decide (k = j)) := by
  rw [bitOf, UInt64.toNat_or, Nat.testBit_or, toNat_mask hk, Nat.testBit_two_pow]
  rfl

private theorem bitOf_and_not_mask (hj : j < 64) (hk : k < 64) :
    bitOf (word &&& ~~~mask k) j = (bitOf word j && !decide (k = j)) := by
  have hnot : (~~~mask k).toNat.testBit j = !decide (k = j) := by
    rw [UInt64.toNat_not, toNat_mask hk, UInt64.size,
      show 18446744073709551616 - 1 - 2 ^ k = 2 ^ 64 - (2 ^ k + 1) by omega,
      Nat.testBit_two_pow_sub_succ (Nat.pow_lt_pow_right (by decide) hk), Nat.testBit_two_pow]
    simp [hj]
  rw [bitOf, UInt64.toNat_and, Nat.testBit_and, hnot]
  rfl

end Word

/-! ### The bitmap -/

section Bitmap

variable (words : Words) {i j : Nat}

private theorem load_store {word word' : Nat} (val : UInt64) (h : word < BITMAP_WORDS) :
    load (store words word val) word' = if word = word' then val else load words word' := by
  rw [load, store, Vector.getElem?_setIfInBounds]
  split
  · rfl
  · rfl

private theorem word_lt (hi : i < FRAME_COUNT) : i / 64 < BITMAP_WORDS := by
  have hbound : FRAME_COUNT ≤ 64 * BITMAP_WORDS := by decide
  omega

private theorem testBit_eq (hi : i < FRAME_COUNT) :
    testBit words i = bitOf (load words (i / 64)) (i % 64) := by
  have hword := word_lt hi
  rw [testBit, if_neg (by omega), if_neg (by omega)]
  rw [Bool.eq_iff_iff, decide_eq_true_iff]
  exact shift_and_one_ne_zero_iff _ (Nat.mod_lt _ (by decide))

theorem testBit_fetchAnd (hi : i < FRAME_COUNT) :
    testBit (fetchAnd words (i / 64) (i % 64)).2 j = (testBit words j && !decide (i = j)) := by
  have hmod : ∀ n, n % 64 < 64 := fun n => Nat.mod_lt _ (by decide)
  by_cases hj : j < FRAME_COUNT
  · rw [testBit_eq _ hj, testBit_eq _ hj, fetchAnd, load_store _ _ (word_lt hi)]
    by_cases hword : i / 64 = j / 64
    · rw [if_pos hword, bitOf_and_not_mask _ (hmod j) (hmod i), hword]
      simp only [show i % 64 = j % 64 ↔ i = j by omega]
    · have hne : i ≠ j := fun hij => hword (by rw [hij])
      simp [hword, hne]
  · rw [testBit, testBit, if_pos (by omega), if_pos (by omega)]
    rfl

private theorem testBit_fetchOr (hi : i < FRAME_COUNT) (hj : j < FRAME_COUNT) :
    testBit (fetchOr words (i / 64) (i % 64)) j = (testBit words j || decide (i = j)) := by
  rw [testBit_eq _ hj, testBit_eq _ hj, fetchOr, load_store _ _ (word_lt hi)]
  by_cases hword : i / 64 = j / 64
  · rw [if_pos hword, bitOf_or_mask _ (Nat.mod_lt _ (by decide)), hword]
    simp only [show i % 64 = j % 64 ↔ i = j by omega]
  · have hne : i ≠ j := fun hij => hword (by rw [hij])
    simp [hword, hne]

/-- What the previous word says: whether the bit was set. -/
private theorem fetchAnd_prev (hi : i < FRAME_COUNT) :
    (fetchAnd words (i / 64) (i % 64)).1 &&& mask (i % 64) ≠ 0 ↔ testBit words i = true := by
  rw [and_mask_ne_zero_iff _ (Nat.mod_lt _ (by decide)), testBit_eq _ hi]
  rfl

/-! ### Addresses -/

private theorem pageIndex_eq_some {phys idx : Nat} (h : pageIndex phys = some idx) :
    idx < FRAME_COUNT ∧ idx = (phys - PHYS_BASE) / PAGE_SIZE ∧ PHYS_BASE ≤ phys := by
  rw [pageIndex] at h
  split at h
  case isTrue => cases h
  case isFalse hin =>
    have heq := Option.some.inj h
    refine ⟨?_, heq.symm, ?_⟩
    · simp only [PHYS_BASE, PHYS_END, PAGE_SIZE, FRAME_COUNT] at heq hin ⊢
      omega
    · omega

private theorem pageIndex_frameAt (hi : i < FRAME_COUNT) : pageIndex (frameAt i) = some i := by
  simp only [FRAME_COUNT, PHYS_BASE, PHYS_END, PAGE_SIZE] at hi
  rw [pageIndex, if_neg]
  · simp only [frameAt, PHYS_BASE, PAGE_SIZE]
    rw [Nat.add_sub_cancel_left, Nat.mul_div_cancel _ (by decide)]
  · simp only [frameAt, PHYS_BASE, PHYS_END, PAGE_SIZE]
    omega

private theorem frameAt_inj (h : frameAt i = frameAt j) : i = j := by
  simp only [frameAt, PHYS_BASE, PAGE_SIZE] at h
  omega

/-- `free_frame` sets the bit of its argument, if that is a frame, and no other bit. -/
private theorem testBit_freeFrame (phys : Nat) (hj : j < FRAME_COUNT) :
    testBit (freeFrame words phys) j = (testBit words j || decide (phys = frameAt j)) := by
  rw [freeFrame]
  split
  case isTrue hmod =>
    -- an address off the page grid is no frame
    have hne : phys ≠ frameAt j := by
      rintro rfl
      apply hmod
      simp only [frameAt, PHYS_BASE, PAGE_SIZE]
      omega
    simp [hne]
  case isFalse hmod =>
    cases hidx : pageIndex phys with
    -- nor is one outside the range
    | none =>
      have hne : phys ≠ frameAt j := by
        rintro rfl
        rw [pageIndex_frameAt hj] at hidx
        cases hidx
      simp [hne]
    | some idx =>
      obtain ⟨hlt, heq, hbase⟩ := pageIndex_eq_some hidx
      have hframe : phys = frameAt idx := by
        simp only [frameAt, PHYS_BASE, PAGE_SIZE] at *
        omega
      have hiff : idx = j ↔ phys = frameAt j := by
        rw [hframe]
        exact ⟨congrArg frameAt, frameAt_inj⟩
      have hword := word_lt hlt
      simp only [setBit, if_neg (show ¬FRAME_COUNT ≤ idx by omega),
        if_neg (show ¬BITMAP_WORDS ≤ idx / 64 by omega), if_true]
      rw [testBit_fetchOr _ hlt hj]
      simp only [hiff]

end Bitmap

/-! ### The invariant -/

/-- A frame that was returned and not freed since. -/
def Outstanding (log : List Op) (phys : Nat) : Prop :=
  ∃ before after, log = before ++ .returned phys :: after ∧ .freed phys ∉ after

/-- A frame is freed between any two calls that return it. -/
def Exclusive (log : List Op) : Prop :=
  ∀ before between after phys, phys ≠ 0 →
    log = before ++ .returned phys :: (between ++ .returned phys :: after) → .freed phys ∈ between

section Log

variable {log : List Op} {phys phys' : Nat}

theorem Outstanding.append {op : Op} (h : Outstanding (log ++ [op]) phys) :
    op = .returned phys ∨ Outstanding log phys ∧ op ≠ .freed phys := by
  obtain ⟨before, after, heq, hfreed⟩ := h
  rcases List.eq_nil_or_concat after with rfl | ⟨rest, last, rfl⟩
  · exact .inl (List.append_inj_right' heq rfl |> List.singleton_inj.mp)
  · right
    rw [List.concat_eq_append, ← List.cons_append, ← List.append_assoc] at heq
    obtain ⟨hlog, hlast⟩ := List.append_inj' heq rfl
    obtain rfl := List.singleton_inj.mp hlast
    rw [List.concat_eq_append, List.mem_append, not_or] at hfreed
    refine ⟨⟨before, rest, hlog, hfreed.1⟩, ?_⟩
    rintro rfl
    exact hfreed.2 (List.mem_singleton_self _)

theorem Exclusive.append {op : Op} (h : Exclusive log)
    (hop : ∀ phys, phys ≠ 0 → op = .returned phys → ¬Outstanding log phys) :
    Exclusive (log ++ [op]) := by
  intro before between after phys hne heq
  rcases List.eq_nil_or_concat after with rfl | ⟨rest, last, rfl⟩
  · -- the operation is the second of the two calls
    rw [← List.cons_append, ← List.append_assoc] at heq
    obtain ⟨hlog, hlast⟩ := List.append_inj' heq rfl
    by_contra hfreed
    exact hop phys hne (List.singleton_inj.mp hlast) ⟨before, between, hlog, hfreed⟩
  · have hsplit : log ++ [op] =
        (before ++ .returned phys :: (between ++ .returned phys :: rest)) ++ [last] := by
      rw [heq]
      simp
    exact h before between rest phys hne (List.append_inj' hsplit rfl).1

end Log

/-- The frame is one of the managed range and marked as used. -/
def Taken (words : Words) (phys : Nat) : Prop :=
  ∃ i < FRAME_COUNT, phys = frameAt i ∧ testBit words i = false

section Invariant

variable {κ : Type} {m : Machine κ}

structure Machine.Inv (m : Machine κ) : Prop where
  held_taken : ∀ phys ∈ m.held, Taken m.bitmap phys
  held_nodup : m.held.Nodup
  freeing_taken : ∀ c phys, m.caller c = .freeing phys → Taken m.bitmap phys ∧ phys ∉ m.held
  freeing_inj : ∀ c c' phys, m.caller c = .freeing phys → m.caller c' = .freeing phys → c = c'
  outstanding : ∀ phys ≠ 0, Outstanding m.log phys →
    phys ∈ m.held ∨ ∃ c, m.caller c = .freeing phys
  exclusive : Exclusive m.log
  returned : ∀ phys ≠ 0, .returned phys ∈ m.log → ∃ i < FRAME_COUNT, phys = frameAt i

/-- Clearing bits takes no frame back. -/
private theorem Taken.of_le {words words' : Words} {phys : Nat} (h : Taken words phys)
    (hle : ∀ i, testBit words' i = true → testBit words i = true) : Taken words' phys := by
  obtain ⟨i, hi, rfl, hclear⟩ := h
  refine ⟨i, hi, rfl, ?_⟩
  by_contra hset
  rw [hle i (Bool.not_eq_false _ ▸ hset)] at hclear
  cases hclear

/-- Freeing a frame leaves the other ones taken. -/
theorem Taken.freeFrame {words : Words} {phys phys' : Nat} (h : Taken words phys)
    (hne : phys' ≠ phys) : Taken (freeFrame words phys') phys := by
  obtain ⟨i, hi, rfl, hclear⟩ := h
  refine ⟨i, hi, rfl, ?_⟩
  rw [testBit_freeFrame _ _ hi, hclear]
  simp [hne]

theorem Machine.Inv.start : (Machine.start κ).Inv where
  held_taken := List.forall_mem_nil _
  held_nodup := List.nodup_nil
  freeing_taken := by
    intro c phys h
    cases h
  freeing_inj := by
    intro c c' phys h
    cases h
  outstanding := by
    rintro phys - ⟨before, after, heq, -⟩
    exact absurd heq (by simp [Machine.start])
  exclusive := by
    intro before between after phys _ heq
    exact absurd heq (by simp [Machine.start])
  returned := by
    rintro phys - h
    cases h

/-- The bitmap loses bits. -/
theorem Machine.Inv.clear (h : m.Inv) {words : Words}
    (hle : ∀ i, testBit words i = true → testBit m.bitmap i = true) :
    Machine.Inv { m with bitmap := words } :=
  { h with
    held_taken := by
      intro phys hheld
      exact (h.held_taken phys hheld).of_le hle
    freeing_taken := by
      intro c phys hc
      obtain ⟨htaken, hheld⟩ := h.freeing_taken c phys hc
      exact ⟨htaken.of_le hle, hheld⟩ }

/-- A call returns a frame that nobody holds or frees. -/
theorem Machine.Inv.return (h : m.Inv) {i : Nat} (hi : i < FRAME_COUNT)
    (hclear : testBit m.bitmap i = false) (hheld : frameAt i ∉ m.held)
    (hfreeing : ∀ c, m.caller c ≠ .freeing (frameAt i)) :
    Machine.Inv { m with
      held := frameAt i :: m.held
      log := m.log ++ [.returned (frameAt i)] } where
  held_taken := by
    intro phys hmem
    rcases List.mem_cons.mp hmem with rfl | hmem
    · exact ⟨i, hi, rfl, hclear⟩
    · exact h.held_taken phys hmem
  held_nodup := List.nodup_cons.mpr ⟨hheld, h.held_nodup⟩
  freeing_taken := by
    intro c phys hc
    obtain ⟨htaken, hnot⟩ := h.freeing_taken c phys hc
    refine ⟨htaken, ?_⟩
    rw [List.mem_cons, not_or]
    constructor
    · rintro rfl
      exact hfreeing c hc
    · exact hnot
  freeing_inj := h.freeing_inj
  outstanding := by
    intro phys hne hout
    rcases hout.append with heq | ⟨hout, -⟩
    · obtain rfl := Op.returned.inj heq
      exact .inl List.mem_cons_self
    · exact (h.outstanding phys hne hout).imp_left (List.mem_cons_of_mem _)
  exclusive := by
    apply h.exclusive.append
    intro phys hne heq hout
    obtain rfl := Op.returned.inj heq
    -- an outstanding frame is held or being freed, and this one is neither
    rcases h.outstanding _ hne hout with hmem | ⟨c, hc⟩
    · exact hheld hmem
    · exact hfreeing c hc
  returned := by
    intro phys hne hmem
    rcases List.mem_append.mp hmem with hmem | hmem
    · exact h.returned phys hne hmem
    · exact ⟨i, hi, Op.returned.inj (List.mem_singleton.mp hmem)⟩

private theorem Machine.Inv.returnZero (h : m.Inv) :
    Machine.Inv { m with log := m.log ++ [.returned 0] } :=
  { h with
    outstanding := by
      intro phys hne hout
      rcases hout.append with heq | ⟨hout, -⟩
      · exact absurd (Op.returned.inj heq).symm hne
      · exact h.outstanding phys hne hout
    exclusive := by
      apply h.exclusive.append
      intro phys hne heq _
      exact hne (Op.returned.inj heq).symm
    returned := by
      intro phys hne hmem
      rcases List.mem_append.mp hmem with hmem | hmem
      · exact h.returned phys hne hmem
      · exact absurd (Op.returned.inj (List.mem_singleton.mp hmem)) hne }

end Invariant

/-! ### The steps -/

section Steps

variable {κ : Type} [DecidableEq κ] {m : Machine κ} {c : κ}

/-- A caller that is not freeing goes to another place that is not freeing. -/
theorem Machine.Inv.goto (h : m.Inv) (place : Caller)
    (hfrom : ∀ phys, m.caller c ≠ .freeing phys) (hto : ∀ phys, place ≠ .freeing phys) :
    (m.goto c place).Inv := by
  have hcaller : ∀ c' phys, (m.goto c place).caller c' = .freeing phys ↔
      m.caller c' = .freeing phys := by
    intro c' phys
    show Function.update m.caller c place c' = _ ↔ _
    by_cases hc : c' = c
    · rw [hc, Function.update_self]
      exact ⟨fun hp => absurd hp (hto phys), fun hp => absurd hp (hfrom phys)⟩
    · rw [Function.update_of_ne hc]
  exact
    { h with
      freeing_taken := by
        intro c' phys hc'
        exact h.freeing_taken c' phys ((hcaller c' phys).mp hc')
      freeing_inj := by
        intro c₁ c₂ phys h₁ h₂
        exact h.freeing_inj c₁ c₂ phys ((hcaller c₁ phys).mp h₁) ((hcaller c₂ phys).mp h₂)
      outstanding := by
        intro phys hne hout
        rcases h.outstanding phys hne hout with hheld | ⟨c', hc'⟩
        · exact .inl hheld
        · exact .inr ⟨c', (hcaller c' phys).mpr hc'⟩ }

theorem Machine.Inv.scan (h : m.Inv) {i : Nat} (hc : m.caller c = .scanning i) :
    (m.scan c i).Inv := by
  have hgoto : ∀ place : Caller, (∀ phys, place ≠ .freeing phys) → (m.goto c place).Inv := by
    intro place
    apply h.goto place
    intro phys hp
    rw [hc] at hp
    cases hp
  rw [Machine.scan]
  split
  case isFalse => exact (hgoto .idle nofun).returnZero
  case isTrue hi =>
    have hbits := fun j => @testBit_fetchAnd m.bitmap i j hi
    have hle : ∀ j, testBit (fetchAnd m.bitmap (i / 64) (i % 64)).2 j = true →
        testBit m.bitmap j = true := by
      intro j hj
      rw [hbits, Bool.and_eq_true] at hj
      exact hj.1
    show Machine.Inv (if (fetchAnd m.bitmap (i / 64) (i % 64)).1 &&& mask (i % 64) ≠ 0 then _
      else _)
    by_cases hfree : testBit m.bitmap i = true
    · -- the bit was set, so nobody had the frame
      rw [if_pos ((fetchAnd_prev _ hi).mpr hfree)]
      have huntaken : ¬Taken m.bitmap (frameAt i) := by
        rintro ⟨j, -, heq, hclear⟩
        obtain rfl := frameAt_inj heq
        rw [hfree] at hclear
        cases hclear
      have hidle := hgoto .idle nofun
      apply (hidle.clear hle).return hi
      · show testBit (fetchAnd m.bitmap (i / 64) (i % 64)).2 i = false
        rw [hbits]
        simp
      · intro hheld
        exact huntaken (h.held_taken _ hheld)
      · intro c' hc'
        exact huntaken (hidle.freeing_taken c' _ hc').1
    · rw [if_neg (mt (fetchAnd_prev _ hi).mp hfree)]
      exact (hgoto (.scanning (i + 1)) nofun).clear hle

/-- A call of `free_frame` gives the frame up. -/
private theorem Machine.Inv.callFree (h : m.Inv) {phys : Nat} (hc : m.caller c = .idle)
    (hheld : phys ∈ m.held) :
    Machine.Inv { m.goto c (.freeing phys) with held := m.held.erase phys } := by
  have hself : (m.goto c (.freeing phys)).caller c = .freeing phys := Function.update_self ..
  have hother : ∀ c' ≠ c, (m.goto c (.freeing phys)).caller c' = m.caller c' :=
    fun c' hne => Function.update_of_ne hne ..
  have hcases : ∀ {c' phys'}, (m.goto c (.freeing phys)).caller c' = .freeing phys' →
      c' = c ∧ phys' = phys ∨ c' ≠ c ∧ m.caller c' = .freeing phys' := by
    intro c' phys' hc'
    by_cases hcc : c' = c
    · rw [hcc, hself] at hc'
      exact .inl ⟨hcc, (Caller.freeing.inj hc').symm⟩
    · rw [hother c' hcc] at hc'
      exact .inr ⟨hcc, hc'⟩
  -- nobody frees a frame that is held
  have hnone : ∀ c', m.caller c' ≠ .freeing phys := by
    intro c' hc'
    exact (h.freeing_taken c' phys hc').2 hheld
  refine
    { held_taken := ?_, held_nodup := h.held_nodup.erase phys, freeing_taken := ?_
      freeing_inj := ?_, outstanding := ?_, exclusive := h.exclusive, returned := h.returned }
  · intro phys' hmem
    exact h.held_taken phys' (List.mem_of_mem_erase hmem)
  · intro c' phys' hc'
    rcases hcases hc' with ⟨-, rfl⟩ | ⟨-, hc'⟩
    · exact ⟨h.held_taken _ hheld, h.held_nodup.not_mem_erase⟩
    · obtain ⟨htaken, hnot⟩ := h.freeing_taken c' phys' hc'
      exact ⟨htaken, mt List.mem_of_mem_erase hnot⟩
  · intro c₁ c₂ phys' h₁ h₂
    rcases hcases h₁ with ⟨hc₁, rfl⟩ | ⟨-, hbefore₁⟩
    · rcases hcases h₂ with ⟨hc₂, -⟩ | ⟨-, hbefore₂⟩
      · rw [hc₁, hc₂]
      · exact absurd hbefore₂ (hnone c₂)
    · rcases hcases h₂ with ⟨-, rfl⟩ | ⟨-, hbefore₂⟩
      · exact absurd hbefore₁ (hnone c₁)
      · exact h.freeing_inj c₁ c₂ phys' hbefore₁ hbefore₂
  · intro phys' hne hout
    by_cases heq : phys' = phys
    · exact .inr ⟨c, by rw [heq]; exact hself⟩
    · rcases h.outstanding phys' hne hout with hmem | ⟨c', hc'⟩
      · exact .inl ((List.mem_erase_of_ne heq).mpr hmem)
      · right
        refine ⟨c', ?_⟩
        show (m.goto c (.freeing phys)).caller c' = _
        rw [hother c', hc']
        rintro rfl
        rw [hc] at hc'
        cases hc'

/-- `free_frame` sets the bit. -/
theorem Machine.Inv.release (h : m.Inv) {phys : Nat} (hc : m.caller c = .freeing phys) :
    (m.release c phys).Inv := by
  -- the other callers still free what they freed, which is another frame
  have hcases : ∀ {c' phys'}, (m.release c phys).caller c' = .freeing phys' →
      m.caller c' = .freeing phys' ∧ phys ≠ phys' := by
    intro c' phys' hc'
    have hne : c' ≠ c := by
      rintro rfl
      rw [show (m.release c' phys).caller c' = .idle from Function.update_self ..] at hc'
      cases hc'
    rw [show (m.release c phys).caller c' = m.caller c' from Function.update_of_ne hne ..] at hc'
    refine ⟨hc', ?_⟩
    rintro rfl
    exact hne (h.freeing_inj c' c phys hc' hc)
  obtain ⟨-, hnot⟩ := h.freeing_taken c phys hc
  refine
    { held_taken := ?_, held_nodup := h.held_nodup, freeing_taken := ?_, freeing_inj := ?_
      outstanding := ?_, exclusive := ?_, returned := ?_ }
  · intro phys' hmem
    -- a held frame is not the one that is cleared
    apply (h.held_taken phys' hmem).freeFrame
    rintro rfl
    exact hnot hmem
  · intro c' phys' hc'
    obtain ⟨hc', hne⟩ := hcases hc'
    obtain ⟨htaken, hnot'⟩ := h.freeing_taken c' phys' hc'
    exact ⟨htaken.freeFrame hne, hnot'⟩
  · intro c₁ c₂ phys' h₁ h₂
    exact h.freeing_inj c₁ c₂ phys' (hcases h₁).1 (hcases h₂).1
  · intro phys' hne hout
    -- the release is logged, so its frame is no longer outstanding
    rcases hout.append with heq | ⟨hout, hfreed⟩
    · cases heq
    rcases h.outstanding phys' hne hout with hmem | ⟨c', hc'⟩
    · exact .inl hmem
    · right
      refine ⟨c', ?_⟩
      show Function.update m.caller c .idle c' = _
      rw [Function.update_of_ne, hc']
      rintro rfl
      rw [hc] at hc'
      exact hfreed (congrArg Op.freed (Caller.freeing.inj hc'))
  · apply h.exclusive.append
    intro phys' _ heq
    cases heq
  · intro phys' hne hmem
    rcases List.mem_append.mp hmem with hmem | hmem
    · exact h.returned phys' hne hmem
    · cases List.mem_singleton.mp hmem

theorem Machine.Inv.step (h : m.Inv) (e : Event κ) : (m.step e).Inv := by
  cases e with
  | alloc c =>
    cases hc : m.caller c with
    | idle =>
      simp only [Machine.step, hc]
      apply h.goto (.scanning 0) _ nofun
      intro phys hp
      rw [hc] at hp
      cases hp
    | _ =>
      simp only [Machine.step, hc]
      exact h
  | free c phys =>
    cases hc : m.caller c with
    | idle =>
      simp only [Machine.step, hc]
      split
      case isTrue hheld => exact h.callFree hc hheld
      case isFalse => exact h
    | _ =>
      simp only [Machine.step, hc]
      exact h
  | advance c =>
    cases hc : m.caller c with
    | idle =>
      simp only [Machine.step, hc]
      exact h
    | scanning i =>
      simp only [Machine.step, hc]
      exact h.scan hc
    | freeing phys =>
      simp only [Machine.step, hc]
      exact h.release hc

end Steps

/-! ### Exclusive frames -/

private theorem frameAt_managed {i : Nat} (hi : i < FRAME_COUNT) :
    frameAt i % PAGE_SIZE = 0 ∧ PHYS_BASE ≤ frameAt i ∧ frameAt i < PHYS_END := by
  simp only [FRAME_COUNT, frameAt, PHYS_BASE, PHYS_END, PAGE_SIZE] at *
  omega

theorem frame_exclusive (κ : Type) [DecidableEq κ] (es : List (Event κ)) :
    (∀ m ∈ states Machine.step (Machine.start κ) es,
      Exclusive m.log ∧ m.held.Nodup ∧
      ∀ phys ≠ 0, .returned phys ∈ m.log →
        phys % PAGE_SIZE = 0 ∧ PHYS_BASE ≤ phys ∧ phys < PHYS_END) ∧
    ∀ words phys i, testBit (freeFrame words phys) i ≠ testBit words i → phys = frameAt i := by
  constructor
  · intro m hm
    have hinv : m.Inv := invariant_states Machine.step Machine.Inv (fun _ _ => True)
      (fun _ e h _ => h.step e) _ es .start (fun _ _ => trivial) m hm
    refine ⟨hinv.exclusive, hinv.held_nodup, ?_⟩
    intro phys hne hmem
    obtain ⟨i, hi, rfl⟩ := hinv.returned phys hne hmem
    exact frameAt_managed hi
  · intro words phys i hchange
    by_cases hi : i < FRAME_COUNT
    · rw [testBit_freeFrame _ _ hi] at hchange
      by_contra hne
      simp [hne] at hchange
    · rw [testBit, testBit, if_pos (by omega), if_pos (by omega)] at hchange
      exact absurd rfl hchange

end RustKernel.Memory.FrameAllocator
