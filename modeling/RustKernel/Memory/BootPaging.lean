import RustKernel.Lib.PageWalk

/-!
# RustKernel.Memory.BootPaging

The page tables that the boot code builds, and `map_1gb_page`, which maps further gigabytes.

## Main results

`translate`: after the boot code and any `map_1gb_page` calls, what the processor makes of each
address: the last page that was mapped in its gigabyte, or itself in the first one.
`identity_iff`: the map is the identity exactly as long as no page from beyond 512 GiB is in it;
such a page lands 512 GiB below its address, or a multiple of it.

## Proof strategy

`Tables` lists the entries of the three tables. The loop of the boot code establishes it
(`setup_tables`), a call keeps it with one entry changed (`map1gbPage_tables`), and the walk only
looks at these entries.
-/

namespace RustKernel.Memory.BootPaging

open Lib Lib.PageWalk

/-- Where the tables are: `pml4`, `pdpt` and `pd`, one behind the other in `.bss`. -/
structure Place where
  pml4 : Nat
  aligned : pml4 % 4096 = 0
  below : pml4 + 3 * 4096 ≤ 2 ^ 32

def Place.pdpt (place : Place) : Nat := place.pml4 + 4096
def Place.pd (place : Place) : Nat := place.pml4 + 2 * 4096

/-- The loop `.fill_pd`, for the entries that are left. The registers are `ecx` and `eax`. -/
def fillPd (pd : Nat) : Nat → Nat → Nat → ByteStore → ByteStore
  | 0, _, _, mem => mem
  | left + 1, ecx, eax, mem =>
    fillPd pd left (ecx + 1) ((eax + 0x200000) % 2 ^ 32)
      (write32 (write32 mem (pd + ecx * 8) eax) (pd + ecx * 8 + 4) 0)

/-- The page tables for long mode, as the boot code sets them up. -/
def setup (place : Place) (mem : ByteStore) : ByteStore :=
  let mem := write32 mem place.pml4 (place.pdpt ||| 0x3)
  let mem := write32 mem place.pdpt (place.pd ||| 0x3)
  fillPd place.pd 512 0 0x83 mem

def pdptIdx (phys : UInt64) : Nat := ((phys >>> 30) &&& 0x1FF).toNat

def pageEntry (phys : UInt64) : UInt64 := (phys &&& 0xFFFFFFFFC0000000) ||| 0x83

/-- `map_1gb_page` -/
def map1gbPage (place : Place) (mem : ByteStore) (phys : UInt64) : ByteStore :=
  write64 mem (place.pdpt + 8 * pdptIdx phys) (pageEntry phys).toNat

/-- Memory after the boot code and some calls. -/
def mapped (place : Place) (mem : ByteStore) (calls : List UInt64) : ByteStore :=
  calls.foldl (map1gbPage place) (setup place mem)

/-- The page of the last call for an index. -/
def lastPage (calls : List UInt64) (i : Nat) : Option UInt64 :=
  calls.reverse.find? fun phys => pdptIdx phys = i

/-- The gigabyte that a page begins at, as far as an entry can say. -/
def gigabyte (phys : UInt64) : Nat := phys.toNat / 2 ^ 30 % 2 ^ 22 * 2 ^ 30

variable {place : Place}

/-! ### Entries -/

private theorem or_flags {a : Nat} (ha : a % 4096 = 0) : a ||| 0x3 = a + 3 := by
  obtain ⟨q, rfl⟩ := Nat.dvd_of_mod_eq_zero ha
  exact (Nat.two_pow_add_eq_or_of_lt (i := 12) (by decide : 3 < 2 ^ 12) q).symm

private theorem pdptIdx_eq (phys : UInt64) : pdptIdx phys = phys.toNat / 2 ^ 30 % 512 := by
  rw [pdptIdx, UInt64.toNat_and, UInt64.toNat_shiftRight]
  change phys.toNat >>> 30 &&& 2 ^ 9 - 1 = _
  rw [Nat.and_two_pow_sub_one_eq_mod, Nat.shiftRight_eq_div_pow]

private theorem pdptIdx_lt (phys : UInt64) : pdptIdx phys < 512 := by
  rw [pdptIdx_eq]
  exact Nat.mod_lt _ (by decide)

private theorem pageEntry_eq (phys : UInt64) :
    (pageEntry phys).toNat = phys.toNat / 2 ^ 30 * 2 ^ 30 + 0x83 := by
  have hmask : phys.toNat &&& 0xFFFFFFFFC0000000 = 2 ^ 30 * (phys.toNat / 2 ^ 30) := by
    have hones : 0xFFFFFFFFC0000000 = (2 ^ 34 - 1) <<< 30 := by decide
    have hsplit :
        phys.toNat &&& (2 ^ 34 - 1) <<< 30 = (phys.toNat >>> 30 &&& 2 ^ 34 - 1) <<< 30 := by
      apply Nat.eq_of_testBit_eq
      intro i
      simp only [Nat.testBit_and, Nat.testBit_shiftLeft, Nat.testBit_shiftRight]
      by_cases hi : 30 ≤ i
      · simp [hi, Nat.add_sub_cancel' hi]
      · simp [hi]
    have hlt : phys.toNat / 2 ^ 30 < 2 ^ 34 := by
      have hphys := phys.toNat_lt
      omega
    rw [hones, hsplit, Nat.and_two_pow_sub_one_eq_mod, Nat.shiftRight_eq_div_pow,
      Nat.mod_eq_of_lt hlt, Nat.shiftLeft_eq, Nat.mul_comm]
  rw [pageEntry, UInt64.toNat_or, UInt64.toNat_and]
  change phys.toNat &&& 0xFFFFFFFFC0000000 ||| 0x83 = _
  rw [hmask, ← Nat.two_pow_add_eq_or_of_lt (by decide : 0x83 < 2 ^ 30), Nat.mul_comm]

/-! ### What the boot code writes -/

private theorem entry_agree {lo hi : Nat} {mem mem' : ByteStore} (h : AgreeOutside lo hi mem mem')
    (table idx : Nat) (hout : table + 8 * idx + 8 ≤ lo ∨ hi ≤ table + 8 * idx) :
    entry mem' table idx = entry mem table idx := h.read64 _ hout

/-- The two halves of an entry, stored one after the other. -/
private theorem read64_halves (mem : ByteStore) (a v : Nat) (hv : v < 2 ^ 32) :
    read64 (write32 (write32 mem a v) (a + 4) 0) a = v := by
  have hlow : read32 (write32 (write32 mem a v) (a + 4) 0) a = read32 (write32 mem a v) a := by
    apply read32_congr
    intro b hlo hhi
    exact write32_agree _ (a + 4) 0 b (by omega)
  rw [read64_eq, hlow, read32_write32 mem a v hv, read32_write32 _ (a + 4) 0 (by decide)]
  omega

/-- The low half of an entry, stored where there was nothing. -/
private theorem read64_low (mem : ByteStore) (a v : Nat) (hv : v < 2 ^ 32)
    (hzero : ∀ b, a ≤ b → b < a + 8 → mem b = 0) : read64 (write32 mem a v) a = v := by
  have hwas := read64_zero hzero
  have hhigh : read32 (write32 mem a v) (a + 4) = read32 mem (a + 4) := by
    apply read32_congr
    intro b hlo hhi
    exact write32_agree mem a v b (by omega)
  rw [read64_eq] at hwas
  rw [read64_eq, read32_write32 mem a v hv, hhigh]
  omega

private theorem fillPd_agree (pd left ecx eax : Nat) (mem : ByteStore) :
    AgreeOutside (pd + 8 * ecx) (pd + 8 * (ecx + left)) mem (fillPd pd left ecx eax mem) := by
  induction left generalizing ecx eax mem with
  | zero => exact AgreeOutside.refl mem
  | succ left ih =>
    have hlow := write32_agree mem (pd + ecx * 8) eax
    have hhigh := write32_agree (write32 mem (pd + ecx * 8) eax) (pd + ecx * 8 + 4) 0
    have hrest := ih (ecx + 1) ((eax + 0x200000) % 2 ^ 32)
      (write32 (write32 mem (pd + ecx * 8) eax) (pd + ecx * 8 + 4) 0)
    exact ((hlow.mono (by omega) (by omega)).trans (hhigh.mono (by omega) (by omega))).trans
      (hrest.mono (by omega) (by omega))

/-- The entries that the loop fills: one large page after the other. -/
private theorem fillPd_entry (pd left ecx eax : Nat) (mem : ByteStore)
    (hfits : eax + left * 0x200000 < 2 ^ 32)
    (i : Nat) (hi : i < left) :
    entry (fillPd pd left ecx eax mem) pd (ecx + i) = eax + i * 0x200000 := by
  induction left generalizing ecx eax mem i with
  | zero => exact absurd hi (Nat.not_lt_zero i)
  | succ left ih =>
    have hnext : (eax + 0x200000) % 2 ^ 32 = eax + 0x200000 := Nat.mod_eq_of_lt (by omega)
    rw [fillPd, hnext]
    cases i with
    | zero =>
      -- the later entries leave this one alone
      have hplace : pd + 8 * (ecx + 0) = pd + ecx * 8 := by omega
      rw [entry_agree (fillPd_agree _ _ _ _ _) _ _ (.inl (by omega)), entry, hplace,
        read64_halves mem _ eax (by omega)]
      omega
    | succ i =>
      have hrest := ih (ecx + 1) (eax + 0x200000)
        (write32 (write32 mem (pd + ecx * 8) eax) (pd + ecx * 8 + 4) 0) (by omega) i (by omega)
      rw [show ecx + (i + 1) = ecx + 1 + i by omega, hrest]
      omega

/-- The entries of the three tables, with the pages `page` mapped by calls. -/
structure Tables (place : Place) (page : Nat → Option UInt64) (mem : ByteStore) : Prop where
  pml4 : entry mem place.pml4 0 = place.pdpt + 3
  pml4_rest : ∀ i, 0 < i → i < 512 → entry mem place.pml4 i = 0
  pdpt : ∀ i, i < 512 → entry mem place.pdpt i =
    match page i with
    | some phys => phys.toNat / 2 ^ 30 * 2 ^ 30 + 0x83
    | none => if i = 0 then place.pd + 3 else 0
  pd : ∀ i, i < 512 → entry mem place.pd i = 0x83 + i * 0x200000

theorem setup_tables (mem : ByteStore)
    (hzero : ∀ b, place.pml4 ≤ b → b < place.pml4 + 3 * 4096 → mem b = 0) :
    Tables place (fun _ => none) (setup place mem) := by
  have haligned := place.aligned
  have hbelow := place.below
  have hpdpt : place.pdpt = place.pml4 + 4096 := rfl
  have hpd : place.pd = place.pml4 + 8192 := rfl
  have hflags : place.pdpt ||| 0x3 = place.pdpt + 3 := or_flags (by omega)
  have hflags' : place.pd ||| 0x3 = place.pd + 3 := or_flags (by omega)
  -- the memory before the loop, and before the second of the two entries
  obtain ⟨mem₁, hmem₁⟩ : ∃ mem₁, mem₁ = write32 mem place.pml4 (place.pdpt + 3) := ⟨_, rfl⟩
  obtain ⟨mem₂, hmem₂⟩ : ∃ mem₂, mem₂ = write32 mem₁ place.pdpt (place.pd + 3) := ⟨_, rfl⟩
  have hsetup : setup place mem = fillPd place.pd 512 0 0x83 mem₂ := by
    rw [setup, hflags, hflags', hmem₂, hmem₁]
  have hagree₁ : AgreeOutside place.pml4 (place.pml4 + 4) mem mem₁ := hmem₁ ▸ write32_agree _ _ _
  have hagree₂ : AgreeOutside place.pdpt (place.pdpt + 4) mem₁ mem₂ := hmem₂ ▸ write32_agree _ _ _
  have hfill := fillPd_agree place.pd 512 0 0x83 mem₂
  have hzero₁ : ∀ b, place.pml4 + 4 ≤ b → b < place.pml4 + 3 * 4096 → mem₁ b = 0 := by
    intro b hlo hhi
    rw [hagree₁ b (.inr hlo)]
    exact hzero b (by omega) hhi
  rw [hsetup]
  constructor
  · rw [entry_agree hfill _ _ (.inl (by omega)), entry_agree hagree₂ _ _ (.inl (by omega)), entry,
      hmem₁]
    exact read64_low mem place.pml4 _ (by omega) fun b hlo hhi => hzero b hlo (by omega)
  · intro i hpos hi
    rw [entry_agree hfill _ _ (.inl (by omega)), entry_agree hagree₂ _ _ (.inl (by omega))]
    exact read64_zero fun b hlo hhi => hzero₁ b (by omega) (by omega)
  · intro i hi
    rw [entry_agree hfill _ _ (.inl (by omega))]
    by_cases hfirst : i = 0
    · subst hfirst
      rw [if_pos rfl, entry, hmem₂]
      exact read64_low mem₁ place.pdpt _ (by omega) fun b hlo hhi => hzero₁ b (by omega) (by omega)
    · rw [if_neg hfirst, entry_agree hagree₂ _ _ (.inr (by omega))]
      exact read64_zero fun b hlo hhi => hzero₁ b (by omega) (by omega)
  · intro i hi
    have hentry := fillPd_entry place.pd 512 0 0x83 mem₂ (by omega) i hi
    rwa [Nat.zero_add] at hentry

/-- A call changes the entry of its gigabyte. -/
theorem map1gbPage_tables {page : Nat → Option UInt64} {mem : ByteStore}
    (h : Tables place page mem) (phys : UInt64) :
    Tables place (fun i => if pdptIdx phys = i then some phys else page i)
      (map1gbPage place mem phys) := by
  have hidx := pdptIdx_lt phys
  have hpdpt : place.pdpt = place.pml4 + 4096 := rfl
  have hpd : place.pd = place.pml4 + 8192 := rfl
  have hagree : AgreeOutside (place.pdpt + 8 * pdptIdx phys) (place.pdpt + 8 * pdptIdx phys + 8) mem
      (map1gbPage place mem phys) := write64_agree _ _ _
  constructor
  · rw [entry_agree hagree _ _ (.inl (by omega))]
    exact h.pml4
  · intro i hpos hi
    rw [entry_agree hagree _ _ (.inl (by omega))]
    exact h.pml4_rest i hpos hi
  · intro i hi
    by_cases hsame : pdptIdx phys = i
    · subst hsame
      rw [if_pos rfl, entry, map1gbPage, read64_write64 _ _ _ (UInt64.toNat_lt _), pageEntry_eq]
    · rw [if_neg hsame, entry_agree hagree _ _ (by omega)]
      exact h.pdpt i hi
  · intro i hi
    rw [entry_agree hagree _ _ (.inr (by omega))]
    exact h.pd i hi

private theorem lastPage_concat (calls : List UInt64) (phys : UInt64) (i : Nat) :
    lastPage (calls ++ [phys]) i = if pdptIdx phys = i then some phys else lastPage calls i := by
  rw [lastPage, List.reverse_concat, List.find?_cons]
  by_cases hsame : pdptIdx phys = i
  · simp [hsame]
  · simp [hsame, lastPage]

private theorem mapped_tables (mem : ByteStore)
    (hzero : ∀ b, place.pml4 ≤ b → b < place.pml4 + 3 * 4096 → mem b = 0) (calls : List UInt64) :
    Tables place (lastPage calls) (mapped place mem calls) := by
  induction calls using List.reverseRecOn with
  | nil =>
    have hpage : lastPage [] = fun _ => none := rfl
    rw [hpage, mapped, List.foldl_nil]
    exact setup_tables mem hzero
  | append_singleton calls phys ih =>
    have hpage : lastPage (calls ++ [phys]) =
        fun i => if pdptIdx phys = i then some phys else lastPage calls i := by
      funext i
      exact lastPage_concat calls phys i
    have hmem :
        mapped place mem (calls ++ [phys]) = map1gbPage place (mapped place mem calls) phys := by
      rw [mapped, List.foldl_append, List.foldl_cons, List.foldl_nil, ← mapped]
    rw [hpage, hmem]
    exact map1gbPage_tables ih phys

/-! ### What the processor makes of it -/

/-- The translation with the pages `page`. -/
def translation (page : Nat → Option UInt64) (va : Nat) : Option Nat :=
  if 2 ^ 39 ≤ va then none
  else match page (va / 2 ^ 30) with
    | some phys => some (gigabyte phys + va % 2 ^ 30)
    | none => if va < 2 ^ 30 then some va else none

private theorem index_two {va : Nat} (hva : va < 2 ^ 39) : index 2 va = va / 2 ^ 30 := by
  change va / 2 ^ 30 % 512 = _
  omega

/-- A gigabyte with a page of its own. -/
private theorem walk_page {page : Nat → Option UInt64} {mem : ByteStore} (h : Tables place page mem)
    {va : Nat} (hva : va < 2 ^ 39) {phys : UInt64} (hpage : page (va / 2 ^ 30) = some phys) :
    walkFrom mem va 2 place.pdpt = some (gigabyte phys + va % 2 ^ 30) := by
  have hentry : entry mem place.pdpt (index 2 va) = phys.toNat / 2 ^ 30 * 2 ^ 30 + 0x83 := by
    rw [index_two hva, h.pdpt _ (by omega), hpage]
  have hframe : frame (shift 2) (phys.toNat / 2 ^ 30 * 2 ^ 30 + 0x83) = gigabyte phys := by
    change (phys.toNat / 2 ^ 30 * 2 ^ 30 + 0x83) / 2 ^ 30 % 2 ^ 22 * 2 ^ 30 =
      phys.toNat / 2 ^ 30 % 2 ^ 22 * 2 ^ 30
    omega
  rw [walkFrom_large, hentry, hframe]
  · rfl
  · rw [hentry, Present]
    omega
  · decide
  · rw [hentry, Large]
    omega

/-- The first gigabyte, as long as it has the page directory of the boot code. -/
private theorem walk_directory {page : Nat → Option UInt64} {mem : ByteStore}
    (h : Tables place page mem)
    {va : Nat} (hva : va < 2 ^ 30) (hpage : page 0 = none) :
    walkFrom mem va 2 place.pdpt = some va := by
  have haligned := place.aligned
  have hbelow := place.below
  have hpd : place.pd = place.pml4 + 8192 := rfl
  have hzero : index 2 va = 0 := by
    rw [index_two (by omega)]
    omega
  -- below 1 GiB the first entry leads to the directory, whose entries are pages of 2 MiB
  have hentry : entry mem place.pdpt (index 2 va) = place.pd + 3 := by
    rw [hzero, h.pdpt 0 (by decide), hpage, if_pos rfl]
  have hindex : index 1 va = va / 2 ^ 21 := by
    change va / 2 ^ 21 % 512 = _
    omega
  have hlarge : entry mem place.pd (index 1 va) = va / 2 ^ 21 * 2 ^ 21 + 0x83 := by
    rw [hindex, h.pd _ (by omega)]
    omega
  rw [walkFrom_table, hentry, frame_add (by decide) (by omega) (by omega) (by decide)]
  · rw [walkFrom_large, hlarge]
    · have hframe : frame (shift 1) (va / 2 ^ 21 * 2 ^ 21 + 0x83) = va / 2 ^ 21 * 2 ^ 21 :=
        frame_add (by decide) (by omega) (Nat.mul_mod_left _ (2 ^ 21)) (by decide)
      have hdiv : va / 2 ^ 21 * 2 ^ 21 + va % 2 ^ shift 1 = va := Nat.div_add_mod' va (2 ^ 21)
      rw [hframe, hdiv]
    · rw [hlarge, Present]
      omega
    · decide
    · rw [hlarge, Large]
      omega
  · rw [hentry, Present]
    omega
  · rw [hentry, Large]
    omega

/-- A gigabyte that nobody mapped. -/
private theorem walk_absent {page : Nat → Option UInt64} {mem : ByteStore}
    (h : Tables place page mem)
    {va : Nat} (hlow : 2 ^ 30 ≤ va) (hva : va < 2 ^ 39) (hpage : page (va / 2 ^ 30) = none) :
    walkFrom mem va 2 place.pdpt = none := by
  apply walkFrom_absent
  rw [index_two hva, h.pdpt _ (by omega), hpage, if_neg (by omega)]
  decide

private theorem walk_tables {page : Nat → Option UInt64} {mem : ByteStore}
    (h : Tables place page mem)
    {va : Nat} (hva : va < 2 ^ 48) : walk mem place.pml4 va = translation page va := by
  have haligned := place.aligned
  have hbelow := place.below
  have hpdpt : place.pdpt = place.pml4 + 4096 := rfl
  have hcr3 : frame 12 place.pml4 = place.pml4 :=
    frame_add (a := place.pml4) (f := 0) (by decide) (by omega) (by omega) (by decide)
  have hindex : index 3 va = va / 2 ^ 39 := by
    change va / 2 ^ 39 % 512 = _
    omega
  rw [walk, hcr3, translation]
  split
  case isTrue hhigh =>
    -- only the first entry of the top table is there
    apply walkFrom_absent
    rw [hindex, h.pml4_rest _ (by omega) (by omega)]
    decide
  case isFalse hhigh =>
    have hzero : index 3 va = 0 := by omega
    have htop : walkFrom mem va 3 place.pml4 = walkFrom mem va 2 place.pdpt := by
      rw [walkFrom_table, hzero, h.pml4, frame_add (by decide) (by omega) (by omega) (by decide)]
      · rw [hzero, h.pml4, Present]
        omega
      · simp
    rw [htop]
    split
    case h_1 phys hpage => exact walk_page h (by omega) hpage
    case h_2 hpage =>
      split
      case isTrue hlow =>
        have hgiga : va / 2 ^ 30 = 0 := by omega
        rw [hgiga] at hpage
        exact walk_directory h hlow hpage
      case isFalse hlow => exact walk_absent h (by omega) (by omega) hpage

/-- **Translation**: what the processor makes of every address after the boot code, which finds its
    tables cleared, and any calls of `map_1gb_page`. -/
theorem translate (place : Place) (mem : ByteStore)
    (hzero : ∀ b, place.pml4 ≤ b → b < place.pml4 + 3 * 4096 → mem b = 0) (calls : List UInt64)
    (va : Nat) (hva : va < 2 ^ 48) :
    walk (mapped place mem calls) place.pml4 va = translation (lastPage calls) va :=
  walk_tables (mapped_tables mem hzero calls) hva

private theorem pdptIdx_of_lastPage {calls : List UInt64} {i : Nat} {phys : UInt64}
    (h : lastPage calls i = some phys) : phys.toNat / 2 ^ 30 % 512 = i := by
  rw [← pdptIdx_eq]
  simpa using List.find?_some h

/-- **Identity map**: every address that is mapped stands for itself exactly if no page in use is
    from beyond 512 GiB. Physical addresses have 52 bits. -/
theorem identity_iff (place : Place) (mem : ByteStore)
    (hzero : ∀ b, place.pml4 ≤ b → b < place.pml4 + 3 * 4096 → mem b = 0) (calls : List UInt64)
    (hphys : ∀ phys ∈ calls, phys.toNat < 2 ^ 52) :
    (∀ va pa, va < 2 ^ 48 → walk (mapped place mem calls) place.pml4 va = some pa → pa = va) ↔
      ∀ i phys, lastPage calls i = some phys → phys.toNat < 2 ^ 39 := by
  constructor
  · -- the first address of a page from beyond 512 GiB is not its own
    intro h i phys hpage
    have hindex := pdptIdx_of_lastPage hpage
    have hlimit := hphys phys (List.mem_reverse.mp (List.mem_of_find?_eq_some hpage))
    have hva : i * 2 ^ 30 < 2 ^ 48 := by omega
    have hwalk := translate place mem hzero calls (i * 2 ^ 30) hva
    have hgiga : i * 2 ^ 30 / 2 ^ 30 = i := by omega
    rw [translation, if_neg (by omega), hgiga, hpage] at hwalk
    have hsame := h _ _ hva hwalk
    rw [gigabyte] at hsame
    omega
  · intro h va pa hva hwalk
    rw [translate place mem hzero calls va hva, translation] at hwalk
    split at hwalk
    · cases hwalk
    · split at hwalk
      case h_1 phys hpage =>
        have hlimit := h _ phys hpage
        have hindex := pdptIdx_of_lastPage hpage
        obtain rfl := Option.some.inj hwalk
        rw [gigabyte]
        omega
      case h_2 =>
        split at hwalk
        · exact (Option.some.inj hwalk).symm
        · cases hwalk

/-- The tables at 2 MiB. -/
def tablesAt2MiB : Place := ⟨0x200000, by decide, by decide⟩

theorem identity_framebuffer :
    (∀ va pa, va < 2 ^ 48 →
      walk (mapped tablesAt2MiB (fun _ => 0) [0xFD000000]) tablesAt2MiB.pml4 va = some pa →
        pa = va) ↔
      ∀ i phys, lastPage [0xFD000000] i = some phys → phys.toNat < 2 ^ 39 :=
  identity_iff tablesAt2MiB (fun _ => 0) (fun _ _ _ => rfl) [0xFD000000] (by
    intro phys hphys
    rw [List.mem_singleton.mp hphys]
    decide)

end RustKernel.Memory.BootPaging
