import RustKernel.Fs.CreatingPaths

/-!
# RustKernel.Fs.Releasing

Which bitmap bits `delete_file` clears.

In a group, bit `i` of the block bitmap stands for block `1 + g * blocks_per_group + i`.
`free_block` clears the bit that has the number of the block, always in group 0, and panics where
the bitmap has no such bit. So the bit of the first block of a file is never cleared, and a deletion
releases exactly the file's blocks only if there are none.

## Main results

- `deleteFile_outcome`: which bits a deletion clears, and how it fails, if the parent has no holes
- `deleteFile_releases_iff`: a deletion releases exactly the file exactly if the file has no blocks,
  or the deletion fails without an index out of range
-/

namespace RustKernel.Fs

open Lib

namespace Ext3Fs

variable {fs : Ext3Fs} {live : Set UInt32} {d d' d₁ d₂ : Drive} {n m : Inode} {i p : UInt32}
  {path name : String} {raw : List UInt8} {k : Nat}

/-! ### Freeing the blocks -/

variable (fs) in
/-- Before turn `k`: for each direct block below `k` the bit with its number has been cleared. -/
structure FreedBelow (d : Drive) (n : Inode) (k : Nat) (d' : Drive) : Prop where
  bits : fs.BitsChanged d d' (fs.place d (.blockBitmap 0)) fun j => fs.blockBit d 0 j &&
    !decide (∃ l < k, l < 12 ∧ n.pointer l ≠ 0 ∧ (n.pointer l).toNat = j)
  small : ∀ l < k, l < 12 → n.pointer l ≠ 0 → (n.pointer l).toNat < 8 * fs.blockSize

theorem FreedBelow.keptGroups (hg : fs.Grouped d) (h : fs.FreedBelow d n k d') :
    fs.KeptGroups d d' := hg.bitsChanged (blockBitmap_mem hg.groups) nofun h.bits

theorem FreedBelow.pass (h : fs.FreedBelow d n k d') (hnone : ¬(k < 12 ∧ n.pointer k ≠ 0)) :
    fs.FreedBelow d n (k + 1) d' where
  bits := by
    refine ⟨h.bits.healthy, h.bits.others, fun j => ?_⟩
    rw [h.bits.bits]
    congr 2
    apply decide_eq_decide.mpr
    constructor
    · rintro ⟨l, hl, hrest⟩
      exact ⟨l, by omega, hrest⟩
    · rintro ⟨l, hl, h12, hset, hj⟩
      refine ⟨l, Nat.lt_of_le_of_ne (by omega) ?_, h12, hset, hj⟩
      rintro rfl
      exact hnone ⟨h12, hset⟩
  small := by
    intro l hl h12 hset
    refine h.small l (Nat.lt_of_le_of_ne (by omega) ?_) h12 hset
    rintro rfl
    exact hnone ⟨h12, hset⟩

theorem FreedBelow.next (hg : fs.Grouped d) (h : fs.FreedBelow d n k d₁) (hk : k < 12)
    (hset : n.pointer k ≠ 0) (hsmall : (n.pointer k).toNat < 8 * fs.blockSize)
    (hbits : fs.BitsChanged d₁ d' (fs.place d₁ (.blockBitmap 0))
      fun j => fs.blockBit d₁ 0 j && !decide ((n.pointer k).toNat = j)) :
    fs.FreedBelow d n (k + 1) d' where
  bits := by
    have hplace := (h.keptGroups hg).place hg.sized (blockBitmap_mem hg.groups)
    rw [hplace] at hbits
    refine ⟨hbits.healthy, fun c hc => (hbits.others c hc).trans (h.bits.others c hc), fun j => ?_⟩
    rw [hbits.bits, blockBit, hplace, h.bits.bits, Bool.and_assoc, ← Bool.not_or, ← Bool.decide_or]
    congr 2
    apply decide_eq_decide.mpr
    constructor
    · rintro (⟨l, hl, hrest⟩ | hj)
      · exact ⟨l, by omega, hrest⟩
      · exact ⟨k, by omega, hk, hset, hj⟩
    · rintro ⟨l, hl, hrest⟩
      rcases Nat.lt_succ_iff_lt_or_eq.mp hl with hlt | rfl
      · exact .inl ⟨l, hlt, hrest⟩
      · exact .inr hrest.2.2
  small := by
    intro l hl h12 hne
    rcases Nat.lt_succ_iff_lt_or_eq.mp hl with hlt | rfl
    · exact h.small l hlt h12 hne
    · exact hsmall

/-- One turn, which panics at a block that the bitmap has no bit for. -/
private theorem freeDataBlock_outcome (hg : fs.Grouped d) (h : fs.FreedBelow d n k d₁) :
    Outcome (fs.freeDataBlock n k) d₁ (fun _ => fs.FreedBelow d n (k + 1))
      (fun e _ => e = .panic ∧ k < 12 ∧ n.pointer k ≠ 0 ∧ 8 * fs.blockSize ≤ (n.pointer k).toNat) := by
  rw [freeDataBlock]
  split
  case isFalse hnone => exact Outcome.pure (h.pass hnone)
  case isTrue hsome =>
    obtain ⟨hk, hset⟩ := hsome
    refine ((hg.of_kept (h.keptGroups hg)).freeBlock _).mono ?_ ?_
    · rintro _ d' ⟨hsmall, hbits⟩
      exact h.next hg hk hset hsmall hbits
    · rintro e _ ⟨hbig, -, rfl⟩
      exact ⟨rfl, hk, hset, hbig⟩

/-- The loop of `delete_file` over the blocks of the file. -/
private theorem freeDataBlocks_outcome (hg : fs.Grouped d) (n : Inode) :
    Outcome ((List.range' 0 ((n.size.toNat + fs.blockSize - 1) / fs.blockSize)).foldlM
        (fun _ blkIdx => fs.freeDataBlock n blkIdx) ()) d
      (fun _ d' => (∀ b ∈ fs.freedBlocks n 0, b.toNat < 8 * fs.blockSize) ∧
        fs.BitsChanged d d' (fs.place d (.blockBitmap 0))
          fun j => fs.blockBit d 0 j && !decide (∃ b ∈ fs.freedBlocks n 0, b.toNat = j))
      (fun e _ => e = .panic ∧ ∃ b ∈ fs.freedBlocks n 0, 8 * fs.blockSize ≤ b.toNat) := by
  set blocks := (n.size.toNat + fs.blockSize - 1) / fs.blockSize with hblocks
  have hstart : fs.FreedBelow d n 0 d := by
    refine ⟨⟨hg.healthy, fun _ _ => rfl, fun j => ?_⟩, fun l hl => absurd hl (Nat.not_lt_zero l)⟩
    have hnone : ¬∃ l < 0, l < 12 ∧ n.pointer l ≠ 0 ∧ (n.pointer l).toNat = j := by simp
    rw [decide_eq_false hnone, Bool.not_false, Bool.and_true, blockBit]
  -- after `k` turns the marks of the first `k` blocks are cleared
  have hloop := Outcome.foldlM (fun k (_ : Unit) => fs.FreedBelow d n k)
    (fun e _ => e = .panic ∧ ∃ b ∈ fs.freedBlocks n 0, 8 * fs.blockSize ≤ b.toNat) blocks 0 () d
    (fun k _ _ _ hk hI => (freeDataBlock_outcome hg hI).mono (fun _ _ hQ => hQ) ?_) hstart
  · refine hloop.mono (fun _ d' hfreed => ?_) fun _ _ hE => hE
    rw [Nat.zero_add] at hfreed
    refine ⟨fun b hb => ?_, hfreed.bits.healthy, hfreed.bits.others, fun j => ?_⟩
    · obtain ⟨hne, l, -, hl, h12, rfl⟩ := mem_freedBlocks.mp hb
      exact hfreed.small l hl h12 hne
    · rw [hfreed.bits.bits]
      congr 2
      apply decide_eq_decide.mpr
      constructor
      · rintro ⟨l, hl, h12, hne, hj⟩
        exact ⟨_, mem_freedBlocks.mpr ⟨hne, l, Nat.zero_le l, hl, h12, rfl⟩, hj⟩
      · rintro ⟨b, hb, hj⟩
        obtain ⟨hne, l, -, hl, h12, rfl⟩ := mem_freedBlocks.mp hb
        exact ⟨l, hl, h12, hne, hj⟩
  · rintro e _ ⟨hpanic, h12, hne, hbig⟩
    exact ⟨hpanic, _, mem_freedBlocks.mpr ⟨hne, k, Nat.zero_le k, by omega, h12, rfl⟩, hbig⟩

/-! ### Freeing the inode -/

variable (fs) in
/-- The bits of the direct blocks of `n`, as the code takes them, and of the inode `i` have been
    cleared, and nothing else has changed. -/
structure Vacated (d : Drive) (i : UInt32) (n : Inode) (d' : Drive) : Prop where
  kept : fs.KeptGroups d d'
  others : ∀ c, c ≠ fs.place d (.blockBitmap 0) →
    c ≠ fs.place d (.inodeBitmap (fs.inodeGroup i)) → fs.block d' c = fs.block d c
  blockBits : ∀ g < fs.bgCount.toNat, ∀ j, fs.blockBit d' g j =
    (fs.blockBit d g j && !decide (g = 0 ∧ ∃ b ∈ fs.freedBlocks n 0, b.toNat = j))
  inodeBits : ∀ g < fs.bgCount.toNat, ∀ j, fs.inodeBit d' g j =
    (fs.inodeBit d g j && !decide (fs.inodeGroup i = g ∧ fs.inodeIndex i = j))

theorem Vacated.of_steps (hg : fs.Grouped d) (hi : fs.InodeNumber i)
    (hblocks : fs.BitsChanged d d₁ (fs.place d (.blockBitmap 0))
      fun j => fs.blockBit d 0 j && !decide (∃ b ∈ fs.freedBlocks n 0, b.toNat = j))
    (hinode : fs.BitsChanged d₁ d' (fs.place d₁ (.inodeBitmap (fs.inodeGroup i)))
      fun j => fs.inodeBit d₁ (fs.inodeGroup i) j && !decide (fs.inodeIndex i = j)) :
    fs.Vacated d i n d' := by
  have hblockMem := blockBitmap_mem hg.groups
  have hinodeMem := inodeBitmap_mem (inodeGroup_lt hi)
  have hkept₁ := hg.bitsChanged hblockMem (by simp) hblocks
  have hkept := hkept₁.trans ((hg.of_kept hkept₁).bitsChanged hinodeMem (by simp) hinode)
  have hplace := hkept₁.place hg.sized hinodeMem
  -- another block of metadata is that of one of the steps
  have hafter : ∀ m ∈ fs.metaBlocks, m ≠ .inodeBitmap (fs.inodeGroup i) →
      fs.block d' (fs.place d' m) = fs.block d₁ (fs.place d m) := by
    intro m hm hne
    rw [hkept.place hg.sized hm]
    apply hinode.others
    rw [hplace]
    exact hg.place_ne hm hinodeMem hne
  have hbefore : ∀ m ∈ fs.metaBlocks, m ≠ .blockBitmap 0 →
      fs.block d₁ (fs.place d m) = fs.block d (fs.place d m) :=
    fun m hm hne => hblocks.others _ (hg.place_ne hm hblockMem hne)
  refine ⟨hkept, fun c hc hc' => ?_, fun g hlt j => ?_, fun g hlt j => ?_⟩
  · rw [hinode.others c (by rwa [hplace]), hblocks.others c hc]
  · have hm := blockBitmap_mem hlt
    rw [blockBit, hafter _ hm (by simp)]
    by_cases hzero : g = 0
    · subst hzero
      rw [hblocks.bits]
      simp
    · rw [hbefore _ hm (by simpa using hzero), ← blockBit]
      simp [hzero]
  · have hm := inodeBitmap_mem hlt
    by_cases hsame : fs.inodeGroup i = g
    · subst hsame
      rw [inodeBit, hkept.place hg.sized hm, ← hplace, hinode.bits, inodeBit, hplace,
        hbefore _ hm (by simp), inodeBit]
      simp
    · rw [inodeBit, hafter _ hm (by simpa using Ne.symm hsame), hbefore _ hm (by simp), inodeBit]
      simp [hsame]

namespace Vacated

/-- The blocks of a live inode are untouched. -/
private theorem block_refs (hc : fs.GroupConsistent live d) (h : fs.Vacated d i n d')
    (hi : fs.InodeNumber i) (hp : p ∈ live) :
    ∀ b ∈ fs.refs d (fs.inodeOf d p), fs.block d' b = fs.block d b := by
  intro b hb
  have houtside := hc.outside p hp b hb
  exact h.others b (houtside _ (blockBitmap_mem hc.groups))
    (houtside _ (inodeBitmap_mem (inodeGroup_lt hi)))

theorem contents (hc : fs.GroupConsistent live d) (h : fs.Vacated d i n d')
    (hi : fs.InodeNumber i) (hp : p ∈ live) :
    fs.readFileInode d' (fs.inodeOf d p) = fs.readFileInode d (fs.inodeOf d p) :=
  readFileInode_congr hc.sized hc.healthy h.kept.healthy (hc.refs_reached p hp)
    (h.block_refs hc hi hp)

/-- A file that misses no block may be written, although wrong bits have been cleared. -/
theorem writable (hc : fs.GroupConsistent live d) (h : fs.Vacated d i n d')
    (hi : fs.InodeNumber i) (hp : p ∈ live) (hwhole : missing (fs.inodeOf d p) k = 0) :
    fs.Writable d' (fs.inodeOf d p) k := by
  have hrefs : fs.refs d' (fs.inodeOf d p) = fs.refs d (fs.inodeOf d p) :=
    refs_congr (h.block_refs hc hi hp)
  have hnone : fs.grantedBits d' (fs.inodeOf d p) k = [] := by
    rw [grantedBits, hwhole, List.take_zero]
  constructor
  · rw [hrefs]
    exact hc.refs_nodup p hp
  · rw [hrefs]
    exact hc.refs_reached p hp
  · intro b hb m hm
    rw [hrefs] at hb
    rw [h.kept.place hc.sized hm]
    exact hc.outside p hp b hb m hm
  · rw [hnone]
    exact fun _ hk => absurd hk List.not_mem_nil

end Vacated

/-! ### Removing the entry -/

/-- The entry is removed if the search finds it and the directory can be written. -/
private theorem dirRemoveEntry_outcome (hg : fs.Grouped d)
    (hw : fs.Writable d m (fs.blockCount raw.length))
    (hraw : fs.readFileInode d m = .ok raw) (name : String) :
    Outcome (fs.dirRemoveEntry m name) d
      (fun r d' => findEntry raw raw.length name 0 ≠ none ∧ fs.Fits d m raw.length ∧
        ∃ raw', raw'.length = raw.length ∧ fs.Wrote d m raw' r.1 d')
      (fun e _ => (∃ msg, e = .error msg) ∧
        (findEntry raw raw.length name 0 = none ∨ ¬fs.Fits d m raw.length)) := by
  have hlen := length_readFileInode hg.sized hraw
  rw [dirRemoveEntry]
  refine Outcome.bind_read hraw ?_
  rw [← hlen]
  -- the search decides whether anything is written
  cases hfind : findEntry raw raw.length name 0 with
  | none =>
    refine Outcome.bind_reading (fun _ hok => ?_) fun e herr => ?_
    · rw [removeEntry, hfind] at hok
      cases hok
    · rw [removeEntry, hfind] at herr
      exact ⟨⟨_, (Except.error.inj herr).symm⟩, .inl rfl⟩
  | some found =>
    refine Outcome.bind_reading (fun removed hok => ?_) fun e herr => ?_
    · obtain ⟨raw', ino⟩ := removed
      have hlen' := length_removeEntry hok
      rw [← hlen'] at hw
      dsimp only
      refine ((writeFileData_outcome hg fun _ => hw).mono (fun _ _ h => h) ?_).bind ?_
      -- the contents keep their length, so nothing is freed
      · rintro e _ (⟨-, hshrunk, -⟩ | ⟨hfull, hmsg, -⟩)
        · omega
        · rw [hlen'] at hfull
          exact ⟨hmsg, .inr hfull⟩
      · rintro m' d' ⟨-, hfits, hwrote⟩
        rw [hlen'] at hfits
        exact Outcome.pure ⟨Option.some_ne_none _, hfits, raw', hlen', hwrote (by omega)⟩
    · rw [removeEntry, hfind] at herr
      cases herr

/-- The search finds nothing, or the directory is too large to be written. -/
private theorem dirRemoveEntry_fails (hg : fs.Grouped d) (hraw : fs.readFileInode d m = .ok raw)
    (hbad : findEntry raw raw.length name 0 = none ∨ 12 * fs.blockSize < raw.length) :
    Outcome (fs.dirRemoveEntry m name) d (fun _ _ => False) (fun e _ => ∃ msg, e = .error msg) := by
  have hlen := length_readFileInode hg.sized hraw
  rw [dirRemoveEntry]
  refine Outcome.bind_read hraw ?_
  rw [← hlen]
  refine Outcome.bind_reading (fun ⟨raw', ino⟩ hok => ?_) fun e herr => ?_
  -- where the entry is found the directory is too long, and no block beyond the 12th can be written
  · have hlarge : 12 * fs.blockSize < raw'.length := by
      rw [length_removeEntry hok]
      refine hbad.resolve_left fun hnone => ?_
      rw [removeEntry, hnone] at hok
      cases hok
    have hblocks : (raw'.length + fs.blockSize - 1) / fs.blockSize = fs.blockCount raw'.length :=
      rfl
    dsimp only
    rw [writeFileData]
    simp only [hblocks, bind_assoc]
    refine ((growBlocks_outcome hg m raw'.length).mono (fun _ _ h => h) fun e _ h => ?_).bind ?_
    · exact h.2.1
    · rintro _ _ ⟨⟨hdirect, -⟩, -⟩
      have hmany := hg.sized.lt_blocks_iff.mpr hlarge
      rw [blockCount] at hdirect
      omega
  · rw [removeEntry] at herr
    split at herr
    · exact ⟨_, (Except.error.inj herr).symm⟩
    · cases herr

/-! ### The whole of `delete_file` -/

section Whole

variable {parent : String} {ft ft' : UInt8} {Q : Unit → Drive → Prop} {E : Failure → Drive → Prop}

/-- Once the blocks and the inode have been freed, the entry is removed. -/
private theorem deleteFile_vacated (hc : fs.GroupConsistent live d)
    (hsplit : splitParent path = .ok (parent, name)) (hparent : fs.walk d 2 parent = .ok (p, m, ft))
    (hpath : fs.walk d 2 path = .ok (i, n, ft')) (hfile : n.isDir = false)
    (hpanic : ∀ b ∈ fs.freedBlocks n 0, 8 * fs.blockSize ≤ b.toNat → ∀ t, E .panic t)
    (hrest : ∀ d₂, (∀ b ∈ fs.freedBlocks n 0, b.toNat < 8 * fs.blockSize) → fs.Vacated d i n d₂ →
      Outcome (fs.dirRemoveEntry m name >>= fun r => fs.writeInode p r.1) d₂ Q E) :
    Outcome (fs.deleteFile path) d Q E := by
  have hi := hc.valid i (hc.walk_live hpath).1
  rw [deleteFile]
  refine Outcome.bind_read hsplit (Outcome.bind_read hparent (Outcome.bind_read hpath ?_))
  dsimp only
  rw [if_neg (by simp [hfile])]
  refine ((freeDataBlocks_outcome hc.toGrouped n).mono (fun _ _ h => h) ?_).bind ?_
  · rintro e t ⟨rfl, b, hb, hbig⟩
    exact hpanic b hb hbig t
  rintro _ d₁ ⟨hsmall, hblocks⟩
  have hg₁ := hc.toGrouped.of_kept
    (hc.toGrouped.bitsChanged (blockBitmap_mem hc.groups) nofun hblocks)
  have hmark := hc.inode_marked i (hc.walk_live hpath).1
  obtain ⟨d₂, hexec, hinode⟩ := hg₁.freeInode hi (hmark.index_lt hc.sized)
  exact Outcome.bind_exec hexec (hrest d₂ hsmall (.of_steps hc.toGrouped hi hblocks hinode))

/-- The parent can be read: it is a directory, or the file itself with a slash behind its name. -/
private theorem exists_parent_contents (hc : fs.GroupConsistent live d)
    (hsplit : splitParent path = .ok (parent, name)) (hparent : fs.walk d 2 parent = .ok (p, m, ft))
    (hpath : fs.walk d 2 path = .ok (i, n, ft')) {data : List UInt8}
    (hread : fs.readFileInode d n = .ok data) : ∃ raw, fs.readFileInode d m = .ok raw := by
  have hcomps := splitSlash_of_splitParent hsplit
  by_cases hempty : name = ""
  · subst hempty
    rw [walk_of_last_empty 2 hcomps, hparent] at hpath
    obtain ⟨rfl, rfl, -⟩ := Except.ok.inj hpath
    exact ⟨data, hread⟩
  · have hdir := isDir_of_walk_last hcomps hempty hparent hpath
    obtain ⟨hp, rfl, -⟩ := hc.walk_live hparent
    obtain ⟨rs, hraw, -⟩ := hc.dirs p hp hdir
    exact ⟨_, hraw⟩

/-- A deletion whose parent has no holes. -/
theorem deleteFile_outcome (hc : fs.GroupConsistent live d)
    (hsplit : splitParent path = .ok (parent, name)) (hparent : fs.walk d 2 parent = .ok (p, m, ft))
    (hpath : fs.walk d 2 path = .ok (i, n, ft')) (hfile : n.isDir = false)
    (hraw : fs.readFileInode d m = .ok raw) (hwhole : missing m (fs.blockCount raw.length) = 0) :
    Outcome (fs.deleteFile path) d
      (fun _ d' =>
        (∀ g < fs.bgCount.toNat, ∀ j, fs.blockBit d' g j =
          (fs.blockBit d g j && !decide (g = 0 ∧ ∃ b ∈ fs.freedBlocks n 0, b.toNat = j))) ∧
        (∀ g < fs.bgCount.toNat, ∀ j, fs.inodeBit d' g j =
          (fs.inodeBit d g j && !decide (fs.inodeGroup i = g ∧ fs.inodeIndex i = j))))
      (fun e _ => (e = .panic ∧ ∃ b ∈ fs.freedBlocks n 0, 8 * fs.blockSize ≤ b.toNat) ∨
        (∃ msg, e = .error msg) ∧ (∀ b ∈ fs.freedBlocks n 0, b.toNat < 8 * fs.blockSize) ∧
          (findEntry raw raw.length name 0 = none ∨ 12 * fs.blockSize < raw.length)) := by
  obtain ⟨hp, rfl, -⟩ := hc.walk_live hparent
  have hi := hc.valid i (hc.walk_live hpath).1
  refine deleteFile_vacated hc hsplit hparent hpath hfile (fun b hb hbig _ => .inl ⟨rfl, b, hb, hbig⟩)
    fun d₂ hsmall hvacated => ?_
  have hg₂ := hc.toGrouped.of_kept hvacated.kept
  have hw := hvacated.writable hc hi hp hwhole
  have hraw₂ := (hvacated.contents hc hi hp).trans hraw
  refine ((dirRemoveEntry_outcome hg₂ hw hraw₂ name).mono (fun _ _ h => h) ?_).bind ?_
  · rintro e _ ⟨hmsg, hfails⟩
    refine .inr ⟨hmsg, hsmall, hfails.imp_right fun hfull => ?_⟩
    by_contra hle
    apply hfull
    refine ⟨?_, ?_⟩
    · by_contra hmany
      exact hle (hc.sized.lt_blocks_iff.mp (by rwa [Nat.not_le] at hmany))
    · rw [hwhole]
      exact Nat.zero_le _
  rintro ⟨m', ino⟩ d₃ ⟨-, -, raw', hlen, hwrote⟩
  rw [← hlen] at hw hwhole
  obtain ⟨d', hexec, hset⟩ := (hg₂.of_kept (hwrote.keptGroups hg₂ hw)).writeInode (hc.valid p hp) m'
  -- the directory gets no block
  have hnone : fs.grantedBits d₂ (fs.inodeOf d p) (fs.blockCount raw'.length) = [] := by
    rw [grantedBits, hwhole, List.take_zero]
  refine Outcome.of_exec hexec ⟨fun g hg j => ?_, fun g hg j => ?_⟩
  · rw [hwrote.blockBit_set hg₂ hw (hc.valid p hp) hset hg, hnone, hvacated.blockBits g hg]
    simp
  · rw [hwrote.inodeBit_set hg₂ hw (hc.valid p hp) hset hg, hvacated.inodeBits g hg]

/-- A deletion that cannot remove the entry fails. -/
private theorem deleteFile_fails (hc : fs.GroupConsistent live d)
    (hsplit : splitParent path = .ok (parent, name)) (hparent : fs.walk d 2 parent = .ok (p, m, ft))
    (hpath : fs.walk d 2 path = .ok (i, n, ft')) (hfile : n.isDir = false)
    (hraw : fs.readFileInode d m = .ok raw)
    (hsmall : ∀ b ∈ fs.freedBlocks n 0, b.toNat < 8 * fs.blockSize)
    (hbad : findEntry raw raw.length name 0 = none ∨ 12 * fs.blockSize < raw.length) :
    Outcome (fs.deleteFile path) d (fun _ _ => False) (fun e _ => ∃ msg, e = .error msg) := by
  obtain ⟨hp, rfl, -⟩ := hc.walk_live hparent
  have hi := hc.valid i (hc.walk_live hpath).1
  refine deleteFile_vacated hc hsplit hparent hpath hfile (fun b hb hbig _ => ?_)
    fun d₂ _ hvacated => ?_
  · have hlt := hsmall b hb
    omega
  · have hraw₂ := (hvacated.contents hc hi hp).trans hraw
    have hremove := dirRemoveEntry_fails (hc.toGrouped.of_kept hvacated.kept) hraw₂ hbad
    exact hremove.bind fun _ _ hfalse => hfalse.elim

end Whole

/-! ### Releasing exactly the file -/

variable (fs) in
/-- The direct blocks of a file, its single-indirect block and the blocks listed in it. -/
def fileBlocks (d : Drive) (n : Inode) : List UInt32 := (List.range 13).flatMap (fs.pointerBlocks d n)

private theorem mem_fileBlocks {b : UInt32} :
    b ∈ fs.fileBlocks d n ↔ ∃ j < 13, b ∈ fs.pointerBlocks d n j := by
  simp [fileBlocks, List.mem_flatMap]

private theorem fileBlocks_subset : fs.fileBlocks d n ⊆ fs.refs d n := by
  intro b hb
  obtain ⟨j, hj, hmem⟩ := mem_fileBlocks.mp hb
  exact mem_refs.mpr ⟨j, by omega, hmem⟩

private theorem freedBlocks_subset : fs.freedBlocks n 0 ⊆ fs.fileBlocks d n := by
  intro b hb
  obtain ⟨hne, j, -, -, hj, rfl⟩ := mem_freedBlocks.mp hb
  exact mem_fileBlocks.mpr ⟨j, by omega, (mem_pointerBlocks_direct hj).mpr ⟨hne, rfl⟩⟩

/-- The mark of the file's first block stays: no block of the file has the number of its bit. -/
private theorem exists_mark_kept (hm : fs.GroupMarked live d) (hi : i ∈ live)
    (hsome : fs.fileBlocks d (fs.inodeOf d i) ≠ []) :
    ∃ b ∈ fs.fileBlocks d (fs.inodeOf d i), fs.Marked d b ∧
      ¬(fs.blockGroup b = 0 ∧
        ∃ e ∈ fs.freedBlocks (fs.inodeOf d i) 0, e.toNat = fs.blockIndex b) := by
  obtain ⟨b₀, hb₀⟩ := List.exists_mem_of_ne_nil _ hsome
  obtain ⟨b, hb, hmin⟩ := Finset.exists_min_image (fs.fileBlocks d (fs.inodeOf d i)).toFinset
    UInt32.toNat ⟨b₀, List.mem_toFinset.mpr hb₀⟩
  rw [List.mem_toFinset] at hb
  have hmarked := hm.blocks i hi b (fileBlocks_subset hb)
  refine ⟨b, hb, hmarked, ?_⟩
  rintro ⟨hgroup, e, he, hindex⟩
  have hle := hmin e (List.mem_toFinset.mpr (freedBlocks_subset he))
  have hpos := hmarked.1
  -- in group 0 the bit of a block has the number before it
  rw [blockGroup, Nat.div_eq_zero_iff] at hgroup
  rcases hgroup with hzero | hlt
  · rw [blockIndex, hzero, Nat.mod_zero] at hindex
    omega
  · rw [blockIndex, Nat.mod_eq_of_lt hlt] at hindex
    omega

variable (fs) in
/-- The bits of the file's blocks and of its inode have been cleared, and no other. -/
structure ClearedExactly (d : Drive) (i : UInt32) (n : Inode) (d' : Drive) : Prop where
  blocks : ∀ g < fs.bgCount.toNat, ∀ j, fs.blockBit d' g j = (fs.blockBit d g j &&
    !decide (∃ b ∈ fs.fileBlocks d n, fs.blockGroup b = g ∧ fs.blockIndex b = j))
  inodes : ∀ g < fs.bgCount.toNat, ∀ j, fs.inodeBit d' g j = (fs.inodeBit d g j &&
    !decide (fs.inodeGroup i = g ∧ fs.inodeIndex i = j))

variable (fs) in
/-- `delete_file` does not panic, and if it returns, it has released exactly the file. -/
def ReleasesExactly (d : Drive) (path : String) (i : UInt32) (n : Inode) : Prop :=
  ((fs.deleteFile path).exec d).1 ≠ .error .panic ∧
    ∀ d', (fs.deleteFile path).exec d = (.ok (), d') → fs.ClearedExactly d i n d'

variable (fs) in
/-- The parent of the path misses no block within its size. -/
def ParentWhole (d : Drive) (path : String) : Prop :=
  ∀ parent name p m ft, splitParent path = .ok (parent, name) →
    fs.walk d 2 parent = .ok (p, m, ft) → missing m (fs.blockCount m.size.toNat) = 0

variable (fs) in
/-- Whenever the path has a parent: the file has no blocks, and the parent no holes; or each block
    freed has a bit in the bitmap, but the entry cannot be removed, since the search does not find
    it or the parent has more than 12 blocks. -/
def ReleaseGuard (d : Drive) (path : String) (n : Inode) : Prop :=
  ∀ parent name p m ft, splitParent path = .ok (parent, name) →
    fs.walk d 2 parent = .ok (p, m, ft) →
      (fs.fileBlocks d n = [] ∧ missing m (fs.blockCount m.size.toNat) = 0) ∨
      (∀ b ∈ fs.freedBlocks n 0, b.toNat < 8 * fs.blockSize) ∧
        (12 * fs.blockSize < m.size.toNat ∨
          ∀ raw, fs.readFileInode d m = .ok raw → findEntry raw m.size.toNat name 0 = none)

private theorem ReleasesExactly.of_outcome
    (h : Outcome (fs.deleteFile path) d (fun _ => fs.ClearedExactly d i n)
      (fun e _ => ∃ msg, e = .error msg)) : fs.ReleasesExactly d path i n := by
  constructor
  · intro hpanic
    obtain ⟨msg, hmsg⟩ := h.failed (Fallible.exec_eq_of_fst hpanic)
    cases hmsg
  · intro d' hexec
    exact h.ok hexec

/-- **A deletion releases exactly the file** if its guard holds, and only then if the parent has no
    holes. -/
theorem deleteFile_releases_iff (hc : fs.GroupConsistent live d) (hm : fs.GroupMarked live d)
    {ft : UInt8}
    (hpath : fs.walk d 2 path = .ok (i, n, ft)) {data : List UInt8}
    (hread : fs.readFile d path = .ok data) :
    (fs.ReleaseGuard d path n → fs.ReleasesExactly d path i n) ∧
      (fs.ParentWhole d path → fs.ReleasesExactly d path i n → fs.ReleaseGuard d path n) := by
  rw [readFile_of_walk hpath] at hread
  obtain ⟨hfile, hread⟩ : n.isDir = false ∧ fs.readFileInode d n = .ok data := by
    split at hread
    case isTrue => cases hread
    case isFalse hnotdir => exact ⟨by simpa using hnotdir, hread⟩
  constructor
  · intro hguard
    apply ReleasesExactly.of_outcome
    cases hsplit : splitParent path with
    | error e =>
      -- a path without a parent is refused
      rw [deleteFile]
      refine Outcome.bind_reading (fun found hok => ?_) fun e' herr => ⟨_, splitParent_error herr⟩
      rw [hsplit] at hok
      cases hok
    | ok found =>
      obtain ⟨parent, name⟩ := found
      obtain ⟨⟨p, m, ft'⟩, hparent⟩ := exists_walk_parent (splitSlash_of_splitParent hsplit) hpath
      obtain ⟨raw, hraw⟩ := exists_parent_contents hc hsplit hparent hpath hread
      have hlen := length_readFileInode hc.sized hraw
      rcases hguard parent name p m ft' hsplit hparent with ⟨hnone, hwhole⟩ | ⟨hsmall, hbad⟩
      · rw [← hlen] at hwhole
        have hfreed : ∀ b, b ∉ fs.freedBlocks n 0 := by
          intro b hb
          have hmem := freedBlocks_subset (d := d) hb
          rw [hnone] at hmem
          cases hmem
        refine (deleteFile_outcome hc hsplit hparent hpath hfile hraw hwhole).mono ?_ ?_
        · rintro _ d' ⟨hblocks, hinodes⟩
          refine ⟨fun g hg j => ?_, hinodes⟩
          rw [hblocks g hg, hnone]
          simp [hfreed]
        · rintro e _ (⟨-, b, hb, -⟩ | ⟨hmsg, -⟩)
          · exact absurd hb (hfreed b)
          · exact hmsg
      · refine (deleteFile_fails hc hsplit hparent hpath hfile hraw hsmall ?_).mono
          (fun _ _ h => h.elim) fun _ _ h => h
        rw [← hlen] at hbad
        exact hbad.symm.imp_left fun hnone => hnone raw hraw
  · rintro hwhole ⟨hpanic, hcleared⟩ parent name p m ft' hsplit hparent
    obtain ⟨raw, hraw⟩ := exists_parent_contents hc hsplit hparent hpath hread
    have hlen := length_readFileInode hc.sized hraw
    have hmissing := hwhole parent name p m ft' hsplit hparent
    by_cases hnone : fs.fileBlocks d n = []
    · exact .inl ⟨hnone, hmissing⟩
    right
    rw [← hlen] at hmissing ⊢
    have houtcome := deleteFile_outcome hc hsplit hparent hpath hfile hraw hmissing
    rcases hexec : (fs.deleteFile path).exec d with ⟨e | _, d'⟩
    · rcases houtcome.failed hexec with ⟨rfl, -⟩ | ⟨-, hsmall, hbad⟩
      · exact absurd (congrArg Prod.fst hexec) hpanic
      · refine ⟨hsmall, hbad.symm.imp_right fun hfind raw' hraw' => ?_⟩
        obtain rfl := Except.ok.inj (hraw.symm.trans hraw')
        exact hfind
    · -- the first block is still marked
      obtain ⟨hi, rfl, -⟩ := hc.walk_live hpath
      obtain ⟨b, hb, ⟨-, hgroup, hset⟩, hkept⟩ := exists_mark_kept hm hi hnone
      have hclear := (hcleared d' hexec).blocks _ hgroup (fs.blockIndex b)
      rw [(houtcome.ok hexec).1 _ hgroup, hset, decide_eq_false hkept,
        decide_eq_true ⟨b, hb, rfl, rfl⟩] at hclear
      cases hclear

end Ext3Fs

/-! ### An empty file, and one with a block -/

namespace Sample

/-- A new file has no blocks yet. -/
theorem empty_file_released :
    ∃ ino, fs.ReleasesExactly ((fs.createFile "/d/h").exec diskWithFiles).2 "/d/h" ino
      Ext3Fs.emptyFile := by
  have hspare := groupMarked_diskWithFiles.writeSpare "/d/h" []
  obtain ⟨t, ino, d₁, hexec, hcreated⟩ := Ext3Fs.createFile_returns groupConsistent_diskWithFiles
    creatable_h hspare.entry freeInodes_diskWithFiles fits_h
  have hparent₀ : (fs.walk ((fs.createFile "/d/h").exec diskWithFiles).2 2 "/d").map
      (fun found => Ext3Fs.missing found.2.1 (fs.blockCount found.2.1.size.toNat)) = .ok 0 := by
    decide +kernel
  rw [hexec] at hparent₀ ⊢
  have hpath := hcreated.walk_path
  rw [if_pos (by decide)] at hpath
  have hread : fs.readFile t "/d/h" = .ok [] := by
    rw [Ext3Fs.readFile_of_walk hpath]
    rfl
  refine ⟨ino, (Ext3Fs.deleteFile_releases_iff hcreated.consistent
    (hcreated.groupMarked groupMarked_diskWithFiles) hpath hread).1 ?_⟩
  intro parent name p m ft hsplit hparent
  have hsplit₀ : Ext3Fs.splitParent "/d/h" = .ok ("/d", "h") := by decide
  obtain ⟨rfl, rfl⟩ := Prod.mk.inj (Except.ok.inj (hsplit₀.symm.trans hsplit))
  rw [hparent] at hparent₀
  refine .inl ⟨List.eq_nil_iff_forall_not_mem.mpr fun b hb => ?_, Except.ok.inj hparent₀⟩
  have hmem := fs.fileBlocks_subset hb
  rw [Ext3Fs.refs_emptyFile] at hmem
  cases hmem

/-- The block of `f` is 11, and its bit 10; the bit that is cleared is 11, that of `g`. -/
theorem deleted_block_still_marked :
    fs.GroupConsistent {i | i ∈ inodes} diskWithFiles ∧
      fs.GroupMarked {i | i ∈ inodes} diskWithFiles ∧
      ∃ n ft, fs.walk diskWithFiles 2 "/d/f" = .ok (12, n, ft) ∧ n.linksCount = 1 ∧
        fs.readFile diskWithFiles "/d/f" = .ok [70] ∧
        ¬fs.ReleasesExactly diskWithFiles "/d/f" 12 n := by
  refine ⟨groupConsistent_diskWithFiles, groupMarked_diskWithFiles, ?_⟩
  have hfirst := walks_diskWithFiles.2.2.1
  rcases hwalk : fs.walk diskWithFiles 2 "/d/f" with e | ⟨i, n, ft⟩
  · rw [hwalk] at hfirst
    cases hfirst
  rw [hwalk] at hfirst
  obtain rfl := Except.ok.inj hfirst
  obtain ⟨-, rfl, -⟩ := groupConsistent_diskWithFiles.walk_live hwalk
  refine ⟨_, ft, rfl, by decide +kernel, by decide +kernel, fun ⟨_, hcleared⟩ => ?_⟩
  obtain ⟨hok, hmark⟩ : ((fs.deleteFile "/d/f").exec diskWithFiles).1 = .ok () ∧
      fs.blockBit ((fs.deleteFile "/d/f").exec diskWithFiles).2 0 10 = true := by
    decide +kernel
  have hexec := Fallible.exec_eq_of_fst hok
  have hblock : ∃ b ∈ fs.fileBlocks diskWithFiles (fs.inodeOf diskWithFiles 12),
      fs.blockGroup b = 0 ∧ fs.blockIndex b = 10 := by
    decide +kernel
  have hclear := (hcleared _ hexec).blocks 0 (by decide) 10
  rw [hmark, decide_eq_true hblock, Bool.not_true, Bool.and_false] at hclear
  cases hclear

end Sample

end RustKernel.Fs
