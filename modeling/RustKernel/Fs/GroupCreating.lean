import RustKernel.Fs.GroupConsistency

/-!
# RustKernel.Fs.GroupCreating

Creating a file on a filesystem of several block groups, with every way in which `create_file` can
fail.

## Main results

- `createFile_outcome`: `create_file` returns exactly if its checks pass (`Creatable`), group 0 has a
  free inode and the grown directory fits; without that inode or before it changes nothing, and
  later it leaves the inode taken
- `GroupCreated.consistent`, `GroupCreated.outgrows`: afterwards the filesystem is consistent with
  the new inode, and paths resolve as before
- `GroupCreated.walk_path`: the path resolves exactly if no record of the parent is dead and the name
  is neither `.` nor `..`
-/

namespace RustKernel.Fs

open Lib

namespace Ext3Fs

variable {fs : Ext3Fs} {live : Set UInt32} {d d' d₁ : Drive} {i j p ino : UInt32}
  {path name : String} {rs : List Record} {used used' : UInt32 → Prop}

/-! ### Claiming an inode -/

variable (fs) in
/-- A free inode of group 0 has been marked used and holds an empty file. -/
structure GroupClaimed (live : Set UInt32) (d : Drive) (ino : UInt32) (d' : Drive) : Prop where
  before : fs.GroupConsistent live d
  positive : 1 ≤ ino.toNat
  free : fs.freeInodes d = (ino.toNat - 1) :: fs.freeInodes d'
  kept : fs.KeptGroups d d'
  others : ∀ c, c ≠ fs.place d (.inodeBitmap 0) → c ≠ fs.place d (fs.slotOf ino) →
    fs.block d' c = fs.block d c
  empty : fs.inodeOf d' ino = emptyFile
  inodes : ∀ j, fs.InodeNumber j → j ≠ ino → fs.inodeOf d' j = fs.inodeOf d j
  bits : ∀ k, fs.inodeBit d' 0 k = (fs.inodeBit d 0 k || decide (ino.toNat - 1 = k))

/-- An inode that the allocator may hand out. -/
private theorem inodeNumber_of_free (hg : fs.Grouped d) (hpos : 1 ≤ ino.toNat)
    (hfree : ino.toNat - 1 ∈ fs.freeInodes d) :
    fs.InodeNumber ino ∧ fs.inodeGroup ino = 0 ∧ fs.inodeIndex ino = ino.toNat - 1 := by
  have hlt := (mem_clearBits.mp hfree).1.2
  have hgroups := Nat.mul_le_mul_right fs.inodesPerGroup.toNat hg.groups
  refine ⟨⟨hpos, by omega⟩, ?_, ?_⟩
  · rw [inodeGroup, Nat.div_eq_of_lt hlt]
  · rw [inodeIndex, Nat.mod_eq_of_lt hlt]

theorem GroupClaimed.of_steps (hc : fs.GroupConsistent live d) {dₐ : Drive}
    (hpos : 1 ≤ ino.toNat) (hfree : fs.freeInodes d = (ino.toNat - 1) :: fs.freeInodes dₐ)
    (hbits : fs.BitsChanged d dₐ (fs.place d (.inodeBitmap 0))
      fun k => fs.inodeBit d 0 k || decide (ino.toNat - 1 = k))
    (hset : fs.InodeSet dₐ ino emptyFile d') : fs.GroupClaimed live d ino d' := by
  have hg := hc.toGrouped
  have hmem := inodeBitmap_mem hg.groups
  have hnumber := (inodeNumber_of_free hg hpos (hfree ▸ List.mem_cons_self)).1
  have hkeptₐ : fs.KeptGroups d dₐ := hg.bitsChanged hmem (by simp) hbits
  have hgₐ := hg.of_kept hkeptₐ
  have hslot := hkeptₐ.place hc.sized (slotOf_mem hc.sized hnumber)
  have hkept := hkeptₐ.trans (hset.keptGroups hgₐ hnumber)
  -- the bitmap is not the block of the inode
  have hbitmap : fs.block d' (fs.place d' (.inodeBitmap 0)) =
      fs.block dₐ (fs.place d (.inodeBitmap 0)) := by
    rw [hkept.place hc.sized hmem]
    apply hset.others
    rw [hslot]
    exact hg.place_ne hmem (slotOf_mem hc.sized hnumber) (by simp [slotOf])
  refine ⟨hc, hpos, ?_, hkept, fun c hc hc' => ?_, hset.written, fun j hj hne => ?_, fun k => ?_⟩
  · rw [hfree, freeInodes, freeInodes, hbitmap, hkeptₐ.place hc.sized hmem]
  · rw [hset.others c (by rwa [hslot]), hbits.others c hc]
  · rw [hset.kept j hj hne]
    exact hkeptₐ.inodeOf hc.sized hj
      (hbits.others _ (hg.place_ne (slotOf_mem hc.sized hj) hmem (by simp [slotOf])))
  · rw [inodeBit, hbitmap, hbits.bits]

namespace GroupClaimed

theorem number (h : fs.GroupClaimed live d ino d') :
    fs.InodeNumber ino ∧ fs.inodeGroup ino = 0 ∧ fs.inodeIndex ino = ino.toNat - 1 :=
  inodeNumber_of_free h.before.toGrouped h.positive (h.free ▸ List.mem_cons_self)

/-- The bit was clear, and is set. -/
theorem bit (h : fs.GroupClaimed live d ino d') :
    fs.inodeBit d 0 (ino.toNat - 1) = false ∧ fs.inodeBit d' 0 (ino.toNat - 1) = true := by
  have hmem : ino.toNat - 1 ∈ fs.freeInodes d := h.free ▸ List.mem_cons_self
  refine ⟨(mem_clearBits.mp hmem).2, ?_⟩
  rw [h.bits, decide_eq_true rfl, Bool.or_true]

theorem notMem (h : fs.GroupClaimed live d ino d') : ino ∉ live := by
  intro hmem
  have hmark := h.before.inode_marked ino hmem
  rw [InodeMarked, h.number.2.1, h.number.2.2, h.bit.1] at hmark
  cases hmark

/-- Metadata other than the inode bitmap and the inode's block are as before. -/
theorem block_meta (h : fs.GroupClaimed live d ino d') {m : MetaBlock} (hm : m ∈ fs.metaBlocks)
    (hbitmap : m ≠ .inodeBitmap 0) (hslot : m ≠ fs.slotOf ino) :
    fs.block d' (fs.place d m) = fs.block d (fs.place d m) :=
  h.others _ (h.before.place_ne hm (inodeBitmap_mem h.before.groups) hbitmap)
    (h.before.place_ne hm (slotOf_mem h.before.sized h.number.1) hslot)

theorem blockBit_eq (h : fs.GroupClaimed live d ino d') {g : Nat} (hg : g < fs.bgCount.toNat)
    (k : Nat) : fs.blockBit d' g k = fs.blockBit d g k := by
  have hmem := blockBitmap_mem hg
  rw [blockBit, h.kept.place h.before.sized hmem, h.block_meta hmem (by simp) (by simp [slotOf]),
    blockBit]

theorem freeBlocks_eq (h : fs.GroupClaimed live d ino d') : fs.freeBlocks d' = fs.freeBlocks d := by
  have hmem := blockBitmap_mem h.before.groups
  rw [freeBlocks, h.kept.place h.before.sized hmem, h.block_meta hmem (by simp) (by simp [slotOf]),
    freeBlocks]

/-- No block has been taken yet. -/
private theorem fits_iff (h : fs.GroupClaimed live d ino d') {inode : Inode} {len : Nat} :
    fs.Fits d' inode len ↔ fs.Fits d inode len := by
  rw [Fits, Fits, h.freeBlocks_eq]

theorem inodeBit_mono (h : fs.GroupClaimed live d ino d') {g k : Nat} (hg : g < fs.bgCount.toNat)
    (hbit : fs.inodeBit d g k = true) : fs.inodeBit d' g k = true := by
  by_cases hzero : g = 0
  · subst hzero
    rw [h.bits, hbit, Bool.true_or]
  · have hmem := inodeBitmap_mem hg
    rw [inodeBit, h.kept.place h.before.sized hmem,
      h.block_meta hmem (by simpa using hzero) (by simp [slotOf])]
    exact hbit

/-- The live inodes are kept. -/
theorem frame (h : fs.GroupClaimed live d ino d') : fs.GroupFrame live d d' where
  toKeptGroups := h.kept
  inodes := by
    intro i hi
    refine h.inodes i (h.before.valid i hi) ?_
    rintro rfl
    exact h.notMem hi
  blocks := fun i hi b hb => h.others b
    (h.before.outside i hi b hb _ (inodeBitmap_mem h.before.groups))
    (h.before.outside i hi b hb _ (slotOf_mem h.before.sized h.number.1))
  inode_marked := fun i hi hmark => h.inodeBit_mono (inodeGroup_lt (h.before.valid i hi)) hmark

private theorem refs_new (h : fs.GroupClaimed live d ino d') :
    fs.refs d' (fs.inodeOf d' ino) = [] := by
  rw [h.empty]
  exact refs_emptyFile d'

private theorem refs_old (h : fs.GroupClaimed live d ino d') (hi : i ∈ live) :
    fs.refs d' (fs.inodeOf d' i) = fs.refs d (fs.inodeOf d i) := by
  rw [h.frame.inodes i hi]
  exact refs_congr (h.frame.blocks i hi)

/-- The new inode has no blocks. -/
theorem covered (h : fs.GroupClaimed live d ino d') (hm : fs.Covered used live d) :
    fs.Covered used (insert ino live) d' where
  metadata := (h.before.covered_frame h.frame hm).metadata
  blocks := by
    rintro i (rfl | hi) b hb
    · rw [h.refs_new] at hb
      cases hb
    · exact (h.before.covered_frame h.frame hm).blocks i hi b hb

theorem spare {n : Nat} (h : fs.GroupClaimed live d ino d') (hspare : fs.Spare live d n) :
    fs.Spare (insert ino live) d' n := by
  intro k hk b hb
  rw [h.freeBlocks_eq] at hk
  obtain ⟨hmeta, hlive⟩ := hspare k hk b hb
  constructor
  · intro m hm
    rw [h.kept.place h.before.sized hm]
    exact hmeta m hm
  · rintro i (rfl | hi)
    · rw [h.refs_new]
      exact List.not_mem_nil
    · rw [h.refs_old hi]
      exact hlive i hi

theorem contents (h : fs.GroupClaimed live d ino d') (hi : i ∈ live) :
    fs.readFileInode d' (fs.inodeOf d' i) = fs.readFileInode d (fs.inodeOf d i) :=
  h.before.contents_frame h.frame hi

theorem consistent (h : fs.GroupClaimed live d ino d') :
    fs.GroupConsistent (insert ino live) d' where
  toGroupOwned := by
    apply (h.before.toGroupOwned.frame h.frame).insert h.number.1
    · rw [InodeMarked, h.number.2.1, h.number.2.2]
      exact h.bit.2
    · rw [h.refs_new]
      exact List.nodup_nil
    · rw [h.refs_new]
      simp
  root := .inr h.before.root
  dirs := by
    rintro i (rfl | hi) hdir
    · rw [h.empty] at hdir
      cases hdir
    · obtain ⟨rs, hraw, hlive⟩ := (h.before.frame h.frame).dirs i hi hdir
      exact ⟨rs, hraw, fun e he => .inr (hlive e he)⟩

/-- Paths resolve as before. -/
theorem outgrows (h : fs.GroupClaimed live d ino d') :
    fs.Outgrows live d (fs.inodeOf d) d' (fs.inodeOf d') where
  inodes := fun i hi => h.consistent.readInode (.inr hi)
  kind := fun i hi => by rw [h.frame.inodes i hi]
  lookups := by
    intro i hi _ entries hread
    refine ⟨entries, ?_, fun _ _ he => he⟩
    rw [← hread, readDirInode, readDirInode, h.contents hi, h.frame.inodes i hi]

end GroupClaimed

/-! ### Creating a file -/

/-- A new file misses all its blocks. -/
theorem missing_emptyFile (n : Nat) : missing emptyFile n = n := by
  induction n with
  | zero => rfl
  | succ n ih => rw [missing_succ, ih, if_pos (pointer_emptyFile n)]

variable (fs) in
/-- The checks of `create_file` pass: the parent directory `p`, with the records `rs`, lists no entry
    of the name. -/
structure Creatable (d : Drive) (path name : String) (p : UInt32) (rs : List Record) : Prop where
  split : ∃ parent, splitParent path = .ok (parent, name) ∧
    ∃ ft, fs.walk d 2 parent = .ok (p, fs.inodeOf d p, ft)
  nonempty : name ≠ ""
  name_le : name.utf8ByteSize ≤ 255
  dir : (fs.inodeOf d p).isDir = true
  raw : fs.readFileInode d (fs.inodeOf d p) = .ok (encode rs)
  unlisted : ∀ e ∈ listed rs, e.1 ≠ name

/-- The length of the parent directory with an entry of the name. -/
def grownLength (rs : List Record) (name : String) : Nat :=
  (encode rs).length + (8 + name.utf8ByteSize + 3) / 4 * 4

variable (fs) in
/-- The blocks by which the parent directory grows when an entry of the name is added. -/
def entryBlocks (d : Drive) (p : UInt32) (rs : List Record) (name : String) : Nat :=
  missing (fs.inodeOf d p) (fs.blockCount (grownLength rs name))

variable (fs) in
/-- If `create_file` has an inode and room for the entry, the blocks it gets are not in use. -/
def EntrySpare (live : Set UInt32) (d : Drive) (path : String) : Prop :=
  ∀ name p rs, fs.Creatable d path name p rs → fs.freeInodes d ≠ [] →
    fs.Fits d (fs.inodeOf d p) (grownLength rs name) → fs.Spare live d (fs.entryBlocks d p rs name)

private theorem length_encode_newRecord (rs : List Record) (name : String) (ino : UInt32)
    (fileType : UInt8) (fits : 8 + name.utf8ByteSize + 3 < 2 ^ 16) :
    (encode (rs ++ [newRecord name ino fileType fits])).length = grownLength rs name := by
  rw [encode_append, encode_cons, encode_nil, List.append_nil, List.length_append,
    Record.length_toBytes, len_newRecord, grownLength]

variable (fs) in
/-- `create_file` has returned: the inode `ino`, claimed in `d₁`, has the entry `name` in `p`. -/
structure GroupCreated (live : Set UInt32) (d : Drive) (path name : String) (p ino : UInt32)
    (rs : List Record) (d₁ d' : Drive) : Prop where
  ready : fs.Creatable d path name p rs
  mem : p ∈ live
  claimed : fs.GroupClaimed live d ino d₁
  fits : fs.Fits d (fs.inodeOf d p) (grownLength rs name)
  saved : ∃ inode' d₂ small, fs.GroupSaved (insert ino live) d₁ p
    (encode (rs ++ [newRecord name ino FT_REG small])) inode' d₂ d'

variable (fs) in
/-- How `create_file` fails once its checks have passed. -/
inductive CreateFails (live : Set UInt32) (d : Drive) (name : String) (p : UInt32)
    (rs : List Record) : Drive → Prop
  | noInode (hfull : fs.freeInodes d = []) : CreateFails live d name p rs d
  | noBlocks {ino : UInt32} {d₁ d' : Drive} (hclaimed : fs.GroupClaimed live d ino d₁)
      (hfits : ¬fs.Fits d (fs.inodeOf d p) (grownLength rs name)) (hleak : fs.Leak d₁ d') :
      CreateFails live d name p rs d'

/-- An entry is added to the directory if the grown directory fits. -/
private theorem dirAddEntry_outcome {inode : Inode} (hg : fs.Grouped d)
    (hw : fs.Fits d inode (grownLength rs name) →
      fs.Writable d inode (fs.blockCount (grownLength rs name)))
    (hraw : fs.readFileInode d inode = .ok (encode rs)) (hnonempty : name ≠ "")
    (hname : name.utf8ByteSize < 256) (ino : UInt32) (fileType : UInt8) :
    Outcome (fs.dirAddEntry inode name ino fileType) d
      (fun inode' d' => ∃ small,
        fs.Wrote d inode (encode (rs ++ [newRecord name ino fileType small])) inode' d')
      (fun e d' => ¬fs.Fits d inode (grownLength rs name) ∧ (∃ msg, e = .error msg) ∧
        fs.Leak d d') := by
  have hpos : 0 < name.utf8ByteSize := by
    refine Nat.pos_of_ne_zero fun hzero => hnonempty ?_
    exact String.utf8ByteSize_eq_zero_iff.mp hzero
  obtain ⟨small, hadd⟩ := addEntry_ok rs ino fileType hpos hname
  have hlen := length_encode_newRecord rs name ino fileType small
  have hgrow : inode.size.toNat ≤ (encode (rs ++ [newRecord name ino fileType small])).length := by
    rw [hlen, ← length_readFileInode hg.sized hraw, grownLength]
    exact Nat.le_add_right ..
  rw [← hlen] at hw ⊢
  refine Outcome.bind_read hraw (Outcome.bind_read hadd ?_)
  refine (writeFileData_outcome hg hw).mono (fun _ _ h => ⟨small, h.2.2 hgrow⟩) fun e d' h => ?_
  exact h.resolve_left fun hshrunk => absurd hgrow (by omega)

/-- What the checks look at is determined by the path. -/
private theorem Creatable.of_split (h : fs.Creatable d path name p rs)
    {names : String × String} (hsplit : splitParent path = .ok names) :
    name = names.2 ∧ ∃ ft, fs.walk d 2 names.1 = .ok (p, fs.inodeOf d p, ft) := by
  obtain ⟨parent', hparent, hwalk⟩ := h.split
  rw [hsplit] at hparent
  obtain rfl := Except.ok.inj hparent
  exact ⟨rfl, hwalk⟩

private theorem Creatable.of_walk {names : String × String} {found : UInt32 × Inode × UInt8}
    (h : fs.Creatable d path name p rs) (hsplit : splitParent path = .ok names)
    (hwalk : fs.walk d 2 names.1 = .ok found) : name = names.2 ∧ p = found.1 := by
  obtain ⟨hname, ft, hwalk'⟩ := h.of_split hsplit
  rw [hwalk] at hwalk'
  exact ⟨hname, (congrArg Prod.fst (Except.ok.inj hwalk')).symm⟩

/-- An inode is claimed before what follows is run, unless there is none. -/
private theorem claim_bind {β : Type} {k : UInt32 → Access β} {Q : β → Drive → Prop}
    {E : Failure → Drive → Prop} (hc : fs.GroupConsistent live d)
    (hnone : ∀ msg, fs.freeInodes d = [] → E (.error msg) d)
    (hclaim : ∀ ino d₁, fs.GroupClaimed live d ino d₁ → Outcome (k ino) d₁ Q E) :
    Outcome (do let ino ← fs.allocInode; fs.writeInode ino emptyFile; k ino) d Q E := by
  refine (hc.toGrouped.allocInode.mono (fun _ _ h => h) ?_).bind ?_
  · rintro e _ ⟨hfull, rfl, rfl⟩
    exact hnone _ hfull
  rintro ino dₐ ⟨hpos, hfree, hbits⟩
  have hgₐ := hc.toGrouped.of_kept
    (hc.toGrouped.bitsChanged (inodeBitmap_mem hc.groups) (by simp) hbits)
  have hnumber := (inodeNumber_of_free hc.toGrouped hpos (hfree ▸ List.mem_cons_self)).1
  obtain ⟨d₁, hexec, hset⟩ := hgₐ.writeInode hnumber emptyFile
  exact Outcome.bind_exec hexec (hclaim ino d₁ (.of_steps hc hpos hfree hbits hset))

/-- The directory is saved with the new entry, if it fits. -/
private theorem GroupClaimed.enter (h : fs.GroupClaimed live d ino d₁)
    (hready : fs.Creatable d path name p rs) (hp : p ∈ live)
    (hspare : fs.Fits d (fs.inodeOf d p) (grownLength rs name) →
      fs.Spare live d (fs.entryBlocks d p rs name)) :
    Outcome (do
      let parentInode ← fs.dirAddEntry (fs.inodeOf d p) name ino FT_REG
      fs.writeInode p parentInode) d₁
      (fun _ d' => fs.GroupCreated live d path name p ino rs d₁ d')
      (fun e d' => (∃ msg, e = .error msg) ∧ fs.CreateFails live d name p rs d') := by
  have hc₁ := h.consistent
  have hp₁ : p ∈ insert ino live := .inr hp
  have hname := hready.name_le
  -- the parent is what it was when the checks looked at it
  have hinode : fs.inodeOf d₁ p = fs.inodeOf d p := h.frame.inodes p hp
  have hraw₁ : fs.readFileInode d₁ (fs.inodeOf d p) = .ok (encode rs) := by
    rw [← hinode, h.contents hp, hready.raw]
  have hspare₁ : fs.Fits d₁ (fs.inodeOf d p) (grownLength rs name) → fs.Spare (insert ino live) d₁
      (missing (fs.inodeOf d₁ p) (fs.blockCount (grownLength rs name))) := by
    intro hfits
    rw [hinode]
    exact h.spare (hspare (h.fits_iff.mp hfits))
  have hwritable := fun hfits => hc₁.writable hp₁ (hspare₁ hfits)
  rw [hinode] at hwritable
  refine ((dirAddEntry_outcome hc₁.toGrouped hwritable hraw₁ hready.nonempty (by omega) ino
    FT_REG).mono (fun _ _ h => h) ?_).bind ?_
  · rintro e d' ⟨hfits, hmsg, hleak⟩
    rw [h.fits_iff] at hfits
    exact ⟨hmsg, .noBlocks h hfits hleak⟩
  rintro inode' d₂ ⟨small, hwrote⟩
  have hfits := hwrote.fits
  rw [length_encode_newRecord] at hfits
  have hspare₂ := hspare₁ hfits
  rw [← length_encode_newRecord rs name ino FT_REG small] at hspare₂
  rw [← hinode] at hwrote
  have hkept₂ := hwrote.keptGroups hc₁.toGrouped (hc₁.writable hp₁ hspare₂)
  obtain ⟨d', hexec', hset'⟩ :=
    (hc₁.toGrouped.of_kept hkept₂).writeInode (h.before.valid p hp) inode'
  exact Outcome.of_exec hexec' ⟨hready, hp, h, h.fits_iff.mp hfits, inode', d₂, small, hc₁, hp₁,
    hspare₂, hwrote, hset'⟩

theorem createFile_outcome (hc : fs.GroupConsistent live d) (path : String)
    (hspare : fs.EntrySpare live d path) :
    Outcome (fs.createFile path) d
      (fun _ d' => ∃ name p ino rs d₁, fs.GroupCreated live d path name p ino rs d₁ d')
      (fun e d' => (d' = d ∧ ¬∃ name p rs, fs.Creatable d path name p rs) ∨
        ∃ name p rs, fs.Creatable d path name p rs ∧ (∃ msg, e = .error msg) ∧
          fs.CreateFails live d name p rs d') := by
  rw [createFile]
  -- the checks, none of which changes the drive: where one fails, the file may not be created
  refine Outcome.bind_reading (fun names hsplit => ?_) fun e hsplit => .inl ⟨rfl, ?_⟩
  case refine_2 =>
    rintro ⟨name, p, rs, hready⟩
    obtain ⟨parent, hparent, -⟩ := hready.split
    rw [hsplit] at hparent
    cases hparent
  dsimp only
  split
  case isTrue hbad =>
    refine Outcome.throw (.inl ⟨rfl, ?_⟩)
    rintro ⟨name, p, rs, hready⟩
    obtain ⟨rfl, -⟩ := hready.of_split hsplit
    have hle := hready.name_le
    exact hbad.elim hready.nonempty (by omega)
  case isFalse hgood =>
  obtain ⟨hnonempty, hlong⟩ := not_or.mp hgood
  refine Outcome.bind_reading (fun found hwalk => ?_) fun e hwalk => .inl ⟨rfl, ?_⟩
  case refine_2 =>
    rintro ⟨name, p, rs, hready⟩
    obtain ⟨-, ft, hparent⟩ := hready.of_split hsplit
    rw [hwalk] at hparent
    cases hparent
  obtain ⟨p, parentInode, ft⟩ := found
  obtain ⟨hp, rfl, -⟩ := hc.walk_live hwalk
  split
  case isTrue hnotdir =>
    refine Outcome.throw (.inl ⟨rfl, ?_⟩)
    rintro ⟨name, p, rs, hready⟩
    obtain ⟨rfl, rfl⟩ := hready.of_walk hsplit hwalk
    rw [hready.dir] at hnotdir
    cases hnotdir
  case isFalse hnotdir =>
  have hdir : (fs.inodeOf d p).isDir = true := by simpa using hnotdir
  obtain ⟨rs, hraw, -⟩ := hc.dirs p hp hdir
  refine Outcome.bind_read (readDirInode_encode hc.sized hraw) ?_
  split
  case isTrue hexists =>
    refine Outcome.throw (.inl ⟨rfl, ?_⟩)
    rintro ⟨name, p, rs', hready⟩
    obtain ⟨rfl, rfl⟩ := hready.of_walk hsplit hwalk
    obtain rfl := encode_injective (Except.ok.inj (hraw.symm.trans hready.raw))
    obtain ⟨e, he, hsame⟩ := List.any_eq_true.mp hexists
    exact hready.unlisted e he (by simpa using hsame)
  case isFalse hexists =>
  -- they have passed: the inode is claimed, and the directory saved
  have hready : fs.Creatable d path names.2 p rs := by
    refine ⟨⟨names.1, hsplit, ft, hwalk⟩, hnonempty, by omega, hdir, hraw, fun e he heq => ?_⟩
    exact hexists (List.any_eq_true.mpr ⟨e, he, by simpa using heq⟩)
  refine claim_bind hc (fun msg hfull => ?_) fun ino d₁ hclaimed => ?_
  · exact .inr ⟨names.2, p, rs, hready, ⟨msg, rfl⟩, .noInode hfull⟩
  · have hinode : fs.freeInodes d ≠ [] := hclaimed.free ▸ List.cons_ne_nil _ _
    exact (hclaimed.enter hready hp (hspare names.2 p rs hready hinode)).mono
      (fun _ _ hcreated => ⟨names.2, p, ino, rs, d₁, hcreated⟩)
      fun _ _ hfails => .inr ⟨names.2, p, rs, hready, hfails⟩

/-- The path determines the parent, the name and the records. -/
theorem Creatable.unique {name' : String} {p' : UInt32} {rs' : List Record}
    (h : fs.Creatable d path name p rs) (h' : fs.Creatable d path name' p' rs') :
    name' = name ∧ p' = p ∧ rs' = rs := by
  obtain ⟨parent, hsplit, ft, hwalk⟩ := h.split
  obtain ⟨parent', hsplit', ft', hwalk'⟩ := h'.split
  obtain ⟨rfl, rfl⟩ := Prod.mk.inj (Except.ok.inj (hsplit.symm.trans hsplit'))
  have hp : p' = p := congrArg Prod.fst (Except.ok.inj (hwalk'.symm.trans hwalk))
  subst hp
  exact ⟨rfl, rfl, encode_injective (Except.ok.inj (h'.raw.symm.trans h.raw))⟩

/-- The blocks that are not in use, for the one parent and name of the path. -/
theorem Creatable.entrySpare (h : fs.Creatable d path name p rs)
    (hspare : fs.freeInodes d ≠ [] → fs.Fits d (fs.inodeOf d p) (grownLength rs name) →
      fs.Spare live d (fs.entryBlocks d p rs name)) : fs.EntrySpare live d path := by
  intro name' p' rs' h' hinode hfits
  obtain ⟨rfl, rfl, rfl⟩ := h.unique h'
  exact hspare hinode hfits

/-- A path that may be created does not resolve. -/
theorem Creatable.walk_error (hc : fs.GroupConsistent live d)
    (h : fs.Creatable d path name p rs) :
    fs.walk d 2 path = .error (.error "file not found") := by
  obtain ⟨parent, hsplit, ft, hwalk⟩ := h.split
  have hnone : lookup (listed rs) name = none := by
    rw [lookup, List.find?_eq_none]
    intro e he
    simpa using h.unlisted e he
  rw [walk_last (splitSlash_of_splitParent hsplit) h.nonempty hwalk h.dir
    (readDirInode_encode hc.sized h.raw), hnone]

/-- Once the checks of `create_file` have passed, it returns, or fails for want of an inode or of
    blocks. -/
theorem Creatable.outcome (hc : fs.GroupConsistent live d)
    (h : fs.Creatable d path name p rs) (hspare : fs.EntrySpare live d path) :
    Outcome (fs.createFile path) d
      (fun _ d' => ∃ ino d₁, fs.GroupCreated live d path name p ino rs d₁ d')
      (fun e d' => (∃ msg, e = .error msg) ∧ fs.CreateFails live d name p rs d') := by
  refine (createFile_outcome hc path hspare).mono (fun _ d' hreturned => ?_) fun e d' hfailed => ?_
  · obtain ⟨name', p', ino, rs', d₁, hcreated⟩ := hreturned
    obtain ⟨rfl, rfl, rfl⟩ := h.unique hcreated.ready
    exact ⟨ino, d₁, hcreated⟩
  · rcases hfailed with ⟨-, hnone⟩ | ⟨name', p', rs', h', hmsg, hfails⟩
    · exact absurd ⟨name, p, rs, h⟩ hnone
    · obtain ⟨rfl, rfl, rfl⟩ := h.unique h'
      exact ⟨hmsg, hfails⟩

/-- When the checks pass, and there is an inode and room for the entry, the file is created. -/
theorem createFile_returns (hc : fs.GroupConsistent live d) (h : fs.Creatable d path name p rs)
    (hspare : fs.EntrySpare live d path) (hinode : fs.freeInodes d ≠ [])
    (hfits : fs.Fits d (fs.inodeOf d p) (grownLength rs name)) :
    ∃ d' ino d₁, (fs.createFile path).exec d = (.ok (), d') ∧
      fs.GroupCreated live d path name p ino rs d₁ d' := by
  rcases hexec : (fs.createFile path).exec d with ⟨e | _, d'⟩
  · cases ((h.outcome hc hspare).failed hexec).2 with
    | noInode hfull => exact absurd hfull hinode
    | noBlocks _ hshort _ => exact absurd hfits hshort
  · obtain ⟨ino, d₁, hcreated⟩ := (h.outcome hc hspare).ok hexec
    exact ⟨d', ino, d₁, rfl, hcreated⟩

/-- Whether the entry that is added is listed: it is not behind a dead record, nor if it is called
    `.` or `..`. -/
def Visible (rs : List Record) (name : String) : Prop :=
  (∀ r ∈ rs, r.live = true) ∧ name ≠ "." ∧ name ≠ ".."

instance (rs : List Record) (name : String) : Decidable (Visible rs name) :=
  inferInstanceAs (Decidable (_ ∧ _))

variable (fs) in
/-- None of the blocks that `write_file` gets is in use: those for the data of a file that is there,
    or those for the entry and the data of a new one. A file that is hidden is created until the
    inodes or the blocks run out, so it may get all of them. -/
structure WriteSpare (live : Set UInt32) (d : Drive) (path : String) (data : List UInt8) : Prop where
  existing : ∀ i n ft, fs.walk d 2 path = .ok (i, n, ft) → fs.Fits d n data.length →
    fs.Spare live d (missing n (fs.blockCount data.length))
  entry : fs.EntrySpare live d path
  visible : ∀ name p rs, fs.Creatable d path name p rs → fs.freeInodes d ≠ [] → Visible rs name →
    fs.blockCount data.length ≤ 12 →
      fs.entryBlocks d p rs name + fs.blockCount data.length ≤ (fs.freeBlocks d).length →
        fs.Spare live d (fs.entryBlocks d p rs name + fs.blockCount data.length)
  hidden : ∀ name p rs, fs.Creatable d path name p rs → fs.freeInodes d ≠ [] → ¬Visible rs name →
    fs.Fits d (fs.inodeOf d p) (grownLength rs name) → fs.Spare live d (fs.freeBlocks d).length

theorem GroupMarked.writeSpare (h : fs.GroupMarked live d) (path : String) (data : List UInt8) :
    fs.WriteSpare live d path data where
  existing := fun _ _ _ _ _ => h.spare _
  entry := fun _ _ _ _ _ _ => h.spare _
  visible := fun _ _ _ _ _ _ _ _ => h.spare _
  hidden := fun _ _ _ _ _ _ _ => h.spare _

namespace GroupCreated

theorem before (h : fs.GroupCreated live d path name p ino rs d₁ d') : fs.GroupConsistent live d :=
  h.claimed.before

private theorem ne_zero (h : fs.GroupCreated live d path name p ino rs d₁ d') : ino ≠ 0 := by
  rintro rfl
  exact absurd h.claimed.positive (by decide)

/-- What the directory lists afterwards. -/
theorem listed_eq (h : fs.GroupCreated live d path name p ino rs d₁ d')
    (small : 8 + name.utf8ByteSize + 3 < 2 ^ 16) :
    listed (rs ++ [newRecord name ino FT_REG small]) =
      listed rs ++ if Visible rs name then [(name, ino, FT_REG)] else [] := by
  have hname := h.ready.name_le
  exact listed_newRecord rs (by omega) h.ne_zero

/-- The new inode has joined the live ones. -/
theorem consistent (h : fs.GroupCreated live d path name p ino rs d₁ d') :
    fs.GroupConsistent (insert ino live) d' := by
  obtain ⟨inode', d₂, small, hsaved⟩ := h.saved
  apply hsaved.consistent
  intro _
  refine ⟨_, rfl, fun e he => ?_⟩
  obtain ⟨rs', hraw', hlive⟩ := h.before.dirs p h.mem h.ready.dir
  obtain rfl := encode_injective (Except.ok.inj (h.ready.raw.symm.trans hraw'))
  rw [h.listed_eq small, List.mem_append] at he
  rcases he with hold | hnew
  · exact .inr (hlive e hold)
  · split at hnew
    · obtain rfl := List.mem_singleton.mp hnew
      exact .inl rfl
    · cases hnew

theorem inodeOf_new (h : fs.GroupCreated live d path name p ino rs d₁ d') :
    fs.inodeOf d' ino = emptyFile := by
  obtain ⟨inode', d₂, small, hsaved⟩ := h.saved
  rw [hsaved.inodeOf_other h.claimed.number.1, h.claimed.empty]
  rintro rfl
  exact h.claimed.notMem h.mem

/-- The directory afterwards has one more record. -/
theorem raw_after (h : fs.GroupCreated live d path name p ino rs d₁ d') :
    ∃ small, fs.readFileInode d' (fs.inodeOf d' p) =
      .ok (encode (rs ++ [newRecord name ino FT_REG small])) := by
  obtain ⟨inode', d₂, small, hsaved⟩ := h.saved
  exact ⟨small, by rw [hsaved.inodeOf_self]; exact hsaved.contents_self⟩

/-- No block of the directory is missing. -/
theorem filled (h : fs.GroupCreated live d path name p ino rs d₁ d') {k : Nat}
    (hk : k * fs.blockSize < (fs.inodeOf d' p).size.toNat) : (fs.inodeOf d' p).pointer k ≠ 0 := by
  obtain ⟨inode', d₂, small, hsaved⟩ := h.saved
  rw [hsaved.inodeOf_self] at hk ⊢
  rw [hsaved.wrote.size] at hk
  exact hsaved.wrote.filled h.before.sized (h.before.sized.lt_blocks_iff.mpr hk)

/-- The other inodes are as before. -/
theorem inodeOf_other (h : fs.GroupCreated live d path name p ino rs d₁ d') (hj : j ∈ live)
    (hne : j ≠ p) : fs.inodeOf d' j = fs.inodeOf d j := by
  obtain ⟨inode', d₂, small, hsaved⟩ := h.saved
  rw [hsaved.inodeOf_other (h.before.valid j hj) hne, h.claimed.frame.inodes j hj]

/-- Other files read as before. -/
theorem contents_other (h : fs.GroupCreated live d path name p ino rs d₁ d') (hj : j ∈ live)
    (hne : j ≠ p) : fs.readFileInode d' (fs.inodeOf d' j) = fs.readFileInode d (fs.inodeOf d j) := by
  obtain ⟨inode', d₂, small, hsaved⟩ := h.saved
  rw [hsaved.contents_other (.inr hj) hne, h.claimed.contents hj]

/-- Entries are only added, so the paths that resolve go on resolving. -/
theorem outgrows (h : fs.GroupCreated live d path name p ino rs d₁ d') :
    fs.Outgrows live d (fs.inodeOf d) d' (fs.inodeOf d') := by
  obtain ⟨inode', d₂, small, hsaved⟩ := h.saved
  have hgrown := hsaved.outgrows fun _ entries hread => ?_
  · exact h.claimed.outgrows.trans (hgrown.mono (Set.subset_insert _ _))
  rw [h.claimed.frame.inodes p h.mem] at hread
  have hraw : fs.readFileInode d₁ (fs.inodeOf d p) = .ok (encode rs) := by
    rw [← h.claimed.frame.inodes p h.mem, h.claimed.contents h.mem, h.ready.raw]
  rw [readDirInode_encode h.before.sized hraw] at hread
  obtain rfl := Except.ok.inj hread
  refine ⟨_, readDirInode_encode h.before.sized hsaved.contents_self, fun component e he => ?_⟩
  rw [h.listed_eq small, lookup_append, he]
  rfl

/-- The path resolves to the new inode, or to nothing. -/
theorem walk_path (h : fs.GroupCreated live d path name p ino rs d₁ d') :
    fs.walk d' 2 path = if Visible rs name then .ok (ino, emptyFile, FT_REG)
      else .error (.error "file not found") := by
  obtain ⟨parent, hsplit, ft, hwalk⟩ := h.ready.split
  obtain ⟨small, hraw⟩ := h.raw_after
  have hparent := h.before.browsable.walk_outgrown h.outgrows hwalk
  have hdir := (h.outgrows.kind p h.mem).trans h.ready.dir
  have hold : lookup (listed rs) name = none := by
    rw [lookup, List.find?_eq_none]
    intro e he
    simpa using h.ready.unlisted e he
  rw [walk_last (splitSlash_of_splitParent hsplit) h.ready.nonempty hparent hdir
    (readDirInode_encode h.before.sized hraw), h.listed_eq small, lookup_append, hold]
  by_cases hvisible : Visible rs name
  · have hfound := lookup_singleton (name, ino, FT_REG)
    simp only [if_pos hvisible, Option.none_or, hfound,
      h.consistent.readInode (Set.mem_insert _ _), h.inodeOf_new]
    rfl
  · simp only [if_neg hvisible]
    rfl

/-! ### What is left of the free inodes and blocks -/

theorem freeInodes_eq (h : fs.GroupCreated live d path name p ino rs d₁ d') :
    fs.freeInodes d = (ino.toNat - 1) :: fs.freeInodes d' := by
  obtain ⟨inode', d₂, small, hsaved⟩ := h.saved
  rw [h.claimed.free, hsaved.freeInodes_eq]

theorem freeInodes_ne_nil (h : fs.GroupCreated live d path name p ino rs d₁ d') :
    fs.freeInodes d ≠ [] := by
  rw [h.freeInodes_eq]
  exact List.cons_ne_nil _ _

theorem freeBlocks_eq (h : fs.GroupCreated live d path name p ino rs d₁ d') :
    fs.freeBlocks d' = (fs.freeBlocks d).drop (fs.entryBlocks d p rs name) := by
  obtain ⟨inode', d₂, small, hsaved⟩ := h.saved
  rw [hsaved.freeBlocks_eq, h.claimed.freeBlocks_eq, h.claimed.frame.inodes p h.mem,
    length_encode_newRecord, entryBlocks]

/-- The blocks handed out next are not in use, if they were not before. -/
theorem spare {n : Nat} (h : fs.GroupCreated live d path name p ino rs d₁ d')
    (hspare : fs.Spare live d (fs.entryBlocks d p rs name + n)) :
    fs.Spare (insert ino live) d' n := by
  obtain ⟨inode', d₂, small, hsaved⟩ := h.saved
  apply hsaved.spare_after
  rw [length_encode_newRecord, h.claimed.frame.inodes p h.mem]
  exact h.claimed.spare hspare

/-- In particular if no block was that could be handed out. -/
theorem spare_all (h : fs.GroupCreated live d path name p ino rs d₁ d')
    (hspare : fs.Spare live d (fs.freeBlocks d).length) :
    fs.Spare (insert ino live) d' (fs.freeBlocks d').length := h.spare (hspare.of_all _)

/-- Bits of the block bitmaps are only set. -/
theorem blockBit_mono (h : fs.GroupCreated live d path name p ino rs d₁ d') {g k : Nat}
    (hg : g < fs.bgCount.toNat) (hbit : fs.blockBit d g k = true) : fs.blockBit d' g k = true := by
  obtain ⟨inode', d₂, small, hsaved⟩ := h.saved
  rw [hsaved.blockBit_eq hg, h.claimed.blockBit_eq hg, hbit, Bool.true_or]

/-- The blocks that the directory got have their bits set. -/
theorem covered (h : fs.GroupCreated live d path name p ino rs d₁ d')
    (hm : fs.Covered used live d) (hkept : ∀ b, used b → used' b)
    (hgot : ∀ k ∈ fs.freeBlocks d, ∀ b : UInt32, b.toNat = k + 1 →
      fs.blockBit d' 0 k = true → used' b) : fs.Covered used' (insert ino live) d' := by
  obtain ⟨inode', d₂, small, hsaved⟩ := h.saved
  apply hsaved.covered ((h.claimed.covered hm).mono hkept)
  intro k hk b hb
  have hfree : k ∈ fs.freeBlocks d := h.claimed.freeBlocks_eq ▸ List.mem_of_mem_take hk
  apply hgot k hfree b hb
  rw [hsaved.blockBit_eq h.before.groups, decide_eq_true ⟨rfl, hk⟩, Bool.or_true]

theorem groupMarked (h : fs.GroupCreated live d path name p ino rs d₁ d')
    (hm : fs.GroupMarked live d) : fs.GroupMarked (insert ino live) d' where
  toCovered := by
    apply h.covered hm.toCovered
    · exact fun b hb => ⟨hb.1, hb.2.1, h.blockBit_mono hb.2.1 hb.2.2⟩
    · intro k hk b hb hbit
      exact Marked.of_bit h.before.groups (mem_clearBits.mp hk).1.2 hb hbit

/-- Data fits into the new file if there are blocks for it beside those of the directory. -/
theorem fits_new (h : fs.GroupCreated live d path name p ino rs d₁ d') (len : Nat) :
    fs.Fits d' emptyFile len ↔ fs.blockCount len ≤ 12 ∧
      fs.entryBlocks d p rs name + fs.blockCount len ≤ (fs.freeBlocks d).length := by
  have hroom := h.fits.2
  rw [Fits, h.freeBlocks_eq, List.length_drop, missing_emptyFile, entryBlocks]
  omega

/-- One bit of the inode bitmaps has been set. -/
theorem inodeBit_eq (h : fs.GroupCreated live d path name p ino rs d₁ d') {g : Nat}
    (hg : g < fs.bgCount.toNat) (k : Nat) :
    fs.inodeBit d' g k = (fs.inodeBit d g k || decide (g = 0 ∧ ino.toNat - 1 = k)) := by
  obtain ⟨inode', d₂, small, hsaved⟩ := h.saved
  rw [hsaved.inodeBit_eq hg]
  by_cases hzero : g = 0
  · subst hzero
    rw [h.claimed.bits]
    simp
  · have hmem := inodeBitmap_mem hg
    rw [inodeBit, h.claimed.kept.place h.before.sized hmem,
      h.claimed.block_meta hmem (by simpa using hzero) (by simp [slotOf]), ← inodeBit]
    simp [hzero]

/-- A file that is hidden may be created again, and is hidden again. -/
theorem ready_after (h : fs.GroupCreated live d path name p ino rs d₁ d')
    (hhidden : ¬Visible rs name) :
    ∃ rs', fs.Creatable d' path name p rs' ∧ ¬Visible rs' name := by
  obtain ⟨parent, hsplit, ft, hwalk⟩ := h.ready.split
  obtain ⟨small, hraw⟩ := h.raw_after
  refine ⟨_, ⟨⟨parent, hsplit, _, h.before.browsable.walk_outgrown h.outgrows hwalk⟩,
    h.ready.nonempty, h.ready.name_le, (h.outgrows.kind p h.mem).trans h.ready.dir, hraw, ?_⟩, ?_⟩
  · rw [h.listed_eq small, if_neg hhidden, List.append_nil]
    exact h.ready.unlisted
  · -- what hides the first entry is still in front of the second
    rintro ⟨hlive, hname⟩
    exact hhidden ⟨fun r hr => hlive r (List.mem_append_left _ hr), hname⟩

end GroupCreated

end Ext3Fs

end RustKernel.Fs
