import RustKernel.Fs.Entries

/-!
# RustKernel.Fs.Deleting

Deleting a file: `delete_file` frees the file's blocks, then its inode, and then removes its entry
from the parent directory.

`free_block` clears the mark of the block after the one it is given, so what a deletion does to the
others depends on what lies behind the file's blocks: `Spares` says that no live file and no
metadata do.

## Main results

- `deleteFile_ends`: a deletion within `DeleteGuard` changes nothing or ends in `Deleted`
- `Deleted.singlyLinked`: afterwards the filesystem is as good as before, without the inode

## Proof strategy

While the inode is freed and its entry still there, the directories do not list live inodes only.
What holds in between is ownership of the blocks (`Released`, for the inodes other than the deleted
one), and the entry is removed on top of that.
-/

namespace RustKernel.Fs

open Lib

namespace Ext3Fs

variable {fs : Ext3Fs} {live : Set UInt32} {d d' : Drive} {inode : Inode} {i p : UInt32}

/-! ### Freeing the blocks of a file -/

private theorem freeDataBlock_ends {k : Nat} {d₀ : Drive} (hloc : fs.Located d₀)
    (h : fs.Freed d₀ inode 0 k d)
    (hin : k < (inode.size.toNat + fs.blockSize - 1) / fs.blockSize) :
    Ends (fs.freeDataBlock inode k) d (fun _ => fs.Freed d₀ inode 0 (k + 1))
      (fun _ => ∃ e ∈ fs.freedBlocks inode 0, 8 * fs.blockSize ≤ e.toNat) := by
  rw [freeDataBlock]
  split
  case isFalse => exact Ends.pure h.pass
  case isTrue hcond =>
    obtain ⟨h12, hset⟩ := hcond
    refine (freeBlock_ends (h.step.located hloc) _).mono ?_ ?_
    · rintro _ d' ⟨hstep, hused⟩
      exact h.next hloc (Nat.zero_le k) h12 hset hstep hused
    · rintro _ ⟨-, hbig⟩
      exact ⟨_, mem_freedBlocks.mpr ⟨hset, k, Nat.zero_le k, hin, h12, rfl⟩, hbig⟩

/-- The loop of `delete_file` over the blocks of the file. -/
private theorem freeDataBlocks_ends (hloc : fs.Located d) (inode : Inode) :
    Ends ((List.range' 0 ((inode.size.toNat + fs.blockSize - 1) / fs.blockSize)).foldlM
        (fun _ blkIdx => fs.freeDataBlock inode blkIdx) ()) d
      (fun _ d' => fs.BitmapStep d d' ∧
        ∀ b, fs.BlockUsed d b → fs.BlockUsed d' b ∨ fs.Unmarked inode 0 b)
      (fun _ => ∃ e ∈ fs.freedBlocks inode 0, 8 * fs.blockSize ≤ e.toNat) := by
  set blocks := (inode.size.toNat + fs.blockSize - 1) / fs.blockSize
  have hloop := Ends.foldlM (fun k (_ : Unit) => fs.Freed d inode 0 k)
    (fun _ => ∃ e ∈ fs.freedBlocks inode 0, 8 * fs.blockSize ≤ e.toNat) blocks 0 () d
    (fun k _ _ _ hk hI => freeDataBlock_ends hloc hI (by omega))
    ⟨BitmapStep.refl hloc.healthy, fun _ hb => .inl hb⟩
  refine hloop.mono (fun _ d' hfreed => ⟨hfreed.step, ?_⟩) fun _ h => h
  exact hfreed.unmarked fun _ => by rw [Nat.zero_add]

variable (fs) in
/-- Freeing the blocks `bs` of the inode `i` clears no mark that is needed: the block after each of
    them is no metadata and of no other live inode, and none of them is the last of the group. -/
def Spares (live : Set UInt32) (d : Drive) (i : UInt32) (bs : List UInt32) : Prop :=
  ∀ b ∈ bs, b.toNat < 8 * fs.blockSize ∧ b + 1 ∉ fs.metadata d ∧
    ∀ j ∈ live, j ≠ i → b + 1 ∉ fs.refs d (fs.inodeAt d j)

/-- The successor of a block of the group. -/
theorem eq_succ_of_toNat {b c : UInt32} (h : c.toNat = b.toNat + 1) : c = b + 1 := by
  have hlt := c.toNat_lt
  apply UInt32.toNat_inj.mp
  rw [UInt32.toNat_add, UInt32.toNat_one]
  omega

theorem Spares.unmarked {lo : Nat} {c : UInt32} (h : fs.Spares live d i (fs.freedBlocks inode lo))
    (hc : fs.Unmarked inode lo c) :
    c ∉ fs.metadata d ∧ ∀ j ∈ live, j ≠ i → c ∉ fs.refs d (fs.inodeAt d j) := by
  obtain ⟨b, hb, hsucc⟩ := hc
  obtain ⟨hlt, hmeta, hothers⟩ := h b hb
  obtain rfl := eq_succ_of_toNat hsucc
  exact ⟨hmeta, hothers⟩

/-! ### Freeing the inode -/

variable (fs) in
/-- The blocks and the inode of `i` have been freed. -/
structure Released (live : Set UInt32) (d : Drive) (i : UInt32) (d' : Drive) : Prop where
  preserved : fs.Preserved (live \ {i}) d d'
  inode_used : ∀ j, fs.InodeUsed d' j ↔ fs.InodeUsed d j ∧ j ≠ i

theorem Released.of_steps (ho : fs.Owned live d) {d₁ : Drive} (hstep : fs.BitmapStep d d₁)
    (hblocks : ∀ b, fs.BlockUsed d b → fs.BlockUsed d₁ b ∨ fs.Unmarked (fs.inodeAt d i) 0 b)
    (hspares : fs.Spares live d i (fs.freedBlocks (fs.inodeAt d i) 0))
    (hfreed : fs.InodeStep d₁ d')
    (hinodes : ∀ j, fs.InodeUsed d' j ↔ fs.InodeUsed d₁ j ∧ j ≠ i) :
    fs.Released live d i d' := by
  have hdesc₁ : fs.descriptor d₁ = fs.descriptor d := hstep.descriptor_eq ho.toLocated
  obtain ⟨hne, hbitmaps⟩ := ho.toLayout.inodeBitmap_ne
  -- what neither bitmap holds is the same before and after
  have hsame : ∀ c, c ≠ (fs.descriptor d).blockBitmap → c ≠ (fs.descriptor d).inodeBitmap →
      fs.block d' c = fs.block d c := by
    intro c hblock hinode
    rw [hfreed.others c (by rwa [hdesc₁]), hstep.others c hblock]
  have hdesc : fs.block d' fs.bgDescTableBlock = fs.block d fs.bgDescTableBlock :=
    hsame _ ho.bitmap_ne.symm hne.symm
  have hinodeUsed₁ : ∀ j, fs.InodeUsed d₁ j ↔ fs.InodeUsed d j := by
    intro j
    rw [InodeUsed, InodeUsed, hdesc₁, hstep.others _ hbitmaps]
  have hblockUsed : ∀ b, fs.BlockUsed d b → ¬fs.Unmarked (fs.inodeAt d i) 0 b →
      fs.BlockUsed d' b := by
    intro b hb hkeep
    have hb₁ := (hblocks b hb).resolve_right hkeep
    refine (blockUsed_congr (hfreed.descriptor) (hfreed.others _ ?_) b).mpr hb₁
    rw [hdesc₁]
    exact hbitmaps.symm
  refine ⟨⟨?_, hdesc, fun j hj => ?_, fun j hj b hb => ?_, fun b hb => ?_, fun j hj b hb => ?_,
    fun j hj => ?_⟩, fun j => ?_⟩
  · exact hfreed.healthy
  · obtain ⟨-, hblock, hinode⟩ := ho.toLayout.slotBlock_ne (ho.valid j hj.1)
    exact inodeAt_congr (descriptor_congr hdesc) (hsame _ hblock hinode)
  · -- the bitmaps are metadata, and so no block of a file
    have hmeta := ho.outside j hj.1 b hb
    apply hsame
    · rintro rfl
      exact hmeta (List.mem_cons_of_mem _ List.mem_cons_self)
    · rintro rfl
      exact hmeta ho.toLayout.inodeBitmap_mem
  · exact hblockUsed b (ho.used b hb) fun hun => (hspares.unmarked hun).1 hb
  · exact hblockUsed b (ho.block_used j hj.1 b hb) fun hun =>
      (hspares.unmarked hun).2 j hj.1 hj.2 hb
  · exact (hinodes j).mpr ⟨(hinodeUsed₁ j).mpr (ho.inode_used j hj.1), hj.2⟩
  · rw [hinodes, hinodeUsed₁]

theorem Released.owned (ho : fs.Owned live d) (h : fs.Released live d i d') :
    fs.Owned (live \ {i}) d' :=
  h.preserved.owned (ho.mono Set.sdiff_subset)

/-! ### The entry of a file -/

section Entry

variable {name : String} {r : Record}

/-- A record that the search of `dir_remove_entry` finds is listed under that name, unless the
    search read the name out of bytes that are no text. -/
private theorem Record.listing_of_text (hempty : name ≠ "") (hdot : name ≠ "." ∧ name ≠ "..")
    (h : r.text = name) : r.listing = some (name, r.inode, r.fileType) := by
  rw [Record.text] at h
  cases hutf : fromUtf8 r.name with
  | none =>
    rw [hutf] at h
    exact absurd h.symm hempty
  | some t =>
    rw [hutf, Option.getD_some] at h
    rw [Record.listing, hutf, Option.getD_some, h]
    exact if_pos hdot

/-- A record that the search passes over is not listed under that name, unless the reader read the
    name out of bytes that are no text. -/
private theorem Record.listing_of_text_ne (hinvalid : name ≠ "<invalid>") (h : r.text ≠ name) :
    ∀ e ∈ r.listing, e.1 ≠ name := by
  intro e he
  rw [Record.text] at h
  rw [Record.listing] at he
  cases hutf : fromUtf8 r.name with
  | none =>
    simp only [hutf, Option.getD_none] at he
    split at he
    · obtain rfl := Option.some.inj he
      exact hinvalid.symm
    · cases he
  | some t =>
    rw [hutf, Option.getD_some] at h
    simp only [hutf, Option.getD_some] at he
    split at he
    · obtain rfl := Option.some.inj he
      exact h
    · cases he

/-- The search of `dir_remove_entry` finds the entry that `walk` follows. -/
private theorem lookup_listed (rs : List Record) (hempty : name ≠ "")
    (hinvalid : name ≠ "<invalid>")
    (hdot : name ≠ "." ∧ name ≠ "..") :
    lookup (listed rs) name =
      (locate name rs).map fun (_, r, _) => (name, r.inode, r.fileType) := by
  induction rs with
  | nil => rfl
  | cons r rs ih =>
    rw [locate]
    cases hlive : r.live with
    -- the listing stops at the first dead record, and so does the search
    | false =>
      rw [listed, List.takeWhile_cons_of_neg (by simp [hlive])]
      rfl
    | true =>
      have hcons : listed (r :: rs) = r.listing.toList ++ listed rs := by
        rw [listed, List.takeWhile_cons_of_pos hlive, List.filterMap_cons, listed]
        cases r.listing <;> rfl
      rw [if_neg (by simp), hcons, lookup_append, ih]
      by_cases htext : r.text = name
      · have hfound := lookup_singleton (name, r.inode, r.fileType)
        rw [if_pos htext, Record.listing_of_text hempty hdot htext, Option.toList_some, hfound]
        rfl
      · -- a record of another name is listed under another name, or not at all
        have hnone : lookup r.listing.toList name = none := by
          rw [lookup, List.find?_eq_none]
          intro e he
          simpa using Record.listing_of_text_ne hinvalid htext e (Option.mem_toList.mp he)
        rw [if_neg htext, hnone, Option.none_or, Option.map_map]
        rfl

end Entry

/-! ### The whole of `delete_file` -/

variable (fs) in
/-- What a deletion relies on when the path leads to a regular file: its last name is one that the
    search for the entry reads as `walk` does, the parent directory has direct blocks only, and
    freeing the file's blocks clears no mark that is needed. -/
def DeleteGuard (live : Set UInt32) (d : Drive) (path : String) : Prop :=
  ∀ parent name p m ft i n ft', splitParent path = .ok (parent, name) →
    fs.walk d 2 parent = .ok (p, m, ft) → fs.walk d 2 path = .ok (i, n, ft') → n.isDir = false →
      name ≠ "" ∧ name ≠ "<invalid>" ∧ m.size.toNat ≤ 12 * fs.blockSize ∧
        fs.Spares live d i (fs.freedBlocks n 0)

variable (fs) in
/-- `delete_file` has returned: the file `i` has been freed, giving `d₁`, and its record `r` removed
    from the directory `p`, whose records were `rs`. -/
structure Deleted (live : Set UInt32) (d : Drive) (name : String) (i p : UInt32)
    (rs before : List Record) (r : Record) (after : List Record) (d₁ d' : Drive) : Prop where
  mem : i ∈ live
  file : (fs.inodeAt d i).isDir = false
  parent : p ∈ live
  dir : (fs.inodeAt d p).isDir = true
  raw : fs.readFileInode d (fs.inodeAt d p) = .ok (encode rs)
  located : locate name rs = some (before, r, after)
  listing : r.listing = some (name, i, r.fileType)
  released : fs.Released live d i d₁
  saved : ∃ rs' inode' d₂, Removed before r after rs' ∧
    fs.Replaced (live \ {i}) d₁ p (encode rs') inode' d₂ d'

theorem deleteFile_ends (h : fs.SinglyLinked live d) {path : String}
    (hguard : fs.DeleteGuard live d path) :
    Ends (fs.deleteFile path) d
      (fun _ d' => ∃ name i p rs before r after d₁,
        fs.Deleted live d name i p rs before r after d₁ d')
      (fun d' => d' = d) := by
  have hc := h.toConsistent
  have ho := hc.owned
  rw [deleteFile]
  -- the checks, none of which changes the drive
  refine Ends.bind_reading (fun ⟨parent, name⟩ hsplit => ?_) fun _ _ => rfl
  refine Ends.bind_reading (fun ⟨p, m, ft⟩ hparent => ?_) fun _ _ => rfl
  refine Ends.bind_reading (fun ⟨i, n, ft'⟩ hpath => ?_) fun _ _ => rfl
  dsimp only
  split
  case isTrue => exact Ends.throw rfl
  case isFalse hnotdir =>
  obtain ⟨hp, rfl, -⟩ := hc.walk_live hparent
  obtain ⟨hi, rfl, -⟩ := hc.walk_live hpath
  have hfile : (fs.inodeAt d i).isDir = false := by simpa using hnotdir
  obtain ⟨hempty, hinvalid, hsmall, hspares⟩ := hguard _ _ _ _ _ _ _ _ hsplit hparent hpath hfile
  have hcomps := splitSlash_of_splitParent hsplit
  have hlast : name ∈ splitSlash path := by
    rw [hcomps]
    exact List.mem_append_right _ List.mem_cons_self
  have hdot : name ≠ "." ∧ name ≠ ".." :=
    ⟨fun heq => walk_ne_ok_of_dot (.inl heq) hlast _ hpath,
      fun heq => walk_ne_ok_of_dot (.inr heq) hlast _ hpath⟩
  -- the entry that led to the file is the one the search will find
  have hdir := isDir_of_walk_last hcomps hempty hparent hpath
  obtain ⟨rs, hraw, hlive⟩ := hc.dirs p hp hdir
  rw [walk_last hcomps hempty hparent hdir (readDirInode_encode hc.sized hraw),
    lookup_listed rs hempty hinvalid hdot] at hpath
  cases hloc : locate name rs with
  | none =>
    rw [hloc] at hpath
    cases hpath
  | some found =>
  obtain ⟨before, r, after⟩ := found
  obtain ⟨hrs, hr, htext, -⟩ := locate_some hloc
  have hlisting := Record.listing_of_text hempty hdot htext
  have hri : r.inode = i := by
    have hlisted : (name, r.inode, r.fileType) ∈ listed rs := by
      rw [listed_located hloc, hlisting]
      simp
    simp only [hloc, Option.map_some, hc.readInode (hlive _ hlisted), Except.bind] at hpath
    exact congrArg Prod.fst (Except.ok.inj hpath)
  have hpi : p ≠ i := by
    rintro rfl
    rw [hdir] at hfile
    cases hfile
  -- the blocks and the inode are freed
  refine ((freeDataBlocks_ends hc.toLocated _).mono (fun _ _ hQ => hQ) ?_).bind ?_
  · rintro _ ⟨e, he, hbig⟩
    have hlt := (hspares e he).1
    omega
  rintro _ d₁ ⟨hstep, hblocks⟩
  have hlayout₁ : fs.Layout d₁ := hc.toLayout.of_kept hstep.healthy
    (hstep.others _ hc.bitmap_ne.symm)
  have hused₁ : fs.InodeUsed d₁ i := by
    have hi := hc.inode_used i hi
    rwa [InodeUsed, hstep.descriptor_eq hc.toLocated,
      hstep.others _ hc.toLayout.inodeBitmap_ne.2]
  refine ((freeInode_ends hlayout₁ (hc.valid i hi) hused₁).mono (fun _ _ hQ => hQ)
    fun _ hE => hE.elim).bind ?_
  rintro _ d₂ ⟨hfreed, hinodes⟩
  have hreleased := Released.of_steps ho hstep hblocks hspares hfreed hinodes
  have ho₂ := hreleased.owned ho
  have hp₂ : p ∈ live \ {i} := ⟨hp, hpi⟩
  -- the entry is removed
  have hinode := hreleased.preserved.inodes p hp₂
  have hraw₂ : fs.readFileInode d₂ (fs.inodeAt d₂ p) = .ok (encode rs) := by
    rw [hreleased.preserved.contents (ho.mono Set.sdiff_subset) hp₂, hraw]
  have hfilled : ∀ j < 12, j * fs.blockSize < (fs.inodeAt d p).size.toNat →
      (fs.inodeAt d p).pointer j ≠ 0 := h.whole p hp hdir
  rw [← hinode] at hsmall hfilled ⊢
  refine ((dirRemoveEntry_returns ho₂.toVolume (ho₂.sound hp₂) hraw₂ hsmall hfilled hloc).mono
    (fun _ _ hQ => hQ) fun _ hE => hE.elim).bind ?_
  rintro ⟨inode', ino⟩ d₃ ⟨rs', hremoved, hrewritten⟩
  have hdesc₃ := hrewritten.descriptor_eq ho₂.toVolume (ho₂.sound hp₂)
  obtain ⟨d', hexec, hwritten⟩ := writeInode_exec
    (ho₂.toLayout.of_kept hrewritten.healthy hdesc₃) (hc.valid p hp) inode'
  exact Ends.of_exec hexec ⟨name, i, p, rs, before, r, after, d₂, hi, hfile, hp, hdir, hraw, hloc,
    hri ▸ hlisting, hreleased, rs', inode', d₃, hremoved, ho₂, hp₂, hrewritten, hwritten⟩

namespace Deleted

variable {name : String} {rs before after : List Record} {r : Record} {d₁ : Drive}

/-- The deleted file was listed by its parent only, and only once. -/
private theorem notMem_entries (h : fs.SinglyLinked live d)
    (hd : fs.Deleted live d name i p rs before r after d₁ d') :
    i ∉ (before.filterMap Record.listing ++ listed after).map (·.2.1) ∧
      ∀ q ∈ live, q ≠ p → i ∉ fs.entryInodes d q := by
  have hentries := entryInodes_dir h.sized hd.dir hd.raw
  rw [listed_located hd.located, hd.listing] at hentries
  constructor
  · have hcount := h.once p hd.parent i hd.file
    rw [hentries] at hcount
    simp only [Option.toList_some, List.map_append, List.map_cons, List.map_nil, List.count_append,
      List.count_singleton_self] at hcount
    rw [List.map_append, ← List.count_eq_zero, List.count_append]
    omega
  · intro q hq hne hmem
    have hself : i ∈ fs.entryInodes d p := by
      rw [hentries]
      simp
    have hisdir := h.apart q hq p hd.parent hne i hmem hself
    rw [hd.file] at hisdir
    cases hisdir

theorem isDir_eq (hd : fs.Deleted live d name i p rs before r after d₁ d') :
    ∀ q ∈ live \ {i}, (fs.inodeAt d' q).isDir = (fs.inodeAt d q).isDir := by
  obtain ⟨rs', inode', d₂, -, hr⟩ := hd.saved
  intro q hq
  rw [hr.isDir_eq hq, hd.released.preserved.inodes q hq]

/-- What is left of the parent's listing. -/
private theorem listed_sub (hd : fs.Deleted live d name i p rs before r after d₁ d') :
    (before.filterMap Record.listing ++ listed after).Sublist (listed rs) := by
  rw [listed_located hd.located]
  exact (List.sublist_append_right _ _).append_left _

/-- The parent directory afterwards. -/
theorem raw_after (hd : fs.Deleted live d name i p rs before r after d₁ d') :
    ∃ rs', fs.readFileInode d' (fs.inodeAt d' p) = .ok (encode rs') ∧
      (listed rs').Sublist (before.filterMap Record.listing ++ listed after) := by
  obtain ⟨rs', inode', d₂, hremoved, hr⟩ := hd.saved
  refine ⟨rs', ?_, hremoved.listed_sublist fun q hq => ?_⟩
  · rw [hr.inodeAt_self]
    exact hr.contents_self
  · exact ((locate_some hd.located).2.2.2 q hq).1

/-- The other directories, and the other files, are read as before. -/
theorem contents_other (h : fs.SinglyLinked live d)
    (hd : fs.Deleted live d name i p rs before r after d₁ d') :
    ∀ q ∈ live \ {i}, q ≠ p →
      fs.readFileInode d' (fs.inodeAt d' q) = fs.readFileInode d (fs.inodeAt d q) := by
  obtain ⟨rs', inode', d₂, -, hr⟩ := hd.saved
  intro q hq hne
  have ho := h.toConsistent.owned.mono (Set.sdiff_subset (s := live) (t := {i}))
  rw [hr.contents_other hq hne, hd.released.preserved.contents ho hq]

theorem owned (h : fs.SinglyLinked live d)
    (hd : fs.Deleted live d name i p rs before r after d₁ d') : fs.Owned (live \ {i}) d' := by
  obtain ⟨rs', inode', d₂, hremoved, hr⟩ := hd.saved
  -- the parent does not shrink, so no block of it is freed
  have hsize : (fs.inodeAt d₁ p).size.toNat ≤ (encode rs').length := by
    rw [hd.released.preserved.inodes p hr.mem, ← length_readFileInode h.sized hd.raw,
      hremoved.length_encode, ← (locate_some hd.located).1]
  exact hr.owned fun b hun => absurd hun (not_unmarked hsize b)

theorem consistent (h : fs.SinglyLinked live d)
    (hd : fs.Deleted live d name i p rs before r after d₁ d') :
    fs.Consistent (live \ {i}) d' := by
  obtain ⟨hself, hothers⟩ := hd.notMem_entries h
  obtain ⟨rs', hraw', hsub⟩ := hd.raw_after
  have hroot : 2 ∈ live \ {i} := by
    refine ⟨h.root, ?_⟩
    rintro rfl
    have hfile := hd.file
    rw [h.root_dir] at hfile
    cases hfile
  apply (hd.owned h).consistent hroot
  intro q hq hdir
  rw [hd.isDir_eq q hq] at hdir
  obtain ⟨rs₀, hraw₀, hlive⟩ := h.dirs q hq.1 hdir
  -- what a directory lists was live, and it is not the deleted file
  by_cases hqp : q = p
  · subst hqp
    obtain rfl := encode_injective (Except.ok.inj (hd.raw.symm.trans hraw₀))
    refine ⟨rs', hraw', fun e he => ⟨hlive e (hd.listed_sub.subset (hsub.subset he)), ?_⟩⟩
    rintro rfl
    exact hself (List.mem_map_of_mem (hsub.subset he))
  · refine ⟨rs₀, (hd.contents_other h q hq hqp).trans hraw₀, fun e he => ⟨hlive e he, ?_⟩⟩
    rintro rfl
    apply hothers q hq.1 hqp
    rw [entryInodes_dir h.sized hdir hraw₀]
    exact List.mem_map_of_mem he

/-- After a deletion the filesystem is as good as before, without the inode. -/
theorem singlyLinked (h : fs.SinglyLinked live d)
    (hd : fs.Deleted live d name i p rs before r after d₁ d') :
    fs.SinglyLinked (live \ {i}) d' := by
  have hpres := hd.released.preserved
  have ho := h.toConsistent.owned.mono (Set.sdiff_subset (s := live) (t := {i}))
  obtain ⟨rs₁, inode', d₂, -, hr⟩ := hd.saved
  obtain ⟨rs', hraw', hsub⟩ := hd.raw_after
  apply h.of_sublist (hd.consistent h)
  · intro j hvalid hused
    obtain ⟨hold, hne⟩ := (hd.released.inode_used j).mp ((hr.inodeUsed_iff j).mp hused)
    exact ⟨h.marked j hvalid hold, hne⟩
  · exact fun j _ hj => hd.isDir_eq j hj
  · apply hr.whole
    intro q hq hdir
    rw [hpres.inodes q hq] at hdir ⊢
    exact h.whole q hq.1 hdir
  · intro q hq
    refine .inr ⟨hq.1, ?_⟩
    -- only the parent directory has lost an entry
    by_cases hqp : q = p
    · subst hqp
      have hdir : (fs.inodeAt d' q).isDir = true := (hd.isDir_eq q hq).trans hd.dir
      rw [entryInodes_dir h.sized hdir hraw', entryInodes_dir h.sized hd.dir hd.raw]
      exact (hsub.trans hd.listed_sub).map _
    · have hread := hpres.contents ho hq
      rw [hpres.inodes q hq] at hread
      rw [hr.entryInodes_other hq hqp, entryInodes_congr (hpres.inodes q hq) hread]

end Deleted

end Ext3Fs

end RustKernel.Fs
