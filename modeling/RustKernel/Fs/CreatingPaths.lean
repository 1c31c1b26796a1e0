import RustKernel.Fs.RoundTrip

/-!
# RustKernel.Fs.CreatingPaths

Which paths `create_file` accepts, and whether the file it has made can be read under its path.

## Main result

* `createFile_reads_iff`: where a walk to `parent` ends in a directory without an entry `name`,
  `create_file` on `parent/name` returns and the path reads as the empty file exactly if the parent
  is not the empty path, no record of the directory is dead, and block group 0 has a free inode and
  the blocks by which the directory grows
-/

namespace RustKernel.Fs

open Lib

namespace Ext3Fs

variable {fs : Ext3Fs} {live : Set UInt32} {d d' : Drive} {p : UInt32} {parent name : String}
  {rs : List Record}

private theorem splitParent_append (hslash : '/' ∉ name.toList) :
    splitParent (parent ++ "/" ++ name) =
      if parent = "" then .error (.error "need absolute path") else .ok (parent, name) := by
  rw [splitParent, rsplitSlash_append parent hslash]

/-- Behind the first slash of a path nothing is created in the root directory. -/
private theorem createFile_root_fails (hslash : '/' ∉ name.toList) :
    (fs.createFile ("" ++ "/" ++ name)).exec d = (.error (.error "need absolute path"), d) := by
  rw [createFile, Fallible.exec_bind, Fallible.exec_reading, splitParent_append hslash, if_pos rfl]

private theorem readFileInode_emptyFile (h : fs.Sized) (d : Drive) :
    fs.readFileInode d emptyFile = .ok [] := by
  have hblocks : (emptyFile.size.toNat + fs.blockSize - 1) / fs.blockSize = 0 := by
    have hbounds := h.bounds
    have hempty : emptyFile.size.toNat = 0 := rfl
    exact Nat.div_eq_of_lt (by omega)
  simp only [readFileInode, hblocks]
  rfl

/-- The file that was created reads as the empty one if its entry is listed. -/
private theorem GroupCreated.readFile_path {path : String} {ino : UInt32} {d₁ : Drive}
    (h : fs.GroupCreated live d path name p ino rs d₁ d') :
    fs.readFile d' path = .ok [] ↔ Visible rs name := by
  have hwalk := h.walk_path
  by_cases hvisible : Visible rs name
  · rw [if_pos hvisible] at hwalk
    rw [readFile_of_walk hwalk, if_neg (by decide), readFileInode_emptyFile h.before.sized]
    exact ⟨fun _ => hvisible, fun _ => rfl⟩
  · rw [if_neg hvisible] at hwalk
    rw [readFile, hwalk]
    constructor
    · intro hok
      cases hok
    · intro h
      exact absurd h hvisible

/-- A file of a new name is created and can be read exactly if the parent is not the empty path, no
    record of the directory is dead, and group 0 has an inode and the blocks. -/
theorem createFile_reads_iff (fs : Ext3Fs) (live : Set UInt32) (d : Drive) (parent name : String)
    (p : UInt32) (n : Inode) (ft : UInt8) (rs : List Record) (hc : fs.GroupConsistent live d)
    (hwalk : fs.walk d 2 parent = .ok (p, n, ft)) (hdir : n.isDir = true)
    (hraw : fs.readFileInode d n = .ok (encode rs)) (hnonempty : name ≠ "")
    (hname : name.utf8ByteSize ≤ 255) (hslash : '/' ∉ name.toList) (hdot : name ≠ ".")
    (hdots : name ≠ "..") (hunlisted : ∀ e ∈ listed rs, e.1 ≠ name)
    (hspare : fs.freeInodes d ≠ [] → fs.Fits d n (grownLength rs name) →
      fs.Spare live d (missing n (fs.blockCount (grownLength rs name)))) :
    (∃ d', (fs.createFile (parent ++ "/" ++ name)).exec d = (.ok (), d') ∧
        fs.readFile d' (parent ++ "/" ++ name) = .ok []) ↔
      parent ≠ "" ∧ (∀ r ∈ rs, r.live = true) ∧ fs.freeInodes d ≠ [] ∧
        fs.Fits d n (grownLength rs name) := by
  obtain ⟨hp, rfl, -⟩ := hc.walk_live hwalk
  -- with an empty parent `splitParent` fails, whatever the disk
  by_cases hroot : parent = ""
  · subst hroot
    rw [createFile_root_fails hslash]
    constructor
    · rintro ⟨d', hexec, -⟩
      cases hexec
    · rintro ⟨hne, -⟩
      exact absurd rfl hne
  have hready : fs.Creatable d (parent ++ "/" ++ name) name p rs := by
    refine ⟨⟨parent, ?_, ft, hwalk⟩, hnonempty, hname, hdir, hraw, hunlisted⟩
    rw [splitParent_append hslash, if_neg hroot]
  have hentry : fs.EntrySpare live d (parent ++ "/" ++ name) := hready.entrySpare hspare
  constructor
  · rintro ⟨d', hexec, hread⟩
    obtain ⟨ino, d₁, hcreated⟩ := (hready.outcome hc hentry).ok hexec
    exact ⟨hroot, (hcreated.readFile_path.mp hread).1, hcreated.freeInodes_ne_nil, hcreated.fits⟩
  · rintro ⟨-, halive, hfree, hfits⟩
    obtain ⟨d', ino, d₁, hexec, hcreated⟩ := createFile_returns hc hready hentry hfree hfits
    exact ⟨d', hexec, hcreated.readFile_path.mpr ⟨halive, hdot, hdots⟩⟩

end Ext3Fs

/-! ### The small volume with two files -/

namespace Sample

theorem groupConsistent_diskWithFiles : fs.GroupConsistent {i | i ∈ inodes} diskWithFiles :=
  consistent_diskWithFiles.group

theorem groupMarked_diskWithFiles : fs.GroupMarked {i | i ∈ inodes} diskWithFiles :=
  consistent_diskWithFiles.groupMarked rfl

/-- Where a walk on the small volume ends, from the number of the inode. -/
private theorem walk_of_number {path : String} {i : UInt32}
    (h : (fs.walk diskWithFiles 2 path).map Prod.fst = .ok i) :
    ∃ ft, fs.walk diskWithFiles 2 path = .ok (i, fs.inodeOf diskWithFiles i, ft) := by
  cases hwalk : fs.walk diskWithFiles 2 path with
  | error e =>
    rw [hwalk] at h
    cases h
  | ok found =>
    obtain ⟨j, n, ft⟩ := found
    rw [hwalk] at h
    obtain rfl := Except.ok.inj h
    obtain ⟨-, rfl, -⟩ := groupConsistent_diskWithFiles.walk_live hwalk
    exact ⟨ft, rfl⟩

private theorem inodeOf_diskWithFiles {i : UInt32} (hi : i ∈ inodes) :
    fs.inodeOf diskWithFiles i = fs.inodeAt diskWithFiles i :=
  consistent_diskWithFiles.inodeOf_single hi

theorem creatable_h : fs.Creatable diskWithFiles "/d/h" "h" 11 files where
  split := by
    obtain ⟨ft, hwalk⟩ := walk_of_number walks_diskWithFiles.2.1
    exact ⟨"/d", by decide, ft, hwalk⟩
  nonempty := by decide
  name_le := by decide
  dir := by
    rw [inodeOf_diskWithFiles (by decide), isDir_diskWithFiles (by decide)]
    exact .inr rfl
  raw := by
    rw [inodeOf_diskWithFiles (by decide)]
    exact read_files
  unlisted := by
    rw [listed_files]
    decide

/-- The block 13 is free. -/
theorem freeBlocks_diskWithFiles : 0 < (fs.freeBlocks diskWithFiles).length := by
  have hclear : fs.blockBit diskWithFiles 0 12 = false := by
    rw [Bool.eq_false_iff]
    intro hset
    have hused : fs.BlockUsed diskWithFiles 13 :=
      Ext3Fs.blockUsed_iff_bit.mpr ⟨by decide, hset⟩
    exact absurd ((blockUsed_diskWithFiles (by decide)).mp hused) (by decide)
  refine List.length_pos_of_mem (Ext3Fs.mem_clearBits.mpr ⟨⟨?_, by decide⟩, hclear⟩)
  rw [Ext3Fs.length_block (.inl rfl)]
  decide

/-- So is the inode 14. -/
theorem freeInodes_diskWithFiles : fs.freeInodes diskWithFiles ≠ [] := by
  have hclear : fs.inodeBit diskWithFiles 0 13 = false := by
    rw [Bool.eq_false_iff]
    intro hset
    have hused : fs.InodeUsed diskWithFiles 14 :=
      Ext3Fs.inodeUsed_iff_bit.mpr ⟨by decide, hset⟩
    exact absurd ((inodeUsed_diskWithFiles (by decide)).mp hused) (by decide)
  refine List.ne_nil_of_mem (Ext3Fs.mem_clearBits.mpr ⟨⟨?_, by decide⟩, hclear⟩)
  rw [Ext3Fs.length_block (.inl rfl)]
  decide

/-- The directory does not grow beyond its block. -/
theorem missing_h : Ext3Fs.missing (fs.inodeOf diskWithFiles 11)
    (fs.blockCount (Ext3Fs.grownLength files "h")) = 0 := by
  rw [inodeOf_diskWithFiles (by decide), inodeAt_diskWithFiles (by decide)]
  decide

theorem fits_h : fs.Fits diskWithFiles (fs.inodeOf diskWithFiles 11)
    (Ext3Fs.grownLength files "h") := by
  refine ⟨by decide, ?_⟩
  rw [missing_h]
  exact Nat.zero_le _

theorem h_reads_empty :
    (∃ d', (fs.createFile ("/d" ++ "/" ++ "h")).exec diskWithFiles = (.ok (), d') ∧
        fs.readFile d' ("/d" ++ "/" ++ "h") = .ok []) ↔
      "/d" ≠ "" ∧ (∀ r ∈ files, r.live = true) ∧ fs.freeInodes diskWithFiles ≠ [] ∧
        fs.Fits diskWithFiles (fs.inodeOf diskWithFiles 11) (Ext3Fs.grownLength files "h") := by
  obtain ⟨ft, hwalk⟩ := walk_of_number walks_diskWithFiles.2.1
  exact Ext3Fs.createFile_reads_iff fs _ diskWithFiles "/d" "h" 11 _ ft files
    groupConsistent_diskWithFiles hwalk creatable_h.dir creatable_h.raw (by decide) (by decide)
    (by decide) (by decide) (by decide) creatable_h.unlisted
    fun _ _ => groupMarked_diskWithFiles.spare _

/-- `/h` is not created in the root directory. -/
theorem root_h_refused :
    ¬∀ (fs : Ext3Fs) (live : Set UInt32) (d : Drive) (parent name : String) (p : UInt32)
      (n : Inode) (ft : UInt8) (rs : List Record), fs.GroupConsistent live d →
      fs.GroupMarked live d → fs.walk d 2 parent = .ok (p, n, ft) → n.isDir = true →
      fs.readFileInode d n = .ok (encode rs) → name ≠ "" → name.utf8ByteSize ≤ 255 →
      '/' ∉ name.toList → name ≠ "." → name ≠ ".." → (∀ e ∈ listed rs, e.1 ≠ name) →
      fs.freeInodes d ≠ [] → fs.Fits d n (Ext3Fs.grownLength rs name) →
        ∃ d', (fs.createFile (parent ++ "/" ++ name)).exec d = (.ok (), d') ∧
          fs.readFile d' (parent ++ "/" ++ name) = .ok [] := by
  intro h
  obtain ⟨ft, hwalk⟩ := walk_of_number walks_diskWithFiles.1
  have hraw : fs.readFileInode diskWithFiles (fs.inodeOf diskWithFiles 2) =
      .ok (encode rootEntries) := by
    rw [inodeOf_diskWithFiles (by decide)]
    exact read_root
  have hmissing : Ext3Fs.missing (fs.inodeOf diskWithFiles 2)
      (fs.blockCount (Ext3Fs.grownLength rootEntries "h")) = 0 := by
    rw [inodeOf_diskWithFiles (by decide), inodeAt_diskWithFiles (by decide)]
    decide
  have hdir : (fs.inodeOf diskWithFiles 2).isDir = true := by
    rw [inodeOf_diskWithFiles (by decide), isDir_diskWithFiles (by decide)]
    exact .inl rfl
  obtain ⟨d', hexec, -⟩ := h fs _ diskWithFiles "" "h" 2 _ ft rootEntries
    groupConsistent_diskWithFiles groupMarked_diskWithFiles hwalk hdir hraw
    (by decide) (by decide) (by decide) (by decide) (by decide)
    (by rw [listed_rootEntries]; decide) freeInodes_diskWithFiles
    ⟨by decide, by rw [hmissing]; exact Nat.zero_le _⟩
  rw [Ext3Fs.createFile_root_fails (by decide)] at hexec
  cases hexec

end Sample

end RustKernel.Fs
