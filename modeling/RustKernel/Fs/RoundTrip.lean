import RustKernel.Fs.Creating
import RustKernel.Fs.DirectoryRuns

/-!
# RustKernel.Fs.RoundTrip

What `write_file` writes is what `read_file` reads, and every other file reads as before.

## Main result

`write_read_frame`: if `write_file` returns on a consistent filesystem whose directories hold no
dead record, the path reads as the data, and every path that led to another inode reads as before.

## Proof strategy

A path that resolves is saved in place (`writeFile_existing`). A path that does not is created
first; then it resolves to the new, empty file, and the nested call saves that one. A path with a
component `.` or `..` never resolves, so `write_file` never returns on it.
-/

namespace RustKernel.Fs

open Lib

namespace Ext3Fs

variable {fs : Ext3Fs} {live : Set UInt32} {d d' : Drive} {i j : UInt32} {path : String}
  {data : List UInt8} {n : Inode} {ft : UInt8}

/-! ### Saving an existing file -/

theorem saveFile_ends (hc : fs.Consistent live d) (hi : i ∈ live) (data : List UInt8) :
    Ends (fs.writeFileData (fs.inodeAt d i) data >>= fun inode => fs.writeInode i inode) d
      (fun _ d' => ∃ inode' d₁, fs.Saved live d i data inode' d₁ d')
      (fs.WriteFailed d (fs.inodeAt d i) data) := by
  have hsound := hc.sound hi
  apply (writeFileData_ends hc.toVolume hsound data).bind
  intro inode' d₁ hrewritten
  have hdesc := hrewritten.descriptor_eq hc.toVolume hsound
  have hlayout := hc.toLayout.of_kept hrewritten.healthy hdesc
  obtain ⟨d₂, hexec, hwritten⟩ := writeInode_exec hlayout (hc.valid i hi) inode'
  exact Ends.of_exec hexec ⟨inode', d₁, hc, hi, hrewritten, hwritten⟩

/-- `write_file` on a path that resolves to a file. -/
theorem writeFile_of_walk (hwalk : fs.walk d 2 path = .ok (i, n, ft)) (hfile : ft ≠ FT_DIR)
    (depth : Nat) :
    (fs.writeFile (depth + 1) path data).exec d =
      (fs.writeFileData n data >>= fun inode => fs.writeInode i inode).exec d := by
  rw [writeFile, Fallible.exec_bind, Fallible.exec_reading]
  simp only [hwalk, if_neg hfile]

/-- `write_file` on a path that does not resolve. -/
theorem writeFile_of_walk_error {msg : String} (hwalk : fs.walk d 2 path = .error (.error msg))
    (depth : Nat) :
    (fs.writeFile (depth + 1) path data).exec d =
      (fs.createFile path >>= fun _ => fs.writeFile depth path data).exec d := by
  rw [writeFile, Fallible.exec_bind, Fallible.exec_reading]
  simp only [hwalk]

/-- A panic on the path stops `write_file`. -/
theorem writeFile_of_walk_panic {e : Failure} (hwalk : fs.walk d 2 path = .error e)
    (hpanic : ∀ msg, e ≠ .error msg) (depth : Nat) :
    (fs.writeFile (depth + 1) path data).exec d = (.error e, d) := by
  rw [writeFile, Fallible.exec_bind, Fallible.exec_reading]
  cases e with
  | error msg => exact absurd rfl (hpanic msg)
  | panic =>
    simp only [hwalk]
    rfl
  | unfinished =>
    simp only [hwalk]
    rfl

/-- When `write_file` returns on a path that does not resolve, the walk had returned an error. -/
private theorem walk_error_of_writeFile {e : Failure} (hwalk : fs.walk d 2 path = .error e)
    {depth : Nat}
    (hwrite : (fs.writeFile (depth + 1) path data).exec d = (.ok (), d')) :
    ∃ msg, e = .error msg := by
  by_contra hnone
  rw [writeFile_of_walk_panic hwalk (not_exists.mp hnone)] at hwrite
  cases hwrite

/-- When the file cannot be created, `write_file` fails with the error. -/
theorem writeFile_create_fails {msg : String} {e : Failure}
    (hwalk : fs.walk d 2 path = .error (.error msg))
    (hcreate : (fs.createFile path).exec d = (.error e, d')) (depth : Nat) :
    (fs.writeFile (depth + 1) path data).exec d = (.error e, d') := by
  rw [writeFile_of_walk_error hwalk, Fallible.exec_bind, hcreate]

/-- When the file has been created, `write_file` calls itself. -/
theorem writeFile_creates {msg : String} (hwalk : fs.walk d 2 path = .error (.error msg))
    (hcreate : (fs.createFile path).exec d = (.ok (), d')) (depth : Nat) :
    (fs.writeFile (depth + 1) path data).exec d = (fs.writeFile depth path data).exec d' := by
  rw [writeFile_of_walk_error hwalk, Fallible.exec_bind, hcreate]

/-- When `write_file` returns on a path that resolves, it has saved the file it leads to. -/
theorem writeFile_existing (hc : fs.Consistent live d) (hwalk : fs.walk d 2 path = .ok (i, n, ft))
    {depth : Nat} (hwrite : (fs.writeFile depth path data).exec d = (.ok (), d')) :
    (fs.inodeAt d i).isDir = false ∧ ∃ inode' d₁, fs.Saved live d i data inode' d₁ d' := by
  obtain ⟨hi, rfl, rfl⟩ := hc.walk_live hwalk
  cases depth with
  | zero => cases hwrite
  | succ depth =>
    cases hdir : (fs.inodeAt d i).isDir with
    | true =>
      -- a directory is refused
      have hft : fileType (fs.inodeAt d i) = FT_DIR := by rw [fileType, if_pos hdir]
      rw [writeFile, Fallible.exec_bind, Fallible.exec_reading] at hwrite
      simp only [hwalk, if_pos hft] at hwrite
      cases hwrite
    | false =>
      have hft : fileType (fs.inodeAt d i) ≠ FT_DIR := by
        rw [fileType, if_neg (by simp [hdir])]
        decide
      rw [writeFile_of_walk hwalk hft] at hwrite
      exact ⟨rfl, (saveFile_ends hc hi data).ok hwrite⟩

namespace Saved

variable {inode' : Inode} {d₁ : Drive}

/-- Saving a file leaves every directory as it was. -/
private theorem outgrows_of_file (h : fs.Saved live d i data inode' d₁ d')
    (hfile : (fs.inodeAt d i).isDir = false) :
    fs.Outgrows live d (fs.inodeAt d) d' (fs.inodeAt d') := by
  apply h.outgrows
  intro hdir
  rw [hfile] at hdir
  cases hdir

private theorem readFile_self (h : fs.Saved live d i data inode' d₁ d')
    (hfile : (fs.inodeAt d i).isDir = false) (hwalk : fs.walk d 2 path = .ok (i, n, ft)) :
    fs.readFile d' path = .ok data := by
  have hext := h.outgrows_of_file hfile
  have hnot : ¬(fs.inodeAt d' i).isDir = true := by
    rw [hext.kind i h.mem, hfile]
    decide
  rw [readFile_of_walk (h.before.browsable.walk_outgrown hext hwalk), if_neg hnot, h.replaced.inodeAt_self]
  exact h.replaced.contents_self

private theorem readFile_other (h : fs.Saved live d i data inode' d₁ d')
    (hfile : (fs.inodeAt d i).isDir = false) (hwalk : fs.walk d 2 path = .ok (j, n, ft))
    (hne : j ≠ i) : fs.readFile d' path = fs.readFile d path := by
  apply h.before.readFile_eq (h.outgrows_of_file hfile) hwalk
  intro _
  exact h.replaced.contents_other (h.before.walk_live hwalk).1 hne

end Saved

/-! ### Writing a file that may have to be created -/

/-- A path that never resolves is created again and again, until that fails. -/
private theorem writeFile_ne_ok_of_dot {component : String}
    (hdot : component = "." ∨ component = "..")
    (hmem : component ∈ splitSlash path) (depth : Nat) :
    (fs.writeFile depth path data).exec d ≠ (.ok (), d') := by
  induction depth generalizing d with
  | zero =>
    intro hwrite
    cases hwrite
  | succ depth ih =>
    cases hwalk : fs.walk d 2 path with
    | ok found => exact absurd hwalk (walk_ne_ok_of_dot hdot hmem found)
    | error e =>
      intro hwrite
      obtain ⟨msg, rfl⟩ := walk_error_of_writeFile hwalk hwrite
      cases hcreate : (fs.createFile path).exec d with
      | mk result d₁ =>
        cases result with
        | error e =>
          rw [writeFile_create_fails hwalk hcreate] at hwrite
          cases hwrite
        | ok _ =>
          rw [writeFile_creates hwalk hcreate] at hwrite
          exact ih hwrite

variable (fs) in
/-- A consistent filesystem whose directories hold no dead record. -/
structure Unbroken (live : Set UInt32) (d : Drive) : Prop extends fs.Consistent live d where
  alive : ∀ i ∈ live, (fs.inodeAt d i).isDir = true →
    ∀ rs, fs.readFileInode d (fs.inodeAt d i) = .ok (encode rs) → ∀ r ∈ rs, r.live = true

/-- When `write_file` returns on a path that does not resolve, it has created the file and saved
    the new one. -/
private theorem writeFile_created (hu : fs.Unbroken live d) {e : Failure}
    (hwalk : fs.walk d 2 path = .error e) {depth : Nat}
    (hwrite : (fs.writeFile depth path data).exec d = (.ok (), d')) :
    ∃ name p ino rs d₁ inode' d₂, fs.Created live d path name p ino rs d₁ ∧
      fs.walk d₁ 2 path = .ok (ino, emptyFile, FT_REG) ∧
      fs.Saved (insert ino live) d₁ ino data inode' d₂ d' := by
  have hc := hu.toConsistent
  cases depth with
  | zero => cases hwrite
  | succ depth =>
    obtain ⟨msg, rfl⟩ := walk_error_of_writeFile hwalk hwrite
    cases hcreate : (fs.createFile path).exec d with
    | mk result d₁ =>
      cases result with
      | error e =>
        rw [writeFile_create_fails hwalk hcreate] at hwrite
        cases hwrite
      | ok _ =>
        have hnested := hwrite
        rw [writeFile_creates hwalk hcreate] at hnested
        obtain ⟨name, p, ino, rs, hcreated⟩ := (createFile_ends hc path).ok hcreate
        have hlive := hu.alive p hcreated.mem hcreated.dir rs hcreated.raw
        -- a last name `.` or `..` would have kept the nested call from returning
        have hdot : name ≠ "." ∧ name ≠ ".." := by
          constructor
          · intro heq
            exact writeFile_ne_ok_of_dot (.inl heq) hcreated.last _ hwrite
          · intro heq
            exact writeFile_ne_ok_of_dot (.inr heq) hcreated.last _ hwrite
        have hfound := hcreated.walk_path
        rw [if_pos ⟨hlive, hdot⟩] at hfound
        obtain ⟨-, inode', d₂, hsaved⟩ := writeFile_existing hcreated.consistent hfound hnested
        exact ⟨name, p, ino, rs, d₁, inode', d₂, hcreated, hfound, hsaved⟩

/-- **Round trip with frame**: what `write_file` wrote is read back, and a path that led to another
    inode reads as before. -/
theorem write_read_frame (hu : fs.Unbroken live d) (path : String) (data : List UInt8) (depth : Nat)
    (hwrite : (fs.writeFile depth path data).exec d = (.ok (), d')) :
    fs.readFile d' path = .ok data ∧
      ∀ q j n ft, fs.walk d 2 q = .ok (j, n, ft) →
        (∀ m kind, fs.walk d 2 path ≠ .ok (j, m, kind)) → fs.readFile d' q = fs.readFile d q := by
  have hc := hu.toConsistent
  cases hwalk : fs.walk d 2 path with
  | ok found =>
    obtain ⟨i, n, ft⟩ := found
    obtain ⟨hfile, inode', d₁, hsaved⟩ := writeFile_existing hc hwalk hwrite
    constructor
    · exact hsaved.readFile_self hfile hwalk
    · intro q j m kind hq hother
      apply hsaved.readFile_other hfile hq
      rintro rfl
      exact hother n ft rfl
  | error e =>
    obtain ⟨name, p, ino, rs, d₁, inode', d₂, hcreated, hfound, hsaved⟩ :=
      writeFile_created hu hwalk hwrite
    have hfile : (fs.inodeAt d₁ ino).isDir = false := by
      rw [hcreated.empty]
      rfl
    constructor
    · exact hsaved.readFile_self hfile hfound
    · intro q j m kind hq _
      have hj : j ∈ live := (hc.walk_live hq).1
      have hne : j ≠ ino := by
        rintro rfl
        exact hcreated.notMem hj
      -- first the directory has changed, then the new file
      have hq₁ := hc.browsable.walk_outgrown hcreated.outgrows hq
      rw [hsaved.readFile_other hfile hq₁ hne]
      apply hc.readFile_eq hcreated.outgrows hq
      intro hnotdir
      apply hcreated.contents j hj
      rintro rfl
      rw [hcreated.dir] at hnotdir
      cases hnotdir

end Ext3Fs

/-! ### A small volume with two files -/

namespace Sample

/-- The directory `d` with the files `f` and `g`. -/
def files : List Record :=
  dots ++ [⟨12, FT_REG, [102], [0, 0, 0], by decide, by decide⟩,
    ⟨13, FT_REG, [103], [0, 0, 0], by decide, by decide⟩]

/-- A file of one byte. -/
def byteFile (block : UInt32) : Inode := { Ext3Fs.emptyFile.setPointer 0 block with size := 1 }

/-- The files `f` and `g` have the blocks 11 and 12. -/
def imageWithFiles : Nat → List UInt8
  | 2 => leEncode 4 3 ++ leEncode 4 4 ++ leEncode 4 5
  | 3 => [0xFF, 0x0F]
  | 4 => [0xFF, 0x1F]
  | 5 => List.replicate 116 0 ++ (directory rootEntries 9).toBytes
  | 6 => List.replicate 232 0 ++ (directory files 10).toBytes ++ (byteFile 11).toBytes ++
    (byteFile 12).toBytes
  | 9 => encode rootEntries
  | 10 => encode files
  | 11 => [70]
  | 12 => [71]
  | _ => []

def diskWithFiles : Drive := .ofBlocks imageWithFiles

/-- The inodes marked used; those below 11 are reserved, the root apart. -/
def inodes : List UInt32 := [1, 2, 3, 4, 5, 6, 7, 8, 9, 10, 11, 12, 13]

def blocksOf (i : UInt32) : List UInt32 :=
  if i = 2 then [9] else if i = 11 then [10] else if i = 12 then [11]
  else if i = 13 then [12] else []

/-- What the inode table holds: the reserved inodes are zero, the root apart. -/
def nodeOf (i : UInt32) : Inode :=
  if i = 2 then directory rootEntries 9 else if i = 11 then directory files 10
  else if i = 12 then byteFile 11 else if i = 13 then byteFile 12
  else .ofBytes (List.replicate INODE_LEN 0) 0

/-- The volume, evaluated: everything else about it follows from this. -/
private theorem diskWithFiles_holds :
    ((∀ i ∈ inodes, window (fs.block diskWithFiles (fs.slotBlock diskWithFiles i))
      (fs.slotOffset i) INODE_LEN = (nodeOf i).toBytes ∧
        fs.refs diskWithFiles (nodeOf i) = blocksOf i) ∧
      fs.readFileInode diskWithFiles (nodeOf 2) = .ok (encode rootEntries) ∧
        fs.readFileInode diskWithFiles (nodeOf 11) = .ok (encode files)) ∧
    ((fs.descriptor diskWithFiles).blockBitmap = 3 ∧
      fs.metadata diskWithFiles = [2, 3, 4, 5, 6] ∧
        (∀ k ≤ 16, fs.BlockUsed diskWithFiles (UInt32.ofNat k) ↔ 1 ≤ k ∧ k ≤ 12) ∧
          ∀ k ≤ 16, fs.InodeUsed diskWithFiles (UInt32.ofNat k) ↔ UInt32.ofNat k ∈ inodes) ∧
    (fs.walk diskWithFiles 2 "").map Prod.fst = .ok 2 ∧
      (fs.walk diskWithFiles 2 "/d").map Prod.fst = .ok 11 ∧
        (fs.walk diskWithFiles 2 "/d/f").map Prod.fst = .ok 12 ∧
          (fs.walk diskWithFiles 2 "/d/g").map Prod.fst = .ok 13 := by
  decide +kernel

theorem blockUsed_diskWithFiles {b : UInt32} (hb : b.toNat ≤ 16) :
    fs.BlockUsed diskWithFiles b ↔ 1 ≤ b.toNat ∧ b.toNat ≤ 12 := by
  have hused := diskWithFiles_holds.2.1.2.2.1 b.toNat hb
  rwa [UInt32.ofNat_toNat] at hused

theorem inodeUsed_diskWithFiles {i : UInt32} (hi : i.toNat ≤ 16) :
    fs.InodeUsed diskWithFiles i ↔ i ∈ inodes := by
  have hused := diskWithFiles_holds.2.1.2.2.2 i.toNat hi
  rwa [UInt32.ofNat_toNat] at hused

theorem metadata_diskWithFiles : fs.metadata diskWithFiles = [2, 3, 4, 5, 6] :=
  diskWithFiles_holds.2.1.2.1

/-- Where the paths lead. -/
theorem walks_diskWithFiles :
    (fs.walk diskWithFiles 2 "").map Prod.fst = .ok 2 ∧
      (fs.walk diskWithFiles 2 "/d").map Prod.fst = .ok 11 ∧
      (fs.walk diskWithFiles 2 "/d/f").map Prod.fst = .ok 12 ∧
      (fs.walk diskWithFiles 2 "/d/g").map Prod.fst = .ok 13 := diskWithFiles_holds.2.2

theorem listed_rootEntries : listed rootEntries = [("d", 11, FT_DIR)] := by decide

theorem listed_files : listed files = [("f", 12, FT_REG), ("g", 13, FT_REG)] := by decide

theorem inodeAt_diskWithFiles {i : UInt32} (hi : i ∈ inodes) :
    fs.inodeAt diskWithFiles i = nodeOf i := by
  rw [Ext3Fs.inodeAt, ← Inode.ofBytes_window, (diskWithFiles_holds.1.1 i hi).1,
    Inode.ofBytes_toBytes]

theorem refs_diskWithFiles {i : UInt32} (hi : i ∈ inodes) :
    fs.refs diskWithFiles (fs.inodeAt diskWithFiles i) = blocksOf i := by
  rw [inodeAt_diskWithFiles hi, (diskWithFiles_holds.1.1 i hi).2]

theorem isDir_diskWithFiles {i : UInt32} (hi : i ∈ inodes) :
    (fs.inodeAt diskWithFiles i).isDir = true ↔ i = 2 ∨ i = 11 := by
  have hdirs : ∀ i ∈ inodes, (nodeOf i).isDir = true ↔ i = 2 ∨ i = 11 := by decide
  rw [inodeAt_diskWithFiles hi]
  exact hdirs i hi

theorem read_root :
    fs.readFileInode diskWithFiles (fs.inodeAt diskWithFiles 2) = .ok (encode rootEntries) := by
  rw [inodeAt_diskWithFiles (by decide)]
  exact diskWithFiles_holds.1.2.1

theorem read_files :
    fs.readFileInode diskWithFiles (fs.inodeAt diskWithFiles 11) = .ok (encode files) := by
  rw [inodeAt_diskWithFiles (by decide)]
  exact diskWithFiles_holds.1.2.2

private theorem geometry_diskWithFiles : fs.Geometry diskWithFiles where
  sized := .inl rfl
  healthy := Drive.healthy_ofBlocks imageWithFiles
  descriptor_reached := by decide
  bitmap_reached := by
    rw [diskWithFiles_holds.2.1.1]
    decide
  bitmap_ne := by
    rw [diskWithFiles_holds.2.1.1]
    decide
  nodup := by
    rw [metadata_diskWithFiles]
    decide
  reached := by
    rw [metadata_diskWithFiles]
    decide
  used := by
    rw [metadata_diskWithFiles]
    have hmeta : ∀ b ∈ ([2, 3, 4, 5, 6] : List UInt32), 1 ≤ b.toNat ∧ b.toNat ≤ 12 := by decide
    intro b hb
    obtain ⟨hpos, hle⟩ := hmeta b hb
    exact (blockUsed_diskWithFiles (by omega)).mpr ⟨hpos, hle⟩

theorem consistent_diskWithFiles : fs.Consistent {i | i ∈ inodes} diskWithFiles where
  toGeometry := geometry_diskWithFiles
  root := by decide
  valid := by
    change ∀ i ∈ inodes, _
    decide
  inode_used := by
    have hle : ∀ i ∈ inodes, i.toNat ≤ 16 := by decide
    exact fun i hi => (inodeUsed_diskWithFiles (hle i hi)).mpr hi
  refs_nodup := by
    have hblocks : ∀ i ∈ inodes, (blocksOf i).Nodup := by decide
    intro i hi
    rw [refs_diskWithFiles hi]
    exact hblocks i hi
  block_used := by
    have hblocks : ∀ i ∈ inodes, ∀ b ∈ blocksOf i, 1 ≤ b.toNat ∧ b.toNat ≤ 12 := by decide
    intro i hi b hb
    rw [refs_diskWithFiles hi] at hb
    obtain ⟨hpos, hle⟩ := hblocks i hi b hb
    exact (blockUsed_diskWithFiles (by omega)).mpr ⟨hpos, hle⟩
  outside := by
    have hblocks : ∀ i ∈ inodes, ∀ b ∈ blocksOf i, b ∉ [2, 3, 4, 5, 6] := by decide
    intro i hi
    rw [refs_diskWithFiles hi, metadata_diskWithFiles]
    exact hblocks i hi
  disjoint := by
    have hblocks : ∀ i ∈ inodes, ∀ j ∈ inodes, i ≠ j → ∀ b ∈ blocksOf i, b ∉ blocksOf j := by
      decide
    intro i hi j hj hij
    rw [refs_diskWithFiles hi, refs_diskWithFiles hj]
    exact fun b hb hb' => hblocks i hi j hj hij b hb hb'
  dirs := by
    intro i hi hdir
    rcases (isDir_diskWithFiles hi).mp hdir with rfl | rfl
    · refine ⟨rootEntries, read_root, ?_⟩
      rw [listed_rootEntries]
      decide
    · refine ⟨files, read_files, ?_⟩
      rw [listed_files]
      decide

private theorem unbroken_diskWithFiles : fs.Unbroken {i | i ∈ inodes} diskWithFiles where
  toConsistent := consistent_diskWithFiles
  alive := by
    intro i hi hdir rs hraw
    rcases (isDir_diskWithFiles hi).mp hdir with rfl | rfl
    · obtain rfl := encode_injective (Except.ok.inj (read_root.symm.trans hraw))
      decide
    · obtain rfl := encode_injective (Except.ok.inj (read_files.symm.trans hraw))
      decide

/-- A file is created and written. -/
theorem write_read_new_file :
    fs.readFile ((fs.writeFile 2 "/d/h" [72]).exec diskWithFiles).2 "/d/h" = .ok [72] ∧
      ∀ q j n ft, fs.walk diskWithFiles 2 q = .ok (j, n, ft) →
        (∀ m kind, fs.walk diskWithFiles 2 "/d/h" ≠ .ok (j, m, kind)) →
          fs.readFile ((fs.writeFile 2 "/d/h" [72]).exec diskWithFiles).2 q =
            fs.readFile diskWithFiles q :=
  Ext3Fs.write_read_frame unbroken_diskWithFiles "/d/h" [72] 2
    (Fallible.exec_eq_of_fst (by decide +kernel))

end Sample

end RustKernel.Fs
