import RustKernel.Fs.WriteRecursion

/-!
# RustKernel.Fs.FailedWrites

What a failed `create_file` or `write_file` leaves on a drive without faults.

Neither gives anything back. A `create_file` that finds no room for the directory entry has taken an
inode by then, and a `write_file` has taken that inode or the blocks it got. Only a call that fails
before it takes anything leaves the disk as it is.

## Main results

- `writeFile_hidden_fails`: behind a dead record `write_file` takes inodes until it fails
- `failed_writes_iff`: the failed calls leave the disk unchanged exactly if `create_file` finds room
  for the entry and `write_file` finds room for the entry and the data
-/

namespace RustKernel.Fs

open Lib

namespace Ext3Fs

variable {fs : Ext3Fs} {live : Set UInt32} {d d' d₁ : Drive} {i p ino : UInt32}
  {path name : String} {rs : List Record} {data : List UInt8} {msg : String}

/-! ### An unchanged disk -/

variable (fs) in
/-- The bitmaps and the inodes of all groups, and the directories, are the same. -/
structure Unchanged (live : Set UInt32) (d d' : Drive) : Prop where
  blockBits : ∀ g < fs.bgCount.toNat, ∀ k, fs.blockBit d' g k = fs.blockBit d g k
  inodeBits : ∀ g < fs.bgCount.toNat, ∀ k, fs.inodeBit d' g k = fs.inodeBit d g k
  inodes : ∀ n, fs.InodeNumber n → fs.inodeOf d' n = fs.inodeOf d n
  dirs : ∀ j ∈ live, (fs.inodeOf d j).isDir = true →
    fs.readFileInode d' (fs.inodeOf d' j) = fs.readFileInode d (fs.inodeOf d j)

theorem Unchanged.refl (fs : Ext3Fs) (live : Set UInt32) (d : Drive) : fs.Unchanged live d d where
  blockBits := fun _ _ _ => rfl
  inodeBits := fun _ _ _ => rfl
  inodes := fun _ _ => rfl
  dirs := fun _ _ _ => rfl

variable (fs) in
/-- A bit of the first inode bitmap is set that was clear. -/
def InodeTaken (d d' : Drive) : Prop :=
  ∃ k, fs.inodeBit d 0 k = false ∧ fs.inodeBit d' 0 k = true

variable (fs) in
/-- The bits of the first inode bitmap that were set still are. -/
def InodesKept (d d' : Drive) : Prop :=
  ∀ k, fs.inodeBit d 0 k = true → fs.inodeBit d' 0 k = true

theorem InodeTaken.kept {d'' : Drive} (h : fs.InodeTaken d d') (hkept : fs.InodesKept d' d'') :
    fs.InodeTaken d d'' := by
  obtain ⟨k, hclear, hset⟩ := h
  exact ⟨k, hclear, hkept k hset⟩

theorem InodeTaken.not_unchanged (hg : fs.Grouped d) (h : fs.InodeTaken d d') :
    ¬fs.Unchanged live d d' := by
  rintro ⟨-, hsame, -, -⟩
  obtain ⟨k, hclear, hset⟩ := h
  rw [hsame 0 hg.groups, hclear] at hset
  cases hset

/-- A failed save that could take a block has taken one. -/
theorem Leak.not_unchanged (hg : fs.Grouped d) (h : fs.Leak d d') (hne : fs.freeBlocks d ≠ []) :
    ¬fs.Unchanged live d d' := by
  rintro ⟨hsame, -, -, -⟩
  obtain ⟨k, hfree, hset⟩ := h.taken hne
  have hbit := hsame 0 hg.groups k
  rw [blockBit, (h.keptGroups hg).place hg.sized (blockBitmap_mem hg.groups),
    hset, blockBit,
    (mem_clearBits.mp hfree).2] at hbit
  cases hbit

theorem Leak.inodesKept (hg : fs.Grouped d) (h : fs.Leak d d') : fs.InodesKept d d' := by
  intro k hset
  rw [h.inodeBit_eq hg hg.groups, hset]

/-! ### What the calls take -/

theorem GroupClaimed.inodeTaken (h : fs.GroupClaimed live d ino d') : fs.InodeTaken d d' :=
  ⟨_, h.bit⟩

theorem GroupClaimed.inodesKept (h : fs.GroupClaimed live d ino d') : fs.InodesKept d d' :=
  fun _ hset => h.inodeBit_mono h.before.groups hset

namespace GroupCreated

theorem inodesKept (h : fs.GroupCreated live d path name p ino rs d₁ d') : fs.InodesKept d d' := by
  intro k hset
  rw [h.inodeBit_eq h.before.groups, hset, Bool.true_or]

theorem inodeTaken (h : fs.GroupCreated live d path name p ino rs d₁ d') :
    fs.InodeTaken d d' := by
  refine ⟨ino.toNat - 1, h.claimed.bit.1, ?_⟩
  rw [h.inodeBit_eq h.before.groups, decide_eq_true ⟨rfl, rfl⟩, Bool.or_true]

end GroupCreated

/-- Without room for the entry `create_file` fails, and has taken an inode. -/
private theorem createFile_fails (hc : fs.GroupConsistent live d)
    (h : fs.Creatable d path name p rs) (hspare : fs.EntrySpare live d path)
    (hinode : fs.freeInodes d ≠ [])
    (hfull : ¬fs.Fits d (fs.inodeOf d p) (grownLength rs name)) :
    ∃ msg d', (fs.createFile path).exec d = (.error (.error msg), d') ∧
      fs.InodeTaken d d' ∧ fs.InodesKept d d' := by
  rcases hexec : (fs.createFile path).exec d with ⟨e | _, d'⟩
  · obtain ⟨⟨msg, rfl⟩, hfails⟩ := (h.outcome hc hspare).failed hexec
    cases hfails with
    | noInode hnone => exact absurd hnone hinode
    | noBlocks hclaimed _ hleak =>
      have hkept := hleak.inodesKept hclaimed.consistent.toGrouped
      refine ⟨msg, d', rfl, hclaimed.inodeTaken.kept hkept, fun k hset => ?_⟩
      exact hkept k (hclaimed.inodesKept k hset)
  · obtain ⟨ino, d₁, hcreated⟩ := (h.outcome hc hspare).ok hexec
    exact absurd hcreated.fits hfull

/-- Without an inode `create_file` fails at once. -/
private theorem createFile_no_inode (hc : fs.GroupConsistent live d)
    (h : fs.Creatable d path name p rs) (hspare : fs.EntrySpare live d path)
    (hnone : fs.freeInodes d = []) :
    ∃ msg, (fs.createFile path).exec d = (.error (.error msg), d) := by
  rcases hexec : (fs.createFile path).exec d with ⟨e | _, d'⟩
  · obtain ⟨⟨msg, rfl⟩, hfails⟩ := (h.outcome hc hspare).failed hexec
    cases hfails with
    | noInode => exact ⟨msg, rfl⟩
    | noBlocks hclaimed =>
      have hcons := hclaimed.free
      rw [hnone] at hcons
      cases hcons
  · obtain ⟨ino, d₁, hcreated⟩ := (h.outcome hc hspare).ok hexec
    exact absurd hnone hcreated.freeInodes_ne_nil

/-- A file that is hidden is created again by every further call, until that fails. -/
theorem writeFile_hidden_fails (n : Nat) :
    ∀ live d rs, (fs.freeInodes d).length = n → fs.GroupConsistent live d →
      fs.Creatable d path name p rs → ¬Visible rs name →
      (fs.freeInodes d ≠ [] → fs.Fits d (fs.inodeOf d p) (grownLength rs name) →
        fs.Spare live d (fs.freeBlocks d).length) →
        ∃ depth msg d', (fs.writeFile depth path data).exec d = (.error (.error msg), d') ∧
          fs.InodesKept d d' := by
  induction n with
  | zero =>
    intro live d rs hlen hc hready _ _
    have hnone := List.length_eq_zero_iff.mp hlen
    obtain ⟨msg, hexec⟩ := createFile_no_inode hc hready
      (hready.entrySpare fun hinode => absurd hnone hinode) hnone
    exact ⟨1, msg, d, writeFile_create_fails (hready.walk_error hc) hexec 0, fun _ hset => hset⟩
  | succ n ih =>
    intro live d rs hlen hc hready hhidden hspare
    have hentry := hready.entrySpare fun hinode hfits => (hspare hinode hfits).of_all _
    have hinode : fs.freeInodes d ≠ [] := by
      rw [← List.length_pos_iff]
      omega
    by_cases hfits : fs.Fits d (fs.inodeOf d p) (grownLength rs name)
    case neg =>
      obtain ⟨msg, d', hexec, -, hkept⟩ := createFile_fails hc hready hentry hinode hfits
      exact ⟨1, msg, d', writeFile_create_fails (hready.walk_error hc) hexec 0, hkept⟩
    case pos =>
      -- one inode less, and one more record that the reader does not reach
      obtain ⟨d₁, ino, dₐ, hexec, hcreated⟩ := createFile_returns hc hready hentry hinode hfits
      have hlen₁ : (fs.freeInodes d₁).length = n := by
        have hcons := congrArg List.length hcreated.freeInodes_eq
        rw [hlen, List.length_cons] at hcons
        omega
      obtain ⟨rs₁, hready₁, hhidden₁⟩ := hcreated.ready_after hhidden
      obtain ⟨depth, msg, d', hrun, hkept⟩ :=
        ih _ d₁ rs₁ hlen₁ hcreated.consistent hready₁ hhidden₁
          fun _ _ => hcreated.spare_all (hspare hinode hfits)
      refine ⟨depth + 1, msg, d', ?_, fun k hset => hkept k (hcreated.inodesKept k hset)⟩
      rw [writeFile_creates (hready.walk_error hc) hexec depth]
      exact hrun

/-! ### When the calls leave the disk unchanged -/

variable (fs) in
/-- A `create_file` that returns an error has changed nothing. -/
def CreateKeeps (live : Set UInt32) (d : Drive) (path : String) : Prop :=
  ∀ msg d', (fs.createFile path).exec d = (.error (.error msg), d') → fs.Unchanged live d d'

variable (fs) in
/-- A `write_file` that returns an error, at whatever depth, has changed nothing. -/
def WriteKeeps (live : Set UInt32) (d : Drive) (path : String) (data : List UInt8) : Prop :=
  ∀ depth msg d', (fs.writeFile depth path data).exec d = (.error (.error msg), d') →
    fs.Unchanged live d d'

variable (fs) in
/-- There is room for the data in the file to which the path leads, or not a single block; and if
    the file is to be created, there is room for its entry, which the reader will find, and for the
    data. -/
structure RoomFor (d : Drive) (path : String) (data : List UInt8) : Prop where
  existing : ∀ i n ft, fs.walk d 2 path = .ok (i, n, ft) → ft ≠ FT_DIR →
    fs.Fits d n data.length ∨ fs.freeBlocks d = []
  created : ∀ name p rs, fs.Creatable d path name p rs → fs.freeInodes d ≠ [] →
    fs.Fits d (fs.inodeOf d p) (grownLength rs name) ∧ Visible rs name ∧
      fs.blockCount data.length ≤ 12 ∧
      fs.entryBlocks d p rs name + fs.blockCount data.length ≤ (fs.freeBlocks d).length

private theorem createKeeps_iff (hc : fs.GroupConsistent live d) (path : String)
    (hspare : fs.EntrySpare live d path) :
    fs.CreateKeeps live d path ↔
      ∀ name p rs, fs.Creatable d path name p rs → fs.freeInodes d ≠ [] →
        fs.Fits d (fs.inodeOf d p) (grownLength rs name) := by
  constructor
  · intro hkeeps name p rs hready hinode
    by_contra hfull
    obtain ⟨msg, d', hexec, htaken, -⟩ := createFile_fails hc hready hspare hinode hfull
    exact htaken.not_unchanged hc.toGrouped (hkeeps msg d' hexec)
  · intro hroom msg d' hexec
    rcases (createFile_outcome hc path hspare).failed hexec with
      ⟨rfl, -⟩ | ⟨name, p, rs, hready, -, hfails⟩
    · exact .refl fs live d'
    · cases hfails with
      | noInode => exact .refl fs live d
      | noBlocks hclaimed hfull _ =>
        have hinode : fs.freeInodes d ≠ [] := by
          rw [hclaimed.free]
          exact List.cons_ne_nil _ _
        exact absurd (hroom name p rs hready hinode) hfull

/-- Without room for the entry, hidden, or without room for the data, `write_file` fails after it has
    taken an inode. -/
private theorem writeFile_creating_fails (hc : fs.GroupConsistent live d)
    (hready : fs.Creatable d path name p rs) (hspare : fs.WriteSpare live d path data)
    (hinode : fs.freeInodes d ≠ [])
    (hbad : ¬(fs.Fits d (fs.inodeOf d p) (grownLength rs name) ∧ Visible rs name ∧
      fs.blockCount data.length ≤ 12 ∧
      fs.entryBlocks d p rs name + fs.blockCount data.length ≤ (fs.freeBlocks d).length)) :
    ∃ depth msg d', (fs.writeFile depth path data).exec d = (.error (.error msg), d') ∧
      fs.InodeTaken d d' := by
  have hwalk := hready.walk_error hc
  by_cases hfits : fs.Fits d (fs.inodeOf d p) (grownLength rs name)
  case neg =>
    obtain ⟨msg, d', hexec, htaken, -⟩ := createFile_fails hc hready hspare.entry hinode hfits
    exact ⟨1, msg, d', writeFile_create_fails hwalk hexec 0, htaken⟩
  case pos =>
  obtain ⟨d₁, ino, dₐ, hexec, hcreated⟩ :=
    createFile_returns hc hready hspare.entry hinode hfits
  have hc₁ := hcreated.consistent
  have hrun : ∀ depth, (fs.writeFile (depth + 1) path data).exec d =
      (fs.writeFile depth path data).exec d₁ := writeFile_creates hwalk hexec
  by_cases hvisible : Visible rs name
  case neg =>
    obtain ⟨rs₁, hready₁, hhidden₁⟩ := hcreated.ready_after hvisible
    obtain ⟨depth, msg, d', hfails, hkept⟩ :=
      writeFile_hidden_fails _ _ d₁ rs₁ rfl hc₁ hready₁ hhidden₁ fun _ _ =>
        hcreated.spare_all (hspare.hidden name p rs hready hinode hvisible hfits)
    exact ⟨depth + 1, msg, d', (hrun depth).trans hfails, hcreated.inodeTaken.kept hkept⟩
  case pos =>
  -- the nested call finds the file, but there is no room for the data
  have hfound := hcreated.walk_path
  rw [if_pos hvisible] at hfound
  have hfull : ¬fs.Fits d₁ emptyFile data.length :=
    fun hroom => hbad ⟨hfits, hvisible, (hcreated.fits_new _).mp hroom⟩
  rw [← hcreated.inodeOf_new] at hfull
  have hsave := saveFile_outcome hc₁ (Set.mem_insert ino live) data fun hroom => absurd hroom hfull
  rw [hcreated.inodeOf_new] at hsave hfull
  rcases hresult : (fs.writeFileData emptyFile data >>=
    fun inode => fs.writeInode ino inode).exec d₁ with ⟨e | _, d'⟩
  · rcases hsave.failed hresult with ⟨hroom, -⟩ | ⟨-, ⟨msg, rfl⟩, hleak⟩
    · exact absurd hroom hfull
    · refine ⟨2, msg, d', ?_, hcreated.inodeTaken.kept (hleak.inodesKept hc₁.toGrouped)⟩
      rw [hrun, writeFile_of_walk hfound (by decide), hresult]
  · exact absurd (hsave.ok hresult).1 hfull

private theorem writeKeeps_iff (hc : fs.GroupConsistent live d) (path : String)
    (data : List UInt8) (hspare : fs.WriteSpare live d path data) :
    fs.WriteKeeps live d path data ↔ fs.RoomFor d path data := by
  constructor
  · intro hkeeps
    constructor
    · intro i n ft hwalk hfile
      obtain ⟨hi, rfl, -⟩ := hc.walk_live hwalk
      refine or_iff_not_imp_left.mpr fun hfull => ?_
      by_contra hne
      have hsave := saveFile_outcome hc hi data (hspare.existing i _ ft hwalk)
      rcases hresult : (fs.writeFileData (fs.inodeOf d i) data >>=
        fun inode => fs.writeInode i inode).exec d with ⟨e | _, d'⟩
      · rcases hsave.failed hresult with ⟨hroom, -⟩ | ⟨-, ⟨msg, rfl⟩, hleak⟩
        · exact hfull hroom
        · have hrun : (fs.writeFile 1 path data).exec d = _ := writeFile_of_walk hwalk hfile 0
          exact hleak.not_unchanged hc.toGrouped hne (hkeeps 1 msg d' (hrun.trans hresult))
      · exact hfull (hsave.ok hresult).1
    · intro name p rs hready hinode
      by_contra hbad
      obtain ⟨depth, msg, d', hexec, htaken⟩ :=
        writeFile_creating_fails hc hready hspare hinode hbad
      exact htaken.not_unchanged hc.toGrouped (hkeeps depth msg d' hexec)
  · intro hroom depth msg d' hexec
    cases depth with
    | zero => cases hexec
    | succ depth =>
    cases hwalk : fs.walk d 2 path with
    | ok found =>
      obtain ⟨i, n, ft⟩ := found
      obtain ⟨hi, rfl, -⟩ := hc.walk_live hwalk
      by_cases hfile : ft = FT_DIR
      · -- a directory is refused
        rw [writeFile, Fallible.exec_bind, Fallible.exec_reading] at hexec
        simp only [hwalk, if_pos hfile] at hexec
        cases hexec
        exact .refl fs live d
      · rw [writeFile_of_walk hwalk hfile] at hexec
        have hsave := saveFile_outcome hc hi data (hspare.existing i _ ft hwalk)
        rcases hsave.failed hexec with ⟨-, -, hpanic⟩ | ⟨hfull, -, hleak⟩
        · cases hpanic
        · rw [hleak.full ((hroom.existing i _ ft hwalk hfile).resolve_left hfull)]
          exact .refl fs live d
    | error e =>
      by_cases hmsg : ∃ msg, e = .error msg
      case neg =>
        rw [writeFile_of_walk_panic hwalk (not_exists.mp hmsg)] at hexec
        cases hexec
        exact .refl fs live d
      case pos =>
      obtain ⟨msg', rfl⟩ := hmsg
      rw [writeFile_of_walk_error hwalk, Fallible.exec_bind] at hexec
      rcases hcreate : (fs.createFile path).exec d with ⟨e' | _, d₁⟩
      · rw [hcreate] at hexec
        obtain ⟨herror, rfl⟩ := Prod.mk.inj hexec
        obtain rfl := Except.error.inj herror
        refine (createKeeps_iff hc path hspare.entry).mpr
          (fun name p rs hready hinode => ?_) _ _ hcreate
        exact (hroom.created name p rs hready hinode).1
      · -- the file has been created, and there is room for the data
        rw [hcreate] at hexec
        obtain ⟨name, p, ino, rs, dₐ, hcreated⟩ :=
          (createFile_outcome hc path hspare.entry).ok hcreate
        have hinode := hcreated.freeInodes_ne_nil
        obtain ⟨-, hvisible, hdata⟩ := hroom.created name p rs hcreated.ready hinode
        have hfound := hcreated.walk_path
        rw [if_pos hvisible] at hfound
        cases depth with
        | zero => cases hexec
        | succ depth =>
        simp only at hexec
        rw [writeFile_of_walk hfound (by decide)] at hexec
        have hsave := saveFile_outcome hcreated.consistent (Set.mem_insert ino live) data
          fun _ => by
            rw [hcreated.inodeOf_new, missing_emptyFile]
            exact hcreated.spare
              (hspare.visible name p rs hcreated.ready hinode hvisible hdata.1 hdata.2)
        rw [hcreated.inodeOf_new] at hsave
        rcases hsave.failed hexec with ⟨-, -, hpanic⟩ | ⟨hfull, -, -⟩
        · cases hpanic
        · exact absurd ((hcreated.fits_new _).mpr hdata) hfull

/-- **Failed writes** leave the disk unchanged exactly if there is room, or nothing to take. -/
theorem failed_writes_iff (hc : fs.GroupConsistent live d) (path : String) (data : List UInt8) :
    (fs.EntrySpare live d path → (fs.CreateKeeps live d path ↔
      ∀ name p rs, fs.Creatable d path name p rs → fs.freeInodes d ≠ [] →
        fs.Fits d (fs.inodeOf d p) (grownLength rs name))) ∧
    (fs.WriteSpare live d path data →
      (fs.WriteKeeps live d path data ↔ fs.RoomFor d path data)) :=
  ⟨createKeeps_iff hc path, writeKeeps_iff hc path data⟩

end Ext3Fs

/-! ### A write that does not fit -/

namespace Sample

/-- A new file of one byte: neither call can fail. -/
theorem room_for_new_file : fs.CreateKeeps {i | i ∈ inodes} diskWithFiles "/d/h" ∧
    fs.WriteKeeps {i | i ∈ inodes} diskWithFiles "/d/h" [72] := by
  obtain ⟨hcreate, hwrite⟩ :=
    Ext3Fs.failed_writes_iff groupConsistent_diskWithFiles "/d/h" [72]
  have hspare := groupMarked_diskWithFiles.writeSpare "/d/h" [72]
  constructor
  · apply (hcreate hspare.entry).mpr
    intro name p rs hready _
    obtain ⟨rfl, rfl, rfl⟩ := creatable_h.unique hready
    exact fits_h
  · apply (hwrite hspare).mpr
    constructor
    · intro i n ft hwalk
      rw [creatable_h.walk_error groupConsistent_diskWithFiles] at hwalk
      cases hwalk
    · intro name p rs hready _
      obtain ⟨rfl, rfl, rfl⟩ := creatable_h.unique hready
      refine ⟨fits_h, by decide, by decide, ?_⟩
      rw [Ext3Fs.entryBlocks, missing_h, Nat.zero_add]
      exact freeBlocks_diskWithFiles

/-- The file `f` is written with more data than 12 blocks hold. -/
theorem failed_write_changes_disk :
    fs.GroupConsistent {i | i ∈ inodes} diskWithFiles ∧
      fs.GroupMarked {i | i ∈ inodes} diskWithFiles ∧
      ¬(fs.CreateKeeps {i | i ∈ inodes} diskWithFiles "/d/f" ∧
        fs.WriteKeeps {i | i ∈ inodes} diskWithFiles "/d/f" (List.replicate 12289 0)) := by
  refine ⟨groupConsistent_diskWithFiles, groupMarked_diskWithFiles, fun ⟨_, hkeeps⟩ => ?_⟩
  obtain ⟨hroom, -⟩ := (Ext3Fs.writeKeeps_iff groupConsistent_diskWithFiles _ _
    (groupMarked_diskWithFiles.writeSpare _ _)).mp hkeeps
  have hkind : (fs.walk diskWithFiles 2 "/d/f").map (fun found => found.2.2) = .ok FT_REG := by
    decide +kernel
  rcases hwalk : fs.walk diskWithFiles 2 "/d/f" with e | ⟨i, n, ft⟩
  · rw [hwalk] at hkind
    cases hkind
  rw [hwalk] at hkind
  obtain rfl := Except.ok.inj hkind
  rcases hroom i n _ hwalk (by decide) with ⟨hlong, -⟩ | hnone
  · rw [List.length_replicate] at hlong
    exact absurd hlong (by decide)
  · have hfree := freeBlocks_diskWithFiles
    rw [hnone] at hfree
    exact absurd hfree (by decide)

end Sample

end RustKernel.Fs
